import FsPlanner.Atom
import FsPlanner.State
import FsPlanner.Formula
import FsPlanner.Extractor
import FsPlanner.Direct.Bookkeeping
import FsPlanner.Direct.Evaluate
import FsPlanner.Unreached.Graph
import FsPlanner.Unreached.Achievers
import FsPlanner.Unreached.Sweep
import FsPlanner.Unreached.Evaluate
import FsPlanner.Unreached.Plain
import FsPlanner.Language.Builtin
import FsPlanner.Language.Terms
import FsPlanner.Language.Json
import FsPlanner.Language.Light
import FsPlanner.Language.Loader
import FsPlanner.ProblemLoader
import FsPlanner.Language.Effects
