import FsPlanner.Language.Json
import FsPlanner.Language.Terms

/-!
The light language of formulas and terms that the light loader builds. Its classes
(`light.hxx`) and the lookups of `ProblemInfo` are not in the sources: the syntax has the
arguments the loader passes to their constructors, and the names of connectives and quantifiers
are read on the names the loader passes.
-/

set_option autoImplicit false

namespace FsPlanner

namespace Light

/-- The lookups of `ProblemInfo` that the loader calls. `ProblemInfo` is not in the sources:
`getSymbolId` and `getTypeId` are assumed total, never throwing on a name they do not know. -/
structure ProblemInfo where
  getSymbolId : String → Nat
  getTypeId : String → Nat

inductive Connective where
  | conjunction
  | disjunction
  | negation
  deriving DecidableEq, Repr

def toConnective (name : String) : Connective :=
  if name = "and" then .conjunction else if name = "or" then .disjunction else .negation

inductive Quantifier where
  | existential
  | universal
  deriving DecidableEq, Repr

def toQuantifier (name : String) : Quantifier :=
  if name = "exists" then .existential else .universal

structure LogicalVariable where
  id : BitVec 32
  name : String
  type : Nat
  deriving DecidableEq, Repr

inductive Term where
  | constant (value : ObjectIdx) (type : Nat)
  | logicalVariable (v : LogicalVariable)
  | functional (symbolId : Nat) (children : List Term)
  deriving Repr

inductive Formula where
  | tautology
  | contradiction
  | atomic (symbolId : Nat) (subterms : List Term)
  | openFormula (connective : Connective) (subformulae : List Formula)
  | quantified (quantifier : Quantifier) (vars : List LogicalVariable) (subformula : Formula)
  deriving Repr

/-- Modelled from the spec: what a state gives the function and predicate symbols, and the objects
of each type, over which quantified variables range. -/
structure Interpretation where
  objects : Nat → List ObjectIdx
  function : Nat → List ObjectIdx → ObjectIdx
  predicate : Nat → List ObjectIdx → Bool

abbrev Binding := BitVec 32 → ObjectIdx

namespace Interpretation

def someBinding (I : Interpretation) (p : Binding → Bool) : List LogicalVariable → Binding → Bool
  | [],binding => p binding
  | v :: vars,binding =>
    (I.objects v.type).any fun o => I.someBinding p vars (Function.update binding v.id o)

def everyBinding (I : Interpretation) (p : Binding → Bool) : List LogicalVariable → Binding → Bool
  | [],binding => p binding
  | v :: vars,binding =>
    (I.objects v.type).all fun o => I.everyBinding p vars (Function.update binding v.id o)

end Interpretation

/-- Modelled from the spec: the value of a term under an interpretation and a binding. -/
def Term.interpret (I : Interpretation) (binding : Binding) : Term → ObjectIdx
  | constant value _ => value
  | logicalVariable v => binding v.id
  | functional symbolId children => I.function symbolId (interpretAll children)
where
  interpretAll : List Term → List ObjectIdx
    | [] => []
    | t :: ts => Term.interpret I binding t :: interpretAll ts

/-- Modelled from the spec: whether a formula holds under an interpretation and a binding. A
negation holds when the conjunction of its subformulae does not. -/
def Formula.holds (I : Interpretation) : Formula → Binding → Bool
  | tautology,_ => true
  | contradiction,_ => false
  | atomic symbolId subterms,binding => I.predicate symbolId (subterms.map (Term.interpret I binding))
  | openFormula .conjunction subformulae,binding => allHold subformulae binding
  | openFormula .disjunction subformulae,binding => anyHolds subformulae binding
  | openFormula .negation subformulae,binding => !allHold subformulae binding
  | quantified .existential vars subformula,binding => I.someBinding (holds I subformula) vars binding
  | quantified .universal vars subformula,binding => I.everyBinding (holds I subformula) vars binding
where
  allHold : List Formula → Binding → Bool
    | [],_ => true
    | f :: fs,binding => holds I f binding && allHold fs binding
  anyHolds : List Formula → Binding → Bool
    | [],_ => false
    | f :: fs,binding => holds I f binding || anyHolds fs binding

end Light

end FsPlanner
