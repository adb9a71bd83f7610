import FsPlanner.State
import FsPlanner.Language.Builtin

/-!
Terms (`terms.hxx`, `builtin.cxx`). Every term has two interpreters: one over a state, and one
over a `PartialAssignment`, the map from state variables to values that the relaxed and CSP
evaluations build, where a variable the map lacks makes `at` throw. On constants, state
variables and the three arithmetic terms the two agree whenever the assignment holds the
state's values of the term's state variables.
-/

set_option autoImplicit false

namespace FsPlanner

/-- `PartialAssignment`, a `std::map<VariableIdx, ObjectIdx>`, as its lookup: `at` throws
`std::out_of_range` where the lookup is `none`. -/
abbrev PartialAssignment := Nat → Option ObjectIdx

/-- Modelled from the spec: a `Binding` gives values to the bound variables (`binding.hxx` is not
in the sources). No term below reads it. -/
abbrev Binding := Nat → Option ObjectIdx

/-- The terms whose `interpret` methods are in `terms.hxx` and `builtin.cxx`: a `Constant` (an
`IntConstant` interprets as one), a `StateVariable`, and the arithmetic terms over their
subterms `_subterms[0]` and `_subterms[1]`. -/
inductive Term where
  | constant (value : ObjectIdx)
  | stateVariable (variableId : Nat)
  | addition (lhs rhs : Term)
  | subtraction (lhs rhs : Term)
  | multiplication (lhs rhs : Term)
  deriving DecidableEq, Repr

namespace Term

def stateVariables : Term → List Nat
  | constant _ => []
  | stateVariable variableId => [variableId]
  | addition lhs rhs | subtraction lhs rhs | multiplication lhs rhs =>
    lhs.stateVariables ++ rhs.stateVariables

/-- `interpret(const PartialAssignment&, const Binding&)`, `none` where it throws. -/
def interpretPartial (assignment : PartialAssignment) (binding : Binding) : Term → Option ObjectIdx
  | constant value => some value
  | stateVariable variableId => assignment variableId
  | addition lhs rhs =>
    return (← lhs.interpretPartial assignment binding) + (← rhs.interpretPartial assignment binding)
  | subtraction lhs rhs =>
    return (← lhs.interpretPartial assignment binding) - (← rhs.interpretPartial assignment binding)
  | multiplication lhs rhs =>
    return (← lhs.interpretPartial assignment binding) * (← rhs.interpretPartial assignment binding)

/-- `interpret(const State&, const Binding&)`. The state version of `StateVariable::interpret`
is in `terms.cxx`, which is not in the sources: modelled from the spec as the state's value of
the variable, read as an `int`. -/
def interpret {ix : StateAtomIndexer} (state : State ix) (binding : Binding) : Term → ObjectIdx
  | constant value => value
  | stateVariable variableId => BitVec.ofInt 32 (state.getValue variableId)
  | addition lhs rhs => lhs.interpret state binding + rhs.interpret state binding
  | subtraction lhs rhs => lhs.interpret state binding - rhs.interpret state binding
  | multiplication lhs rhs => lhs.interpret state binding * rhs.interpret state binding

/-- The two interpreters agree on every term of the fragment, for every binding, when the
assignment maps each state variable of the term to its value in the state. -/
theorem interpretPartial_eq_interpret {ix : StateAtomIndexer} (state : State ix)
    (binding : Binding) (assignment : PartialAssignment) (t : Term)
    (hassignment : ∀ v ∈ t.stateVariables,
      assignment v = some (BitVec.ofInt 32 (state.getValue v))) :
    t.interpretPartial assignment binding = some (t.interpret state binding) := by
  induction t with
  | constant value => rfl
  | stateVariable variableId => exact hassignment variableId (List.mem_singleton_self _)
  | addition lhs rhs ihl ihr | subtraction lhs rhs ihl ihr | multiplication lhs rhs ihl ihr =>
    have hl := ihl fun v hv => hassignment v (List.mem_append_left _ hv)
    have hr := ihr fun v hv => hassignment v (List.mem_append_right _ hv)
    simp [interpretPartial,interpret,hl,hr]

theorem interpretPartial_eq_interpret_at_five :
    (multiplication (stateVariable 0) (subtraction (stateVariable 0) (constant 2))).interpretPartial
        (fun v => if v = 0 then some 5 else none) (fun _ => none) =
      some ((multiplication (stateVariable 0) (subtraction (stateVariable 0) (constant 2))).interpret
        ((State.zero (StateAtomIndexer.create [false])).set ⟨0,5⟩) (fun _ => none)) :=
  interpretPartial_eq_interpret _ _ _ _ (by decide)

end Term

end FsPlanner
