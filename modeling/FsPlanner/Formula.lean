import FsPlanner.State

/-!
Formulas as the heuristics use them, and the two ways of checking one: exactly, in a state
(`FormulaInterpreter::satisfied`), and under delete relaxation, in a set of reached atoms
(`isGoal` of the RPG builders), where each variable may take any of its reached values.
-/

set_option autoImplicit false

namespace FsPlanner

/-- A closed formula: the state variables it mentions, and its truth value under an
assignment. The truth value depends on the mentioned variables only. -/
structure Formula where
  scope : List Nat
  holds : (Nat → Int) → Bool
  holds_local : ∀ σ τ : Nat → Int, (∀ v ∈ scope, σ v = τ v) → holds σ = holds τ

namespace Formula

def conjunction (f g : Formula) : Formula where
  scope := f.scope ++ g.scope
  holds σ := f.holds σ && g.holds σ
  holds_local σ τ h := by
    dsimp only
    rw [f.holds_local σ τ fun v hv => h v (by simp [hv]),
      g.holds_local σ τ fun v hv => h v (by simp [hv])]

def satisfied {ix : StateAtomIndexer} (f : Formula) (s : State ix) : Bool := f.holds s.getValue

end Formula

/-- Modelled from the spec: the relaxed state (`relaxed_state.hxx` is not in the sources).
The set of reached atoms; `R(v)` is the set of values of `v` in it. -/
abbrev RelaxedState := Finset Atom

namespace RelaxedState

def ofState {ix : StateAtomIndexer} (s : State ix) : RelaxedState :=
  (Finset.range ix.size).image fun v => ⟨v,s.getValue v⟩

def accumulate (R : RelaxedState) (atoms : List Atom) : RelaxedState := R ∪ atoms.toFinset

/-- The values of a multiset in increasing order. Insertion sort keeps it structural, so
that the relaxed goal check can be evaluated. -/
def sortValues (m : Multiset Int) : List Int :=
  Quot.liftOn m (List.insertionSort (· ≤ ·)) fun _ _ h => List.eq_of_perm_of_sorted
    ((List.perm_insertionSort _ _).trans (h.trans (List.perm_insertionSort _ _).symm))
    (List.sorted_insertionSort _ _) (List.sorted_insertionSort _ _)

theorem mem_sortValues {m : Multiset Int} {x : Int} : x ∈ sortValues m ↔ x ∈ m :=
  Quot.inductionOn m fun l => (List.perm_insertionSort _ l).mem_iff

def valuesOf (R : RelaxedState) (v : Nat) : List Int :=
  sortValues ((R.filter (·.var = v)).image Atom.value).val

theorem mem_valuesOf {R : RelaxedState} {v : Nat} {x : Int} : x ∈ R.valuesOf v ↔ ⟨v,x⟩ ∈ R := by
  simp only [valuesOf,mem_sortValues,Finset.mem_val,Finset.mem_image,Finset.mem_filter]
  constructor
  · rintro ⟨⟨w,y⟩,⟨hm,rfl⟩,rfl⟩; exact hm
  · intro h; exact ⟨⟨v,x⟩,⟨h,rfl⟩,rfl⟩

@[simp] theorem mem_ofState {ix : StateAtomIndexer} {s : State ix} {a : Atom} :
    a ∈ ofState s ↔ a.var < ix.size ∧ a.value = s.getValue a.var := by
  obtain ⟨v,x⟩ := a
  simp only [ofState,Finset.mem_image,Finset.mem_range,Atom.mk.injEq]
  constructor
  · rintro ⟨w,hw,rfl,rfl⟩; exact ⟨hw,rfl⟩
  · rintro ⟨hv,rfl⟩; exact ⟨v,hv,rfl,rfl⟩

end RelaxedState

/-- The assignment that gives the variables of `scope` the values of `choice`, position by
position (the first position of a variable wins), and `0` to every other variable. -/
def assignment : List Nat → List Int → Nat → Int
  | v :: scope,x :: choice,w => if v = w then x else assignment scope choice w
  | _,_,_ => 0

def RelaxedSat (S : Set Atom) (f : Formula) : Prop :=
  ∃ σ : Nat → Int, (∀ v ∈ f.scope, ⟨v,σ v⟩ ∈ S) ∧ f.holds σ = true

/-- Modelled from the spec: the relaxed goal check `isGoal` (section 4.5). It searches the
choices of one reached value per variable of the scope for a model of the formula, and
returns the atoms of the first model found, the `causes`. -/
def isGoal (R : RelaxedState) (f : Formula) : Option (List Atom) :=
  ((f.scope.map R.valuesOf).sections.find? fun c => f.holds (assignment f.scope c)).map
    (List.zipWith Atom.mk f.scope)

theorem assignment_mem {R : RelaxedState} :
    ∀ {scope : List Nat} {c : List Int}, List.Forall₂ (· ∈ ·) c (scope.map R.valuesOf) →
      ∀ v ∈ scope, (⟨v,assignment scope c v⟩ : Atom) ∈ R
  | [],_,_,v,hv => by simp at hv
  | w :: scope,x :: c,h,v,hv => by
    rw [List.map_cons,List.forall₂_cons] at h
    by_cases hwv : w = v
    · subst hwv; simpa [assignment] using RelaxedState.mem_valuesOf.mp h.1
    · simp only [assignment,hwv,if_false]
      exact assignment_mem h.2 v (by simpa [Ne.symm hwv] using hv)
  | _ :: _,[],h,_,_ => by simp at h

theorem zipWith_mem {R : RelaxedState} :
    ∀ {scope : List Nat} {c : List Int}, List.Forall₂ (· ∈ ·) c (scope.map R.valuesOf) →
      ∀ a ∈ List.zipWith Atom.mk scope c, a ∈ R
  | [],_,_,a,ha => by simp at ha
  | w :: scope,x :: c,h,a,ha => by
    rw [List.map_cons,List.forall₂_cons] at h
    rcases List.mem_cons.mp (by simpa using ha) with rfl | ha
    · exact RelaxedState.mem_valuesOf.mp h.1
    · exact zipWith_mem h.2 a ha
  | _ :: _,[],h,_,_ => by simp at h

theorem assignment_map (σ : Nat → Int) : ∀ (scope : List Nat), ∀ v ∈ scope,
    assignment scope (scope.map σ) v = σ v
  | [],v,hv => by simp at hv
  | w :: scope,v,hv => by
    by_cases hwv : w = v
    · simp [assignment,hwv]
    · simp only [List.map_cons,assignment,hwv,if_false]
      exact assignment_map σ scope v (by simpa [Ne.symm hwv] using hv)

theorem assignment_eq_of_zipWith (σ : Nat → Int) : ∀ {scope : List Nat} {c : List Int},
    scope.length = c.length → (∀ a ∈ List.zipWith Atom.mk scope c, σ a.var = a.value) →
      ∀ v ∈ scope, assignment scope c v = σ v
  | [],_,_,_,v,hv => by simp at hv
  | w :: scope,x :: c,hl,h,v,hv => by
    by_cases hwv : w = v
    · subst hwv; simpa [assignment] using (h ⟨w,x⟩ (by simp)).symm
    · simp only [assignment,hwv,if_false]
      exact assignment_eq_of_zipWith σ (by simpa using hl) (fun a ha => h a (by simp [ha]))
        v (by simpa [Ne.symm hwv] using hv)
  | _ :: _,[],hl,_,_,_ => by simp at hl

theorem isGoal_isSome_iff {R : RelaxedState} {f : Formula} :
    (isGoal R f).isSome ↔ RelaxedSat ↑R f := by
  rw [isGoal,Option.isSome_map',List.find?_isSome]
  simp only [List.mem_sections]
  constructor
  · rintro ⟨c,hc,hf⟩
    exact ⟨assignment f.scope c,fun v hv => assignment_mem hc v hv,hf⟩
  · rintro ⟨σ,hσ,hf⟩
    refine ⟨f.scope.map σ,?_,?_⟩
    · rw [List.forall₂_map_left_iff,List.forall₂_map_right_iff]
      exact List.forall₂_same.mpr fun v hv => RelaxedState.mem_valuesOf.mpr (hσ v hv)
    · rw [f.holds_local _ σ (assignment_map σ f.scope),hf]

theorem isGoal_causes {R : RelaxedState} {f : Formula} {causes : List Atom}
    (h : isGoal R f = some causes) :
    (∀ a ∈ causes, a ∈ R) ∧ ∀ σ : Nat → Int, (∀ a ∈ causes, σ a.var = a.value) → f.holds σ = true := by
  simp only [isGoal,Option.map_eq_some'] at h
  obtain ⟨c,hc,rfl⟩ := h
  have hsec := List.mem_sections.mp (List.mem_of_find?_eq_some hc)
  have hlen : f.scope.length = c.length := by simpa using hsec.length_eq.symm
  refine ⟨fun a ha => ?_,fun σ hσ => ?_⟩
  · exact zipWith_mem hsec a ha
  · rw [f.holds_local σ (assignment f.scope c) fun v hv =>
      (assignment_eq_of_zipWith σ hlen hσ v hv).symm]
    have := List.find?_some hc
    exact this

theorem RelaxedSat.mono {S T : Set Atom} {f : Formula} (h : RelaxedSat S f) (hST : S ⊆ T) :
    RelaxedSat T f := by
  obtain ⟨σ,hσ,hf⟩ := h
  exact ⟨σ,fun v hv => hST (hσ v hv),hf⟩

theorem exists_mem_of_mem_iUnion {L : Nat → Set Atom} (hL : Monotone L) :
    ∀ l : List Atom, (∀ a ∈ l, ∃ k, a ∈ L k) → ∃ K, ∀ a ∈ l, a ∈ L K
  | [],_ => ⟨0,by simp⟩
  | a :: l,h => by
    obtain ⟨k,hk⟩ := h a (List.mem_cons_self _ _)
    obtain ⟨K,hK⟩ := exists_mem_of_mem_iUnion hL l fun b hb => h b (List.mem_cons_of_mem _ hb)
    refine ⟨max k K,fun b hb => ?_⟩
    rcases List.mem_cons.mp hb with rfl | hb
    · exact hL (le_max_left k K) hk
    · exact hL (le_max_right k K) (hK b hb)

theorem relaxedSat_iUnion_iff {L : Nat → Set Atom} (hL : Monotone L) {f : Formula} :
    RelaxedSat {a | ∃ k, a ∈ L k} f ↔ ∃ k, RelaxedSat (L k) f := by
  constructor
  · rintro ⟨σ,hσ,hf⟩
    obtain ⟨K,hK⟩ := exists_mem_of_mem_iUnion hL (f.scope.map fun v => ⟨v,σ v⟩) (by simpa using hσ)
    exact ⟨K,σ,fun v hv => hK _ (List.mem_map_of_mem _ hv),hf⟩
  · rintro ⟨k,hk⟩
    exact hk.mono fun a ha => ⟨k,ha⟩

theorem relaxedSat_ofState_iff {ix : StateAtomIndexer} {s : State ix} {f : Formula}
    (hf : ∀ v ∈ f.scope, v < ix.size) :
    RelaxedSat ↑(RelaxedState.ofState s) f ↔ f.satisfied s = true := by
  constructor
  · rintro ⟨σ,hσ,h⟩
    rw [Formula.satisfied,f.holds_local _ σ fun v hv => ?_,h]
    exact ((RelaxedState.mem_ofState.mp (hσ v hv)).2).symm
  · intro h
    exact ⟨s.getValue,fun v hv => RelaxedState.mem_ofState.mpr ⟨hf v hv,rfl⟩,h⟩

/-- The parts of `Problem` that the heuristics read: the state indexer, the atom index, the
goal and the state constraints. Both formulas mention state variables of the problem only. -/
structure Problem where
  stateIndexer : StateAtomIndexer
  tupleIndex : AtomIndex
  goal : Formula
  stateConstraints : Formula
  goal_scope : ∀ v ∈ goal.scope, v < stateIndexer.size
  stateConstraints_scope : ∀ v ∈ stateConstraints.scope, v < stateIndexer.size

namespace Problem

/-- Scenario S2 of the spec: boolean state variables `p` (0) and `q` (1), the goal `q = 1` and
no state constraints. -/
def singleStep : Problem where
  stateIndexer := StateAtomIndexer.create [true,true]
  tupleIndex := ⟨[⟨0,0⟩,⟨0,1⟩,⟨1,0⟩,⟨1,1⟩],by decide⟩
  goal := ⟨[1],fun σ => σ 1 == 1,fun σ τ h => by dsimp only; rw [h 1 (List.mem_singleton_self 1)]⟩
  stateConstraints := ⟨[],fun _ => true,fun _ _ _ => rfl⟩
  goal_scope := by decide
  stateConstraints_scope := by decide

def singleStepSeed : State singleStep.stateIndexer := (State.zero _).set ⟨0,1⟩

/-- Scenario S3 of the spec: boolean state variables `a` (0), `b` (1) and `c` (2), the goal
`c = 1` and no state constraints; the seed has `a = 1` only. -/
def chain : Problem where
  stateIndexer := StateAtomIndexer.create [true,true,true]
  tupleIndex := ⟨[⟨0,0⟩,⟨0,1⟩,⟨1,0⟩,⟨1,1⟩,⟨2,0⟩,⟨2,1⟩],by decide⟩
  goal := ⟨[2],fun σ => σ 2 == 1,fun σ τ h => by dsimp only; rw [h 2 (List.mem_singleton_self 2)]⟩
  stateConstraints := ⟨[],fun _ => true,fun _ _ _ => rfl⟩
  goal_scope := by decide
  stateConstraints_scope := by decide

def chainSeed : State chain.stateIndexer := (State.zero _).set ⟨0,1⟩

end Problem

end FsPlanner
