import FsPlanner.Direct.Bookkeeping

/-!
The graph of `UnreachedAtomRPG` (`RPGIndex`) and the effect handlers that it asks for supports.
Neither is in the sources: both follow sections 4.3 and 6.1 of the spec, with the contracts the
heuristic relies on.
-/

set_option autoImplicit false

namespace FsPlanner

/-- Modelled from the spec: `RPGIndex` (`rpg_index.hxx` is not in the sources). The bookkeeping
of the graph, with the tuples made novel in the layer under construction, and the atoms of the
layers integrated so far. -/
structure RPGIndex extends RPGData where
  reached : RelaxedState

namespace RPGIndex

def ofState {ix : StateAtomIndexer} (s : State ix) : RPGIndex :=
  { RPGData.ofState s with reached := RelaxedState.ofState s }

def achievedAtoms (G : RPGIndex) (tupleIndex : AtomIndex) : List Bool :=
  (List.range tupleIndex.size).map fun i => decide (tupleIndex.toAtom i ∈ G.reached)

def hasNovelTuples (G : RPGIndex) : Bool := !G.novel.isEmpty

def advance (G : RPGIndex) : RPGIndex :=
  { G.advanceLayer with reached := G.reached.accumulate G.novel }

def add (G : RPGIndex) (a : Atom) (managerIdx : Nat) (witness : List Atom) : RPGIndex :=
  { G with toRPGData := G.toRPGData.add a managerIdx witness }

def addAll (G : RPGIndex) (l : List (Atom × Nat × List Atom)) : RPGIndex :=
  { G with toRPGData := G.toRPGData.addAll l }

@[simp] theorem add_reached (G : RPGIndex) (a : Atom) (n : Nat) (w : List Atom) :
    (G.add a n w).reached = G.reached := rfl

@[simp] theorem add_currentLayer (G : RPGIndex) (a : Atom) (n : Nat) (w : List Atom) :
    (G.add a n w).currentLayer = G.currentLayer := RPGData.add_currentLayer _ _ _ _

@[simp] theorem add_toRPGData (G : RPGIndex) (a : Atom) (n : Nat) (w : List Atom) :
    (G.add a n w).toRPGData = G.toRPGData.add a n w := rfl

@[simp] theorem addAll_reached (G : RPGIndex) (l : List (Atom × Nat × List Atom)) :
    (G.addAll l).reached = G.reached := rfl

@[simp] theorem addAll_toRPGData (G : RPGIndex) (l : List (Atom × Nat × List Atom)) :
    (G.addAll l).toRPGData = G.toRPGData.addAll l := rfl

@[simp] theorem addAll_nil (G : RPGIndex) : G.addAll [] = G := rfl

theorem addAll_cons (G : RPGIndex) (t : Atom × Nat × List Atom) (l : List (Atom × Nat × List Atom)) :
    G.addAll (t :: l) = (G.add t.1 t.2.1 t.2.2).addAll l := rfl

theorem addAll_append (G : RPGIndex) (l l' : List (Atom × Nat × List Atom)) :
    G.addAll (l ++ l') = (G.addAll l).addAll l' := by
  simp [addAll,RPGData.addAll,List.foldl_append]

theorem addAll_add (G : RPGIndex) (l : List (Atom × Nat × List Atom)) (a : Atom) (n : Nat)
    (w : List Atom) : (G.addAll l).add a n w = G.addAll (l ++ [(a,n,w)]) := by
  simp [addAll,add,RPGData.addAll,List.foldl_append]

@[simp] theorem advance_reached (G : RPGIndex) : G.advance.reached = G.reached ∪ G.novel.toFinset := rfl

@[simp] theorem advance_novel (G : RPGIndex) : G.advance.novel = [] := rfl

@[simp] theorem advance_currentLayer (G : RPGIndex) :
    G.advance.currentLayer = G.currentLayer+1 := rfl

@[simp] theorem advance_support (G : RPGIndex) : G.advance.support = G.support := rfl

theorem length_achievedAtoms (G : RPGIndex) (tupleIndex : AtomIndex) :
    (G.achievedAtoms tupleIndex).length = tupleIndex.size := by
  simp [achievedAtoms]

theorem getD_achievedAtoms {G : RPGIndex} {tupleIndex : AtomIndex} {i : Nat}
    (hi : i < tupleIndex.size) :
    (G.achievedAtoms tupleIndex).getD i false = decide (tupleIndex.toAtom i ∈ G.reached) := by
  simp [achievedAtoms,List.getD_eq_getElem?_getD,hi]

end RPGIndex

/-- Modelled from the spec: an effect handler as the heuristic uses it
(`ground_effect_csp.hxx` and `base_action_csp.hxx` are not in the sources). The atoms its
effect may affect (`compute_affected_atoms` of `get_effect()`); `preinstantiate`, which
instantiates its CSP on the graph or finds it inconsistent; and `find_atom_support`, which
solves the instantiated CSP for one atom and, on success, returns the witness that the graph
records as the atom's support. All handlers share one CSP type, `GecodeCSP`. -/
structure EffectHandler (ix : StateAtomIndexer) (CSP : Type) where
  affectedAtoms : List Atom
  preinstantiate : RPGIndex → Option CSP
  findAtomSupport : Nat → Atom → State ix → CSP → RPGIndex → Option (List Atom)

/-- The `RPGIndex` contract for handlers: both operations read the integrated layers of the
graph, not the tuples made novel earlier in the same layer. -/
def EffectHandler.ReadsIntegrated {ix : StateAtomIndexer} {CSP : Type}
    (m : EffectHandler ix CSP) : Prop :=
  ∀ (G : RPGIndex) (a : Atom) (n : Nat) (w : List Atom),
    m.preinstantiate (G.add a n w) = m.preinstantiate G ∧
      ∀ i b s c, m.findAtomSupport i b s c (G.add a n w) = m.findAtomSupport i b s c G

theorem EffectHandler.ReadsIntegrated.addAll {ix : StateAtomIndexer} {CSP : Type}
    {m : EffectHandler ix CSP} (h : m.ReadsIntegrated) (l : List (Atom × Nat × List Atom)) :
    ∀ G : RPGIndex, m.preinstantiate (G.addAll l) = m.preinstantiate G ∧
      ∀ i b s c, m.findAtomSupport i b s c (G.addAll l) = m.findAtomSupport i b s c G := by
  induction l with
  | nil => simp
  | cons t l ih =>
    intro G
    rw [RPGIndex.addAll_cons,(ih _).1,(h G t.1 t.2.1 t.2.2).1]
    exact ⟨rfl,fun i b s c => by rw [(ih _).2,(h G t.1 t.2.1 t.2.2).2]⟩

end FsPlanner
