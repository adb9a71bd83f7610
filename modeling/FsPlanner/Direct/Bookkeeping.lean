import FsPlanner.Extractor

/-!
The bookkeeping of the direct relaxed planning graph (`RPGData`), and the ground actions as
`DirectActionManager::process` sees them. Neither class is in the sources; both follow
sections 3 and 4.1 of the spec.
-/

set_option autoImplicit false

namespace FsPlanner

/-- The iterations of a loop `while (true)` whose body either returns or goes on in a new
state: `Iterates step s₀ k s` says that iteration `k` starts in state `s`. -/
inductive Iterates {σ α : Type} (step : σ → α ⊕ σ) (s₀ : σ) : Nat → σ → Prop
  | init : Iterates step s₀ 0 s₀
  | next {k : Nat} {s s' : σ} : Iterates step s₀ k s → step s = .inr s' → Iterates step s₀ (k+1) s'

/-- Modelled from the spec: `RPGData`. The index of the layer under construction, the atoms
first reached in it, in the order they were reached, and the support of every atom reached. -/
structure RPGData where
  currentLayer : Nat
  novel : List Atom
  support : Atom → Option AtomSupport

namespace RPGData

def ofState {ix : StateAtomIndexer} (s : State ix) : RPGData where
  currentLayer := 1
  novel := []
  support a := if a ∈ RelaxedState.ofState s then some ⟨0,none,[]⟩ else none

def add (G : RPGData) (a : Atom) (action : Nat) (witness : List Atom) : RPGData :=
  if (G.support a).isSome then G
  else { G with novel := G.novel ++ [a],
                support := fun b => if b = a then some ⟨G.currentLayer,some action,witness⟩
                  else G.support b }

def getNumNovelAtoms (G : RPGData) : Nat := G.novel.length

def getNovelAtoms (G : RPGData) : List Atom := G.novel

def getCurrentLayerIdx (G : RPGData) : Nat := G.currentLayer

def advanceLayer (G : RPGData) : RPGData := { G with currentLayer := G.currentLayer+1,novel := [] }

@[simp] theorem add_currentLayer (G : RPGData) (a : Atom) (n : Nat) (w : List Atom) :
    (G.add a n w).currentLayer = G.currentLayer := by
  unfold add; split <;> rfl

theorem add_support (G : RPGData) (a : Atom) (n : Nat) (w : List Atom) (b : Atom) :
    (G.add a n w).support b =
      if b = a ∧ G.support a = none then some ⟨G.currentLayer,some n,w⟩ else G.support b := by
  unfold add
  by_cases ha : (G.support a).isSome
  · have : G.support a ≠ none := by simpa [Option.isSome_iff_ne_none] using ha
    simp [ha,this]
  · have : G.support a = none := by simpa using ha
    by_cases hb : b = a <;> simp [ha,this,hb]

theorem add_reached (G : RPGData) (a : Atom) (n : Nat) (w : List Atom) (b : Atom) :
    ((G.add a n w).support b).isSome ↔ (G.support b).isSome ∨ b = a := by
  rw [add_support]
  by_cases hb : b = a
  · subst hb; cases G.support b <;> simp
  · simp [hb]

theorem add_novel (G : RPGData) (a : Atom) (n : Nat) (w : List Atom) :
    (G.add a n w).novel = if G.support a = none then G.novel ++ [a] else G.novel := by
  unfold add
  by_cases ha : G.support a = none <;> simp [ha,Option.isSome_iff_ne_none]

def addAll (G : RPGData) (l : List (Atom × Nat × List Atom)) : RPGData :=
  l.foldl (fun G t => G.add t.1 t.2.1 t.2.2) G

@[simp] theorem addAll_currentLayer (l : List (Atom × Nat × List Atom)) (G : RPGData) :
    (G.addAll l).currentLayer = G.currentLayer := by
  induction l generalizing G with
  | nil => rfl
  | cons t l ih => rw [addAll,List.foldl_cons,← addAll,ih,add_currentLayer]

theorem addAll_support_old (l : List (Atom × Nat × List Atom)) {G : RPGData} {a : Atom}
    {s : AtomSupport} (h : G.support a = some s) : (G.addAll l).support a = some s := by
  induction l generalizing G with
  | nil => exact h
  | cons t l ih =>
    refine ih ?_
    rw [add_support,if_neg fun ⟨hat,hn⟩ => by subst hat; simp [h] at hn,h]

theorem addAll_reached (l : List (Atom × Nat × List Atom)) (G : RPGData) (a : Atom) :
    ((G.addAll l).support a).isSome ↔ (G.support a).isSome ∨ a ∈ l.map Prod.fst := by
  induction l generalizing G with
  | nil => simp [addAll]
  | cons t l ih =>
    rw [addAll,List.foldl_cons,← addAll,ih,add_reached,List.map_cons,List.mem_cons]
    tauto

theorem addAll_support_new (l : List (Atom × Nat × List Atom)) {G : RPGData} {a : Atom}
    {s : AtomSupport} (h : (G.addAll l).support a = some s) (hn : G.support a = none) :
    s.layer = G.currentLayer ∧ ∃ t ∈ l, t.1 = a ∧ s.action = some t.2.1 ∧ s.witness = t.2.2 := by
  induction l generalizing G with
  | nil => simp_all [addAll]
  | cons t l ih =>
    rw [addAll,List.foldl_cons,← addAll] at h
    by_cases hm : (G.add t.1 t.2.1 t.2.2).support a = none
    · obtain ⟨hl,u,hu,hr⟩ := ih h hm
      exact ⟨by simpa using hl,u,List.mem_cons_of_mem _ hu,hr⟩
    · rw [add_support] at hm
      by_cases hb : a = t.1 ∧ G.support t.1 = none
      · rw [addAll_support_old l (by rw [add_support,if_pos hb])] at h
        cases h
        exact ⟨rfl,t,List.mem_cons_self _ _,hb.1.symm,rfl,rfl⟩
      · simp [hb,hn] at hm

theorem addAll_novel (l : List (Atom × Nat × List Atom)) (G : RPGData) (a : Atom) :
    a ∈ (G.addAll l).novel ↔ a ∈ G.novel ∨ (G.support a = none ∧ a ∈ l.map Prod.fst) := by
  induction l generalizing G with
  | nil => simp [addAll]
  | cons t l ih =>
    rw [addAll,List.foldl_cons,← addAll,ih,add_novel,add_support]
    by_cases hb : a = t.1 <;> by_cases hn : G.support t.1 = none <;> simp [hb,hn]

end RPGData

/-- Modelled from the spec: a ground action as `DirectActionManager::process` sees it
(`action_manager.hxx` is not in the sources). `produced R` lists the atoms that the action
induces under delete relaxation from the relaxed state `R` (the atoms of the effects whose
condition holds in `R`, when the precondition does), each with the atoms of `R` that
witness the precondition and the effect condition. -/
structure DirectActionManager where
  produced : RelaxedState → List (Atom × List Atom)

def DirectActionManager.process (m : DirectActionManager) (idx : Nat) (R : RelaxedState)
    (G : RPGData) : RPGData :=
  (m.produced R).foldl (fun G p => G.add p.1 idx p.2) G

theorem DirectActionManager.process_eq (m : DirectActionManager) (idx : Nat) (R : RelaxedState)
    (G : RPGData) : m.process idx R G = G.addAll ((m.produced R).map fun p => (p.1,idx,p.2)) := by
  simp [process,RPGData.addAll,List.foldl_map]

end FsPlanner
