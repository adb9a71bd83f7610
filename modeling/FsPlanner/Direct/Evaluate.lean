import FsPlanner.Direct.Bookkeeping

/-!
`DirectCRPG::evaluate` and `DirectCHMax::evaluate` (`direct_crpg.cxx`). The layers of the
relaxed planning graph are built by sweeps over the whitelisted actions, until the goal
holds in the relaxed state or a sweep reaches nothing new. The two heuristics share the loop
and differ in `computeHeuristic` only.
-/

set_option autoImplicit false

namespace FsPlanner

/-- `DirectCRPG`: the problem and one action manager per ground action. The atoms an action
induces are atoms of the problem: a value outside its variable's domain makes the problem
inconsistent, and the loader refuses it. -/
structure DirectCRPG where
  problem : Problem
  managers : List DirectActionManager
  produced_indexed : ∀ m ∈ managers, ∀ R p, p ∈ m.produced R → p.1 ∈ problem.tupleIndex.atoms

structure DirectCHMax extends DirectCRPG

namespace DirectCRPG

variable (H : DirectCRPG)

def allWhitelist : List Nat := List.range H.managers.length

/-- The `for` loop of `evaluate`: `process` for each action of the whitelist, in its order.
An index outside the table of managers is skipped. -/
def sweep (whitelist : List Nat) (R : RelaxedState) (G : RPGData) : RPGData :=
  whitelist.foldl (fun G idx => match H.managers[idx]? with
    | some m => m.process idx R G
    | none => G) G

/-- `DirectCRPG::computeHeuristic`: the cost of the relaxed plan extracted for the causes of
the goal when it holds in `R`, `-1` otherwise. -/
def computeHeuristic (R : RelaxedState) (G : RPGData) : Int :=
  match isGoal R H.problem.goal with
  | some causes => Extractor.computeRelaxedPlanCost G.support G.getCurrentLayerIdx causes
  | none => -1

/-- One iteration of the `while (true)` loop of `evaluate`, for the heuristic's
`computeHeuristic`: `.inl h` returns `h`, `.inr` goes on with the new relaxed state and
bookkeeping. -/
def step (computeHeuristic : RelaxedState → RPGData → Int) (whitelist : List Nat)
    (st : RelaxedState × RPGData) : Int ⊕ (RelaxedState × RPGData) :=
  let G := H.sweep whitelist st.1 st.2
  if G.getNumNovelAtoms = 0 then .inl (-1)
  else
    let R := st.1.accumulate G.getNovelAtoms
    let h := computeHeuristic R G
    if h > -1 then .inl h else .inr (R,G.advanceLayer)

def loop (computeHeuristic : RelaxedState → RPGData → Int) (whitelist : List Nat) :
    Nat → RelaxedState × RPGData → Option Int
  | 0,_ => none
  | fuel+1,st => match H.step computeHeuristic whitelist st with
    | .inl h => some h
    | .inr st => loop computeHeuristic whitelist fuel st

def evaluateWith (computeHeuristic : RelaxedState → RPGData → Int) (fuel : Nat)
    (seed : State H.problem.stateIndexer) (whitelist : List Nat) : Option Int :=
  if H.problem.goal.satisfied seed then some 0
  else H.loop computeHeuristic whitelist fuel (RelaxedState.ofState seed,RPGData.ofState seed)

/-- `DirectCRPG::evaluate(seed, whitelist)`. -/
def evaluate (fuel : Nat) (seed : State H.problem.stateIndexer) (whitelist : List Nat) :
    Option Int :=
  H.evaluateWith H.computeHeuristic fuel seed whitelist

end DirectCRPG

namespace DirectCHMax

/-- `DirectCHMax::computeHeuristic`: the index of the layer just built when the goal holds
in `R`, `-1` otherwise. -/
def computeHeuristic (H : DirectCHMax) (R : RelaxedState) (G : RPGData) : Int :=
  if (isGoal R H.problem.goal).isSome then G.getCurrentLayerIdx else -1

/-- `DirectCHMax::evaluate`, inherited from `DirectCRPG`. -/
def evaluate (H : DirectCHMax) (fuel : Nat) (seed : State H.problem.stateIndexer)
    (whitelist : List Nat) : Option Int :=
  H.toDirectCRPG.evaluateWith H.computeHeuristic fuel seed whitelist

end DirectCHMax

namespace DirectCRPG

variable (H : DirectCRPG)

def triples (whitelist : List Nat) (R : RelaxedState) : List (Atom × Nat × List Atom) :=
  whitelist.flatMap fun idx => match H.managers[idx]? with
    | some m => (m.produced R).map fun p => (p.1,idx,p.2)
    | none => []

def produces (whitelist : List Nat) (R : RelaxedState) : Finset Atom :=
  ((H.triples whitelist R).map Prod.fst).toFinset

/-- The layers of the delete-relaxed graph: `L 0` holds the atoms of the seed, and
`L (k+1)` adds to `L k` every atom that an action of the whitelist induces from `L k`. -/
def relaxedLayer {ix : StateAtomIndexer} (seed : State ix) (whitelist : List Nat) :
    Nat → RelaxedState
  | 0 => RelaxedState.ofState seed
  | k+1 => relaxedLayer seed whitelist k ∪ H.produces whitelist (relaxedLayer seed whitelist k)

def fixpoint {ix : StateAtomIndexer} (seed : State ix) (whitelist : List Nat) : Set Atom :=
  {a | ∃ k, a ∈ H.relaxedLayer seed whitelist k}

def relay (pre eff : Atom) : DirectActionManager := ⟨fun R => if pre ∈ R then [(eff,[pre])] else []⟩

theorem relay_produced {pre eff : Atom} {R : RelaxedState} {p : Atom × List Atom}
    (hp : p ∈ (relay pre eff).produced R) : p.1 = eff := by
  simp only [relay] at hp
  split at hp <;> simp_all

def singleStep : DirectCRPG where
  problem := Problem.singleStep
  managers := [relay ⟨0,1⟩ ⟨1,1⟩]
  produced_indexed := by
    intro m hm R p hp
    rw [List.mem_singleton.mp hm] at hp
    rw [relay_produced hp]
    decide

def singleStepSeed : State singleStep.problem.stateIndexer := Problem.singleStepSeed

def chain : DirectCRPG where
  problem := Problem.chain
  managers := [relay ⟨0,1⟩ ⟨1,1⟩,relay ⟨1,1⟩ ⟨2,1⟩]
  produced_indexed := by
    intro m hm R p hp
    rcases List.mem_pair.mp hm with rfl | rfl <;> rw [relay_produced hp] <;> decide

def chainSeed : State chain.problem.stateIndexer := Problem.chainSeed

theorem sweep_eq (whitelist : List Nat) (R : RelaxedState) (G : RPGData) :
    H.sweep whitelist R G = G.addAll (H.triples whitelist R) := by
  induction whitelist generalizing G with
  | nil => rfl
  | cons idx whitelist ih =>
    simp only [sweep,triples,List.foldl_cons,List.flatMap_cons,RPGData.addAll,List.foldl_append]
    rw [← sweep,ih,RPGData.addAll,triples]
    cases H.managers[idx]? with
    | none => rfl
    | some m => dsimp only; rw [DirectActionManager.process_eq]; rfl

theorem mem_triples {whitelist : List Nat} {R : RelaxedState} {t : Atom × Nat × List Atom}
    (ht : t ∈ H.triples whitelist R) : ∃ m ∈ H.managers, (t.1,t.2.2) ∈ m.produced R := by
  simp only [triples,List.mem_flatMap] at ht
  obtain ⟨idx,-,ht⟩ := ht
  cases hc : H.managers[idx]? with
  | none => simp [hc] at ht
  | some m =>
    simp only [hc,List.mem_map] at ht
    obtain ⟨p,hp,rfl⟩ := ht
    exact ⟨m,List.getElem?_mem hc,hp⟩

theorem produces_indexed {whitelist : List Nat} {R : RelaxedState} {a : Atom}
    (h : a ∈ H.produces whitelist R) : a ∈ H.problem.tupleIndex.atoms := by
  obtain ⟨t,ht,rfl⟩ := List.mem_map.mp (List.mem_toFinset.mp h)
  obtain ⟨m,hm,hp⟩ := H.mem_triples ht
  exact H.produced_indexed m hm R _ hp

@[simp] theorem sweep_currentLayer (whitelist : List Nat) (R : RelaxedState) (G : RPGData) :
    (H.sweep whitelist R G).currentLayer = G.currentLayer := by
  rw [sweep_eq,RPGData.addAll_currentLayer]

theorem relaxedLayer_mono {ix : StateAtomIndexer} (seed : State ix) (whitelist : List Nat)
    {j k : Nat} (h : j ≤ k) : H.relaxedLayer seed whitelist j ⊆ H.relaxedLayer seed whitelist k := by
  induction h with
  | refl => exact Finset.Subset.refl _
  | step _ ih => exact ih.trans Finset.subset_union_left

theorem relaxedLayer_stable {ix : StateAtomIndexer} {seed : State ix} {whitelist : List Nat}
    {k : Nat} (h : H.relaxedLayer seed whitelist (k+1) = H.relaxedLayer seed whitelist k) :
    ∀ j, k ≤ j → H.relaxedLayer seed whitelist j = H.relaxedLayer seed whitelist k := by
  intro j hj
  induction hj with
  | refl => rfl
  | step _ ih => rw [relaxedLayer,ih,← relaxedLayer,h]

section Loop

variable {H} (whitelist : List Nat)

/-- The bookkeeping at the top of an iteration: no novel atom yet, and an atom has a support
exactly when it is in the relaxed state. -/
structure Synced (st : RelaxedState × RPGData) : Prop where
  novel : st.2.novel = []
  reached : ∀ a, (st.2.support a).isSome ↔ a ∈ st.1

theorem Synced.support_eq_none {st : RelaxedState × RPGData} (hs : Synced st) (a : Atom) :
    st.2.support a = none ↔ a ∉ st.1 := by
  rw [← hs.reached a]; cases st.2.support a <;> simp

theorem Synced.sweep_novel {st : RelaxedState × RPGData} (hs : Synced st) (a : Atom) :
    a ∈ (H.sweep whitelist st.1 st.2).novel ↔ a ∈ H.produces whitelist st.1 ∧ a ∉ st.1 := by
  rw [sweep_eq,RPGData.addAll_novel,hs.novel,hs.support_eq_none,produces,List.mem_toFinset]
  simp only [List.not_mem_nil,false_or]
  tauto

theorem Synced.accumulate {st : RelaxedState × RPGData} (hs : Synced st) :
    st.1.accumulate (H.sweep whitelist st.1 st.2).novel = st.1 ∪ H.produces whitelist st.1 := by
  ext a
  simp only [RelaxedState.accumulate,Finset.mem_union,List.mem_toFinset,hs.sweep_novel whitelist]
  tauto

theorem Synced.sweep_reached {st : RelaxedState × RPGData} (hs : Synced st) (a : Atom) :
    ((H.sweep whitelist st.1 st.2).support a).isSome ↔ a ∈ st.1 ∪ H.produces whitelist st.1 := by
  rw [sweep_eq,RPGData.addAll_reached,hs.reached,Finset.mem_union,produces,List.mem_toFinset]

theorem Synced.step_cases {st : RelaxedState × RPGData} (hs : Synced st)
    (hook : RelaxedState → RPGData → Int) :
    (H.step hook whitelist st = .inl (-1) ∧ H.produces whitelist st.1 ⊆ st.1) ∨
    (H.step hook whitelist st = .inl (hook (st.1 ∪ H.produces whitelist st.1) (H.sweep whitelist st.1 st.2)) ∧
      -1 < hook (st.1 ∪ H.produces whitelist st.1) (H.sweep whitelist st.1 st.2)) ∨
    (H.step hook whitelist st =
        .inr (st.1 ∪ H.produces whitelist st.1,(H.sweep whitelist st.1 st.2).advanceLayer) ∧
      hook (st.1 ∪ H.produces whitelist st.1) (H.sweep whitelist st.1 st.2) ≤ -1 ∧
      (H.sweep whitelist st.1 st.2).novel ≠ []) := by
  unfold step
  simp only [RPGData.getNumNovelAtoms,RPGData.getNovelAtoms,List.length_eq_zero,hs.accumulate whitelist]
  by_cases hn : (H.sweep whitelist st.1 st.2).novel = []
  · refine .inl ⟨by simp [hn],fun a ha => ?_⟩
    by_contra hst
    have := (hs.sweep_novel whitelist a).mpr ⟨ha,hst⟩
    simp [hn] at this
  · by_cases hh : hook (st.1 ∪ H.produces whitelist st.1) (H.sweep whitelist st.1 st.2) > -1
    · exact .inr (.inl ⟨by simp [hn,hh],hh⟩)
    · exact .inr (.inr ⟨by simp [hn,hh],by omega,hn⟩)

theorem Synced.next {st : RelaxedState × RPGData} (hs : Synced st) :
    Synced (st.1 ∪ H.produces whitelist st.1,(H.sweep whitelist st.1 st.2).advanceLayer) :=
  ⟨rfl,hs.sweep_reached whitelist⟩

theorem synced_ofState {ix : StateAtomIndexer} (seed : State ix) :
    Synced (RelaxedState.ofState seed,RPGData.ofState seed) :=
  ⟨rfl,fun a => by simp only [RPGData.ofState]; split <;> simp_all⟩

def unreached (H : DirectCRPG) (R : RelaxedState) : Nat :=
  (H.problem.tupleIndex.atoms.toFinset \ R).card

theorem unreached_le_size (H : DirectCRPG) (R : RelaxedState) :
    H.unreached R ≤ H.problem.tupleIndex.size :=
  (Finset.card_le_card Finset.sdiff_subset).trans (List.toFinset_card_le _)

theorem Synced.unreached_lt {st : RelaxedState × RPGData} (hs : Synced st)
    (hn : (H.sweep whitelist st.1 st.2).novel ≠ []) :
    H.unreached (st.1 ∪ H.produces whitelist st.1) < H.unreached st.1 := by
  obtain ⟨a,ha⟩ := List.exists_mem_of_ne_nil _ hn
  obtain ⟨hp,hst⟩ := (hs.sweep_novel whitelist a).mp ha
  refine Finset.card_lt_card ((Finset.ssubset_iff_of_subset
    (Finset.sdiff_subset_sdiff (Finset.Subset.refl _) Finset.subset_union_left)).mpr ⟨a,?_,?_⟩)
  · exact Finset.mem_sdiff.mpr ⟨List.mem_toFinset.mpr (H.produces_indexed hp),hst⟩
  · simp [hp]

theorem Synced.loop_isSome (hook : RelaxedState → RPGData → Int) :
    ∀ (fuel : Nat) {st : RelaxedState × RPGData}, Synced st → H.unreached st.1 < fuel →
      (H.loop hook whitelist fuel st).isSome
  | 0,_,_,hf => by omega
  | fuel+1,st,hs,hf => by
    rcases hs.step_cases (H := H) whitelist hook with ⟨he,-⟩ | ⟨he,-⟩ | ⟨he,-,hn⟩
    · simp [loop,he]
    · simp [loop,he]
    · simp only [loop,he]
      exact Synced.loop_isSome hook fuel (hs.next whitelist)
        (by have := hs.unreached_lt (H := H) whitelist hn; dsimp only; omega)

end Loop

inductive Visits (hook : RelaxedState → RPGData → Int) (seed : State H.problem.stateIndexer)
    (whitelist : List Nat) : RelaxedState × RPGData → Prop
  | init : Visits hook seed whitelist (RelaxedState.ofState seed,RPGData.ofState seed)
  | next {st st' : RelaxedState × RPGData} : Visits hook seed whitelist st →
      H.step hook whitelist st = .inr st' → Visits hook seed whitelist st'

theorem Visits.synced {hook : RelaxedState → RPGData → Int} {seed : State H.problem.stateIndexer}
    {whitelist : List Nat} {st : RelaxedState × RPGData} (h : H.Visits hook seed whitelist st) :
    Synced st := by
  induction h with
  | init => exact synced_ofState seed
  | next _ he ih =>
    rcases ih.step_cases whitelist hook with ⟨he',-⟩ | ⟨he',-⟩ | ⟨he',-⟩ <;>
      rw [he'] at he <;> cases he
    exact ih.next whitelist

/-- The loop of `evaluate`, whatever its `computeHeuristic`, stops within `N + 1`
iterations, where `N` is the size of the atom index: every iteration that goes on adds to
the relaxed state the novel atoms of its layer, none of which it held before. -/
theorem evaluate_terminates (hook : RelaxedState → RPGData → Int)
    (seed : State H.problem.stateIndexer) (whitelist : List Nat) :
    (∀ fuel, H.problem.tupleIndex.size + 1 ≤ fuel → (H.evaluateWith hook fuel seed whitelist).isSome) ∧
    ∀ st st', H.Visits hook seed whitelist st → H.step hook whitelist st = .inr st' →
      st.1 ⊂ st'.1 ∧ ∀ a ∈ (H.sweep whitelist st.1 st.2).novel, a ∉ st.1 := by
  refine ⟨fun fuel hf => ?_,fun st st' hv he => ?_⟩
  · unfold evaluateWith
    split
    · rfl
    · exact (synced_ofState seed).loop_isSome whitelist hook fuel
        (Nat.lt_of_le_of_lt (H.unreached_le_size _) hf)
  · have hs := hv.synced
    refine ⟨?_,fun a ha => ((hs.sweep_novel whitelist a).mp ha).2⟩
    rcases hs.step_cases whitelist hook with ⟨he',-⟩ | ⟨he',-⟩ | ⟨he',-,hn⟩ <;>
      rw [he'] at he <;> cases he
    obtain ⟨a,ha⟩ := List.exists_mem_of_ne_nil _ hn
    obtain ⟨hp,hst⟩ := (hs.sweep_novel whitelist a).mp ha
    exact (Finset.ssubset_iff_of_subset Finset.subset_union_left).mpr ⟨a,by simp [hp],hst⟩

theorem evaluate_terminates_singleStep :
    (singleStep.evaluateWith (fun _ _ => -1) 5 singleStepSeed [0]).isSome ∧
      RelaxedState.ofState singleStepSeed ⊂ RelaxedState.ofState singleStepSeed ∪ {⟨1,1⟩} :=
  have h := evaluate_terminates singleStep (fun _ _ => -1) singleStepSeed [0]
  ⟨h.1 5 (by decide),(h.2 _ (_,(singleStep.sweep [0] (RelaxedState.ofState singleStepSeed)
    (RPGData.ofState singleStepSeed)).advanceLayer) .init rfl).1⟩

theorem relaxedSat_fixpoint_iff {ix : StateAtomIndexer} {seed : State ix} {whitelist : List Nat}
    {f : Formula} : RelaxedSat (H.fixpoint seed whitelist) f ↔
      ∃ k, RelaxedSat ↑(H.relaxedLayer seed whitelist k) f :=
  relaxedSat_iUnion_iff fun _ _ h => Finset.coe_subset.mpr (H.relaxedLayer_mono seed whitelist h)

/-- The reference value of h_max: the least `k` for which the goal holds in layer `L k`, or
`-1` when it holds in none. -/
def IsHMax (seed : State H.problem.stateIndexer) (whitelist : List Nat) (r : Int) : Prop :=
  (∃ k : Nat, r = k ∧ RelaxedSat ↑(H.relaxedLayer seed whitelist k) H.problem.goal ∧
    ∀ j < k, ¬ RelaxedSat ↑(H.relaxedLayer seed whitelist j) H.problem.goal) ∨
  (r = -1 ∧ ∀ k, ¬ RelaxedSat ↑(H.relaxedLayer seed whitelist k) H.problem.goal)

theorem computeHeuristic_gt {R : RelaxedState} (G : RPGData)
    (h : (isGoal R H.problem.goal).isSome) : -1 < H.computeHeuristic R G := by
  obtain ⟨causes,hc⟩ := Option.isSome_iff_exists.mp h
  have := Extractor.computeRelaxedPlanCost_nonneg G.support G.getCurrentLayerIdx causes
  simp only [computeHeuristic,hc]
  omega

/-- What holds at the top of iteration `k` of the loop (iteration 0 is the first) when the
seed is not a goal: the relaxed state is layer `k`, the bookkeeping is building layer
`k + 1`, every atom outside the seed was reached by an action at a layer `1, …, k`, and the
goal holds in none of the layers `0, …, k`. -/
structure LoopInv (seed : State H.problem.stateIndexer) (whitelist : List Nat) (k : Nat)
    (st : RelaxedState × RPGData) : Prop where
  synced : Synced st
  relaxed : st.1 = H.relaxedLayer seed whitelist k
  layer : st.2.currentLayer = k+1
  supported : ∀ a s, st.2.support a = some s → a ∉ RelaxedState.ofState seed →
    1 ≤ s.layer ∧ s.layer ≤ k ∧ s.action.isSome
  notGoal : ∀ j ≤ k, ¬ RelaxedSat ↑(H.relaxedLayer seed whitelist j) H.problem.goal

section Inv

variable {H} {seed : State H.problem.stateIndexer} {whitelist : List Nat} {k : Nat}
  {st : RelaxedState × RPGData}

theorem loopInv_init (hg : H.problem.goal.satisfied seed = false) :
    H.LoopInv seed whitelist 0 (RelaxedState.ofState seed,RPGData.ofState seed) where
  synced := synced_ofState seed
  relaxed := rfl
  layer := rfl
  supported a s h ha := by
    rw [show (RPGData.ofState seed).support a = none from if_neg ha] at h
    cases h
  notGoal j hj := by
    obtain rfl : j = 0 := by omega
    rw [relaxedLayer,relaxedSat_ofState_iff H.problem.goal_scope,hg]
    simp

theorem LoopInv.grown (hinv : H.LoopInv seed whitelist k st) :
    st.1 ∪ H.produces whitelist st.1 = H.relaxedLayer seed whitelist (k+1) := by
  rw [hinv.relaxed]; rfl

theorem LoopInv.sweep_supported (hinv : H.LoopInv seed whitelist k st) {a : Atom}
    {s : AtomSupport} (h : (H.sweep whitelist st.1 st.2).support a = some s)
    (ha : a ∉ RelaxedState.ofState seed) : 1 ≤ s.layer ∧ s.layer ≤ k+1 ∧ s.action.isSome := by
  rw [sweep_eq] at h
  cases hold : st.2.support a with
  | none =>
    obtain ⟨hl,t,-,-,hact,-⟩ := RPGData.addAll_support_new _ h hold
    rw [hl,hinv.layer,hact]
    simp
  | some s₀ =>
    rw [RPGData.addAll_support_old _ hold] at h
    cases h
    obtain ⟨h₁,h₂,h₃⟩ := hinv.supported a _ hold ha
    exact ⟨h₁,by omega,h₃⟩

theorem LoopInv.step_cases (hinv : H.LoopInv seed whitelist k st)
    (hook : RelaxedState → RPGData → Int) :
    (H.step hook whitelist st = .inl (-1) ∧
      H.relaxedLayer seed whitelist (k+1) = H.relaxedLayer seed whitelist k) ∨
    (H.step hook whitelist st =
        .inl (hook (H.relaxedLayer seed whitelist (k+1)) (H.sweep whitelist st.1 st.2)) ∧
      -1 < hook (H.relaxedLayer seed whitelist (k+1)) (H.sweep whitelist st.1 st.2)) ∨
    (H.step hook whitelist st = .inr (H.relaxedLayer seed whitelist (k+1),
        (H.sweep whitelist st.1 st.2).advanceLayer) ∧
      hook (H.relaxedLayer seed whitelist (k+1)) (H.sweep whitelist st.1 st.2) ≤ -1 ∧
      (H.sweep whitelist st.1 st.2).novel ≠ []) := by
  rw [← hinv.grown]
  rcases hinv.synced.step_cases whitelist hook with ⟨he,hp⟩ | h | h
  · refine .inl ⟨he,?_⟩
    rw [Finset.union_eq_left.mpr hp,hinv.relaxed]
  · exact .inr (.inl h)
  · exact .inr (.inr h)

theorem LoopInv.never_goal (hinv : H.LoopInv seed whitelist k st)
    (hst : H.relaxedLayer seed whitelist (k+1) = H.relaxedLayer seed whitelist k) (j : Nat) :
    ¬ RelaxedSat ↑(H.relaxedLayer seed whitelist j) H.problem.goal := by
  rcases Nat.le_total j k with hj | hj
  · exact hinv.notGoal j hj
  · rw [H.relaxedLayer_stable hst j hj]; exact hinv.notGoal k le_rfl

theorem LoopInv.next (hinv : H.LoopInv seed whitelist k st) {hook : RelaxedState → RPGData → Int}
    (hhook : ∀ R G, (isGoal R H.problem.goal).isSome → -1 < hook R G)
    (hle : hook (H.relaxedLayer seed whitelist (k+1)) (H.sweep whitelist st.1 st.2) ≤ -1) :
    H.LoopInv seed whitelist (k+1)
      (H.relaxedLayer seed whitelist (k+1),(H.sweep whitelist st.1 st.2).advanceLayer) where
  synced := hinv.grown ▸ hinv.synced.next whitelist
  relaxed := rfl
  layer := by simp [RPGData.advanceLayer,hinv.layer]
  supported _ _ h ha := hinv.sweep_supported h ha
  notGoal j hj hsat := by
    rcases Nat.lt_or_ge j (k+1) with hj' | hj'
    · exact hinv.notGoal j (by omega) hsat
    · obtain rfl : j = k+1 := by omega
      have := hhook _ (H.sweep whitelist st.1 st.2) (isGoal_isSome_iff.mpr hsat)
      omega

theorem LoopInv.loop_spec {hook : RelaxedState → RPGData → Int}
    (hhook : ∀ R G, (isGoal R H.problem.goal).isSome → -1 < hook R G) {Q : Int → Prop}
    (hret : ∀ k st r, H.LoopInv seed whitelist k st → H.step hook whitelist st = .inl r → Q r) :
    ∀ fuel k st, H.LoopInv seed whitelist k st → H.unreached st.1 < fuel →
      ∃ r, H.loop hook whitelist fuel st = some r ∧ Q r
  | 0,_,_,_,hf => by omega
  | fuel+1,k,st,hinv,hf => by
    rcases hinv.step_cases hook with ⟨he,-⟩ | ⟨he,-⟩ | ⟨he,hle,hn⟩
    · exact ⟨_,by simp [loop,he],hret k st _ hinv he⟩
    · exact ⟨_,by simp [loop,he],hret k st _ hinv he⟩
    · simp only [loop,he]
      refine LoopInv.loop_spec hhook hret fuel (k+1) _ (hinv.next hhook hle) ?_
      have := hinv.synced.unreached_lt whitelist hn
      rw [hinv.grown] at this
      exact Nat.lt_of_lt_of_le this (by omega)

theorem LoopInv.cause_outside_seed (hinv : H.LoopInv seed whitelist k st) {R : RelaxedState}
    {causes : List Atom} (h : isGoal R H.problem.goal = some causes) :
    ∃ c ∈ causes, c ∉ RelaxedState.ofState seed := by
  by_contra hall
  push_neg at hall
  refine hinv.notGoal 0 (Nat.zero_le _) ?_
  rw [relaxedLayer,relaxedSat_ofState_iff H.problem.goal_scope]
  exact (isGoal_causes h).2 seed.getValue fun c hc =>
    ((RelaxedState.mem_ofState.mp (hall c hc)).2).symm

theorem LoopInv.computeHeuristic_pos (hinv : H.LoopInv seed whitelist k st)
    (h : -1 < H.computeHeuristic (H.relaxedLayer seed whitelist (k+1)) (H.sweep whitelist st.1 st.2)) :
    1 ≤ H.computeHeuristic (H.relaxedLayer seed whitelist (k+1)) (H.sweep whitelist st.1 st.2) := by
  cases hc : isGoal (H.relaxedLayer seed whitelist (k+1)) H.problem.goal with
  | none => simp [computeHeuristic,hc] at h
  | some causes =>
    simp only [computeHeuristic,hc]
    obtain ⟨c,hc',hcs⟩ := hinv.cause_outside_seed hc
    have hreach := (hinv.synced.sweep_reached whitelist c).mpr
      (by rw [hinv.grown]; exact (isGoal_causes hc).1 c hc')
    obtain ⟨⟨L,act,ws⟩,hs⟩ := Option.isSome_iff_exists.mp hreach
    obtain ⟨h₁,h₂,h₃⟩ := hinv.sweep_supported hs hcs
    obtain ⟨act,rfl⟩ := Option.isSome_iff_exists.mp h₃
    exact Extractor.computeRelaxedPlanCost_pos _ hc' hs h₁
      (by simpa [RPGData.getCurrentLayerIdx,hinv.layer] using h₂)

/-- For a heuristic that accepts every relaxed state where the goal holds, every iteration of
the loop of `evaluate` from a seed that is not a goal state starts in the layer the delete
relaxation gives: the relaxed state of iteration `k` is `L k`, the bookkeeping builds layer
`k + 1`, every atom outside the seed is supported by an action at a layer `1, …, k`, and the
goal holds in none of `L 0, …, L k`. -/
theorem loopInv_of_iterates {hook : RelaxedState → RPGData → Int}
    (hhook : ∀ R G, (isGoal R H.problem.goal).isSome → -1 < hook R G)
    (hg : H.problem.goal.satisfied seed = false)
    (h : Iterates (H.step hook whitelist) (RelaxedState.ofState seed,RPGData.ofState seed) k st) :
    H.LoopInv seed whitelist k st := by
  induction h with
  | init => exact loopInv_init hg
  | next _ he ih =>
    rcases ih.step_cases hook with ⟨he',-⟩ | ⟨he',-⟩ | ⟨he',hle,-⟩ <;> rw [he'] at he <;> cases he
    exact ih.next hhook hle

end Inv

/-- `DirectCRPG::evaluate` returns `-1` exactly when the goal does not hold in the
delete-relaxed fixpoint, `0` exactly when the seed is a goal state, and otherwise the cost
of a relaxed plan with at least one action. -/
theorem evaluate_dead_end_iff (seed : State H.problem.stateIndexer) (whitelist : List Nat)
    (fuel : Nat) (hfuel : H.problem.tupleIndex.size + 1 ≤ fuel) :
    ∃ r, H.evaluate fuel seed whitelist = some r ∧
      (r = -1 ↔ ¬ RelaxedSat (H.fixpoint seed whitelist) H.problem.goal) ∧
      (r = 0 ↔ H.problem.goal.satisfied seed = true) ∧ (r = -1 ∨ r = 0 ∨ 1 ≤ r) := by
  unfold evaluate evaluateWith
  by_cases hg : H.problem.goal.satisfied seed = true
  · have : RelaxedSat (H.fixpoint seed whitelist) H.problem.goal := H.relaxedSat_fixpoint_iff.mpr
      ⟨0,(relaxedSat_ofState_iff H.problem.goal_scope).mpr hg⟩
    exact ⟨0,by simp [hg],by simpa using this,by simp [hg],by simp⟩
  · have hinv : H.LoopInv seed whitelist 0 _ := loopInv_init (by simpa using hg)
    obtain ⟨r,he,hr⟩ := hinv.loop_spec (fun R G h => H.computeHeuristic_gt G h)
      (Q := fun r => (r = -1 ∧ ¬ RelaxedSat (H.fixpoint seed whitelist) H.problem.goal) ∨
        (1 ≤ r ∧ RelaxedSat (H.fixpoint seed whitelist) H.problem.goal))
      (fun k st r hinv he => by
        rcases hinv.step_cases H.computeHeuristic with ⟨he',hst⟩ | ⟨he',hlt⟩ | ⟨he',-⟩ <;>
          rw [he'] at he <;> cases he
        · exact .inl ⟨rfl,fun hsat => by
            obtain ⟨j,hj⟩ := H.relaxedSat_fixpoint_iff.mp hsat
            exact hinv.never_goal hst j hj⟩
        · refine .inr ⟨hinv.computeHeuristic_pos hlt,H.relaxedSat_fixpoint_iff.mpr ⟨k+1,?_⟩⟩
          refine isGoal_isSome_iff.mp (Option.isSome_iff_ne_none.mpr fun hn => ?_)
          simp [computeHeuristic,hn] at hlt)
      fuel 0 _ (Nat.lt_of_le_of_lt (H.unreached_le_size _) hfuel)
    rw [if_neg hg]
    refine ⟨r,he,?_,by simp [hg]; rintro rfl; omega,by omega⟩
    rcases hr with ⟨rfl,h⟩ | ⟨h₁,h⟩
    · simpa using h
    · exact ⟨fun h' => by omega,fun h' => absurd h h'⟩

theorem singleStep_relaxed_reachable :
    RelaxedSat (singleStep.fixpoint singleStepSeed [0]) singleStep.problem.goal := by
  obtain ⟨r,he,hdead,-,-⟩ := evaluate_dead_end_iff singleStep singleStepSeed [0] 5 (by decide)
  have : singleStep.evaluate 5 singleStepSeed [0] = some 1 := rfl
  rw [this,Option.some.injEq] at he
  subst he
  by_contra h
  exact absurd (hdead.mpr h) (by decide)

theorem chain_loopInv_second :
    ∃ st, chain.step chain.computeHeuristic [0,1]
        (RelaxedState.ofState chainSeed,RPGData.ofState chainSeed) = .inr st ∧
      chain.LoopInv chainSeed [0,1] 1 st :=
  ⟨_,rfl,loopInv_of_iterates (fun _ G h => chain.computeHeuristic_gt G h) rfl (.next .init rfl)⟩

end DirectCRPG

namespace DirectCHMax

theorem computeHeuristic_gt (H : DirectCHMax) {R : RelaxedState} (G : RPGData)
    (h : (isGoal R H.problem.goal).isSome) : -1 < H.computeHeuristic R G := by
  simp only [computeHeuristic,h,if_true,RPGData.getCurrentLayerIdx]
  omega

theorem computeHeuristic_of_gt (H : DirectCHMax) {R : RelaxedState} {G : RPGData}
    (h : -1 < H.computeHeuristic R G) :
    (isGoal R H.problem.goal).isSome ∧ H.computeHeuristic R G = G.currentLayer := by
  unfold computeHeuristic at h ⊢
  split at h
  · simp_all [RPGData.getCurrentLayerIdx]
  · omega

/-- `DirectCHMax::evaluate` computes h_max: the least `k` for which the goal holds in layer
`L k`, or `-1` when it holds in none. It returns `0` exactly on goal states, and a goal
first reached by the first sweep gets `1`, the layer counter read before `advanceLayer`. -/
theorem evaluate_eq_hmax (H : DirectCHMax) (seed : State H.problem.stateIndexer)
    (whitelist : List Nat) (fuel : Nat) (hfuel : H.problem.tupleIndex.size + 1 ≤ fuel) :
    ∃ r, H.evaluate fuel seed whitelist = some r ∧ H.toDirectCRPG.IsHMax seed whitelist r ∧
      (r = 0 ↔ H.problem.goal.satisfied seed = true) := by
  unfold evaluate DirectCRPG.evaluateWith
  by_cases hg : H.problem.goal.satisfied seed = true
  · refine ⟨0,by simp [hg],.inl ⟨0,rfl,?_,fun j hj => absurd hj (Nat.not_lt_zero j)⟩,by simp [hg]⟩
    rw [DirectCRPG.relaxedLayer,relaxedSat_ofState_iff H.problem.goal_scope]
    exact hg
  · have hinv : H.toDirectCRPG.LoopInv seed whitelist 0 _ :=
      DirectCRPG.loopInv_init (by simpa using hg)
    obtain ⟨r,he,hr⟩ := hinv.loop_spec
      (fun R G h => H.computeHeuristic_gt G h)
      (Q := H.toDirectCRPG.IsHMax seed whitelist)
      (fun k st r hinv he => by
        rcases hinv.step_cases H.computeHeuristic with ⟨he',hst⟩ | ⟨he',hlt⟩ | ⟨he',-⟩ <;>
          rw [he'] at he <;> cases he
        · exact .inr ⟨rfl,hinv.never_goal hst⟩
        · obtain ⟨hsome,hval⟩ := H.computeHeuristic_of_gt hlt
          rw [hval,DirectCRPG.sweep_currentLayer,hinv.layer]
          exact .inl ⟨k+1,rfl,isGoal_isSome_iff.mp hsome,fun j hj => hinv.notGoal j (by omega)⟩)
      fuel 0 _ (Nat.lt_of_le_of_lt (H.unreached_le_size _) hfuel)
    rw [if_neg hg]
    refine ⟨r,he,hr,fun hr0 => ?_,fun h => absurd h hg⟩
    subst hr0
    rcases hr with ⟨j,hj,hsat,-⟩ | ⟨h,-⟩
    · obtain rfl : j = 0 := by omega
      exact absurd hsat (hinv.notGoal 0 le_rfl)
    · omega

theorem singleStep_hmax : DirectCRPG.singleStep.IsHMax DirectCRPG.singleStepSeed [0] 1 := by
  obtain ⟨r,he,hr,-⟩ :=
    evaluate_eq_hmax ⟨DirectCRPG.singleStep⟩ DirectCRPG.singleStepSeed [0] 5 (by decide)
  have : (DirectCHMax.mk DirectCRPG.singleStep).evaluate 5 DirectCRPG.singleStepSeed [0] = some 1 :=
    rfl
  rw [this,Option.some.injEq] at he
  exact he ▸ hr

end DirectCHMax

end FsPlanner
