import FsPlanner.Unreached.Sweep

/-!
`UnreachedAtomRPG::evaluate` (`unreached_atom_rpg.cxx`, lines 32 to 112): layers are built by
atom sweeps until the graph gets no novel tuple, or the goal handler's formula holds in it.
-/

set_option autoImplicit false

namespace FsPlanner

namespace UnreachedAtomRPG

variable {CSP : Type} (H : UnreachedAtomRPG CSP)

/-- `computeHeuristic(graph)`, that is `compute_rpg_cost(tuple_index, graph, *_goal_handler)`.
Modelled from the spec (`rpg_index.hxx` and the extractor are not in the sources): the cost of
the relaxed plan extracted for the causes of the goal handler's formula when it holds in the
graph, `-1` when it does not. -/
def computeHeuristic (graph : RPGIndex) : Int :=
  match isGoal graph.reached H.goalFormula with
  | some causes => Extractor.computeRelaxedPlanCost graph.support graph.getCurrentLayerIdx causes
  | none => -1

/-- One iteration of the `while (true)` loop: the atom sweep, then `-1` when the graph has no
novel tuple, the heuristic value of the advanced graph when it is above `-1`, or the next
layer. -/
def step (seed : State H.problem.stateIndexer) (st : RPGIndex × List Bool) :
    Int ⊕ (RPGIndex × List Bool) :=
  let sw := H.sweep seed st.1 st.2
  if !sw.graph.hasNovelTuples then .inl (-1)
  else
    let graph := sw.graph.advance
    let h := H.computeHeuristic graph
    if h > -1 then .inl h else .inr (graph,sw.achieved)

def loop (seed : State H.problem.stateIndexer) : Nat → RPGIndex × List Bool → Option Int
  | 0,_ => none
  | fuel+1,st => match H.step seed st with
    | .inl h => some h
    | .inr st => loop seed fuel st

/-- `UnreachedAtomRPG::evaluate(seed, relevant)`, run for at most `fuel` layers. The seed is
checked against the goal (`getGoalSatManager().satisfied(seed)`), the graph is built from the
seed, and `achieved` from the graph. -/
def evaluate (fuel : Nat) (seed : State H.problem.stateIndexer) : Option Int :=
  if H.problem.goal.satisfied seed then some 0
  else
    let graph := RPGIndex.ofState seed
    H.loop seed fuel (graph,graph.achievedAtoms H.problem.tupleIndex)

def unachieved (achieved : List Bool) : Nat :=
  ((Finset.range achieved.length).filter fun i => achieved.getD i false = false).card

theorem unachieved_le (achieved : List Bool) : unachieved achieved ≤ achieved.length :=
  (Finset.card_filter_le _ _).trans (Finset.card_range _).le

theorem unachieved_lt_of_set {l l' : List Bool} (hlen : l'.length = l.length)
    (hmono : ∀ j, l.getD j false = true → l'.getD j false = true) {j : Nat}
    (hj : l.getD j false = false) (hj' : l'.getD j false = true) :
    unachieved l' < unachieved l := by
  have hjl : j < l.length := by
    by_contra h
    rw [List.getD_eq_getElem?_getD,List.getElem?_eq_none (by omega)] at hj'
    cases hj'
  refine Finset.card_lt_card ((Finset.ssubset_iff_of_subset fun i hi => ?_).mpr ⟨j,?_,?_⟩)
  · simp only [Finset.mem_filter,Finset.mem_range] at hi ⊢
    refine ⟨hlen ▸ hi.1,?_⟩
    cases h : l.getD i false
    · rfl
    · rw [hmono i h] at hi; cases hi.2
  · simpa [hjl] using hj
  · simp only [Finset.mem_filter,hj',Bool.true_eq_false,and_false,not_false_eq_true]

@[simp] theorem hasNovelTuples_eq_true {G : RPGIndex} : G.hasNovelTuples = true ↔ G.novel ≠ [] := by
  simp [RPGIndex.hasNovelTuples,List.isEmpty_iff]

/-- The state at the top of every layer: no novel tuple; an atom has a support exactly when
it is reached; and `achieved` has one flag per atom of the index, set exactly for the atoms
reached in the graph. -/
structure LayerInv (st : RPGIndex × List Bool) : Prop where
  novel : st.1.novel = []
  support : ∀ a, (st.1.support a).isSome ↔ a ∈ st.1.reached
  length : st.2.length = H.problem.tupleIndex.size
  achieved : ∀ i < H.problem.tupleIndex.size,
    st.2.getD i false = true ↔ H.problem.tupleIndex.toAtom i ∈ st.1.reached

/-- What the atom sweep of a layer does, from the state `st` at its top to the sweep state
`sw`: the novel tuples are the atoms of the index it newly achieved, each by a successful
support search; it achieves atoms and unachieves none; the novel atoms get supports at the
current layer; and the advanced graph is the top of the next layer. -/
structure LayerSweep (seed : State H.problem.stateIndexer) (st : RPGIndex × List Bool)
    (sw : SweepState CSP) : Prop where
  novel : ∀ a, a ∈ sw.graph.novel ↔ ∃ i < H.problem.tupleIndex.size,
    a = H.problem.tupleIndex.toAtom i ∧ st.2.getD i false = false ∧ sw.achieved.getD i false = true
  found : ∀ i, st.2.getD i false = false → sw.achieved.getD i false = true →
    ∃ m csp G, .findAtomSupport m i (H.problem.tupleIndex.toAtom i) csp G true ∈ sw.calls
  mono : ∀ j, st.2.getD j false = true → sw.achieved.getD j false = true
  length : sw.achieved.length = st.2.length
  reached : sw.graph.reached = st.1.reached
  layer : sw.graph.currentLayer = st.1.currentLayer
  support : ∀ a s, sw.graph.support a = some s → st.1.support a = some s ∨
    (st.1.support a = none ∧ s.layer = st.1.currentLayer ∧ s.action.isSome)
  next : H.LayerInv (sw.graph.advance,sw.achieved)

variable {H}

theorem LayerInv.support_eq_none {st : RPGIndex × List Bool} (hinv : H.LayerInv st) (a : Atom) :
    st.1.support a = none ↔ a ∉ st.1.reached := by
  rw [← hinv.support a]; cases st.1.support a <;> simp

theorem LayerInv.sweep {st : RPGIndex × List Bool} (hinv : H.LayerInv st)
    (seed : State H.problem.stateIndexer) : H.LayerSweep seed st (H.sweep seed st.1 st.2) := by
  obtain ⟨-,hlen,⟨newly,hg,hnew,hach⟩,-⟩ := H.sweep_progress seed st.1 st.2
  have hnewly : ∀ t ∈ newly, t.1 < H.problem.tupleIndex.size ∧ st.2.getD t.1 false = false ∧
      H.problem.tupleIndex.toAtom t.1 ∉ st.1.reached := fun t ht => by
    obtain ⟨hr,hf,-⟩ := hnew t ht
    have hlt : t.1 < H.problem.tupleIndex.size := hinv.length ▸ List.mem_range.mp hr
    exact ⟨hlt,hf,fun h => by rw [(hinv.achieved _ hlt).mpr h] at hf; cases hf⟩
  have hL : ∀ a, a ∈ (newly.map fun t => (H.problem.tupleIndex.toAtom t.1,t.2)).map Prod.fst ↔
      ∃ t ∈ newly, a = H.problem.tupleIndex.toAtom t.1 := fun a => by
    simp only [List.map_map,List.mem_map,Function.comp_def]
    exact exists_congr fun t => and_congr_right fun _ => eq_comm
  have hnovel : ∀ a, a ∈ (H.sweep seed st.1 st.2).graph.novel ↔
      ∃ t ∈ newly, a = H.problem.tupleIndex.toAtom t.1 := fun a => by
    rw [hg]
    show a ∈ (st.1.toRPGData.addAll _).novel ↔ _
    rw [RPGData.addAll_novel,hinv.novel,hL,hinv.support_eq_none]
    simp only [List.not_mem_nil,false_or,and_iff_right_iff_imp]
    rintro ⟨t,ht,rfl⟩
    exact (hnewly t ht).2.2
  have hidx : ∀ i < H.problem.tupleIndex.size, i ∈ newly.map Prod.fst ↔
      H.problem.tupleIndex.toAtom i ∈ (H.sweep seed st.1 st.2).graph.novel := fun i hi => by
    rw [hnovel,List.mem_map]
    constructor
    · rintro ⟨t,ht,rfl⟩; exact ⟨t,ht,rfl⟩
    · rintro ⟨t,ht,he⟩
      refine ⟨t,ht,?_⟩
      rw [← AtomIndex.toIndex_toAtom hi,he,AtomIndex.toIndex_toAtom (hnewly t ht).1]
  have hreached : ∀ a, a ∈ (H.sweep seed st.1 st.2).graph.novel → a ∉ st.1.reached := by
    intro a ha
    obtain ⟨t,ht,rfl⟩ := (hnovel a).mp ha
    exact (hnewly t ht).2.2
  have hachieved : ∀ i < H.problem.tupleIndex.size,
      (H.sweep seed st.1 st.2).achieved.getD i false = true ↔
        H.problem.tupleIndex.toAtom i ∈ st.1.reached ∨
          H.problem.tupleIndex.toAtom i ∈ (H.sweep seed st.1 st.2).graph.novel := fun i hi => by
    rw [hach,hinv.achieved i hi,hidx i hi]
  have hsupport : ∀ a, ((H.sweep seed st.1 st.2).graph.support a).isSome ↔
      a ∈ st.1.reached ∨ a ∈ (H.sweep seed st.1 st.2).graph.novel := fun a => by
    rw [hg]
    show ((st.1.toRPGData.addAll _).support a).isSome ↔ _
    rw [RPGData.addAll_reached,hinv.support,hL,← hg,hnovel]
  have hgr : (H.sweep seed st.1 st.2).graph.reached = st.1.reached := by rw [hg]; rfl
  refine ⟨fun a => ?_,fun i hf ht => ?_,fun j h => (hach j).mpr (.inl h),hlen,hgr,
    by rw [hg]; exact RPGData.addAll_currentLayer _ _,fun a s h => ?_,⟨rfl,fun a => ?_,
    hlen.trans hinv.length,fun i hi => ?_⟩⟩
  · rw [hnovel]
    constructor
    · rintro ⟨t,ht,rfl⟩
      obtain ⟨hlt,hf,-⟩ := hnewly t ht
      exact ⟨t.1,hlt,rfl,hf,(hach t.1).mpr (.inr (List.mem_map_of_mem _ ht))⟩
    · rintro ⟨i,hi,rfl,hf,ht⟩
      rcases (hach i).mp ht with h | h
      · rw [h] at hf; cases hf
      · obtain ⟨t,ht',rfl⟩ := List.mem_map.mp h
        exact ⟨t,ht',rfl⟩
  · rcases (hach i).mp ht with h | h
    · rw [h] at hf; cases hf
    · obtain ⟨t,ht',rfl⟩ := List.mem_map.mp h
      obtain ⟨-,-,csp,G,hc⟩ := hnew t ht'
      exact ⟨t.2.1,csp,G,hc⟩
  · rw [hg] at h
    cases hold : st.1.support a with
    | some s₀ =>
      exact .inl ((RPGData.addAll_support_old _ hold).symm.trans h)
    | none =>
      obtain ⟨hl,t,-,-,hact,-⟩ := RPGData.addAll_support_new _ h hold
      exact .inr ⟨rfl,hl,by rw [hact]; rfl⟩
  · simp only [RPGIndex.advance_support,RPGIndex.advance_reached,Finset.mem_union,
      List.mem_toFinset,hsupport,hgr]
  · simp only [RPGIndex.advance_reached,Finset.mem_union,List.mem_toFinset]
    rw [hachieved i hi,hgr]

variable (H) in
theorem step_cases (seed : State H.problem.stateIndexer) (st : RPGIndex × List Bool) :
    (H.step seed st = .inl (-1) ∧ (H.sweep seed st.1 st.2).graph.novel = []) ∨
    (H.step seed st = .inl (H.computeHeuristic (H.sweep seed st.1 st.2).graph.advance) ∧
      -1 < H.computeHeuristic (H.sweep seed st.1 st.2).graph.advance) ∨
    (H.step seed st = .inr ((H.sweep seed st.1 st.2).graph.advance,(H.sweep seed st.1 st.2).achieved) ∧
      H.computeHeuristic (H.sweep seed st.1 st.2).graph.advance ≤ -1 ∧
      (H.sweep seed st.1 st.2).graph.novel ≠ []) := by
  unfold step
  by_cases hn : (H.sweep seed st.1 st.2).graph.novel = []
  · exact .inl ⟨by simp [RPGIndex.hasNovelTuples,hn],hn⟩
  · by_cases hh : H.computeHeuristic (H.sweep seed st.1 st.2).graph.advance > -1
    · exact .inr (.inl ⟨by simp [hn,hh],hh⟩)
    · exact .inr (.inr ⟨by simp [hn,hh],by omega,hn⟩)

theorem LayerSweep.unachieved_lt {seed : State H.problem.stateIndexer} {st : RPGIndex × List Bool}
    {sw : SweepState CSP} (hs : H.LayerSweep seed st sw) (hn : sw.graph.novel ≠ []) :
    unachieved sw.achieved < unachieved st.2 := by
  obtain ⟨a,ha⟩ := List.exists_mem_of_ne_nil _ hn
  obtain ⟨i,-,-,hf,ht⟩ := (hs.novel a).mp ha
  exact unachieved_lt_of_set hs.length hs.mono hf ht

theorem LayerInv.loop_isSome {seed : State H.problem.stateIndexer} : ∀ (fuel : Nat)
    {st : RPGIndex × List Bool}, H.LayerInv st → unachieved st.2 < fuel → (H.loop seed fuel st).isSome
  | 0,_,_,hf => by omega
  | fuel+1,st,hinv,hf => by
    rcases H.step_cases seed st with ⟨he,-⟩ | ⟨he,-⟩ | ⟨he,-,hn⟩
    · simp [loop,he]
    · simp [loop,he]
    · simp only [loop,he]
      have hs : H.LayerSweep seed st _ := hinv.sweep seed
      exact LayerInv.loop_isSome fuel hs.next (by have := hs.unachieved_lt hn; dsimp only; omega)

variable (H) in
theorem layerInv_init (seed : State H.problem.stateIndexer) :
    H.LayerInv (RPGIndex.ofState seed,(RPGIndex.ofState seed).achievedAtoms H.problem.tupleIndex) where
  novel := rfl
  support a := by
    show (if a ∈ RelaxedState.ofState seed then _ else none).isSome ↔ _
    split <;> simp_all [RPGIndex.ofState]
  length := RPGIndex.length_achievedAtoms _ _
  achieved i hi := by rw [RPGIndex.getD_achievedAtoms hi]; simp

variable (H) in
inductive Visits (seed : State H.problem.stateIndexer) : RPGIndex × List Bool → Prop
  | init : Visits seed (RPGIndex.ofState seed,(RPGIndex.ofState seed).achievedAtoms H.problem.tupleIndex)
  | next {st st' : RPGIndex × List Bool} : Visits seed st → H.step seed st = .inr st' → Visits seed st'

theorem Visits.layerInv {seed : State H.problem.stateIndexer} {st : RPGIndex × List Bool}
    (h : H.Visits seed st) : H.LayerInv st := by
  induction h with
  | init => exact H.layerInv_init seed
  | next _ he ih =>
    rcases H.step_cases seed _ with ⟨he',-⟩ | ⟨he',-⟩ | ⟨he',-⟩ <;> rw [he'] at he <;> cases he
    exact (ih.sweep seed).next

variable (H)

/-- The loop of `UnreachedAtomRPG::evaluate` stops within `N + 1` layers, where `N` is the size
of the atom index. At the top of every layer, `achieved[i]` is set exactly when atom `i` is
reached in the graph; a novel tuple comes only from a successful `find_atom_support` on an
atom not achieved at the top of the layer; so every layer that goes on lowers the number of
false entries of `achieved`. -/
theorem evaluate_layers_bounded (seed : State H.problem.stateIndexer) :
    (∀ fuel, H.problem.tupleIndex.size + 1 ≤ fuel → (H.evaluate fuel seed).isSome) ∧
    (∀ st, H.Visits seed st → ∀ i < H.problem.tupleIndex.size,
      st.2.getD i false = true ↔ H.problem.tupleIndex.toAtom i ∈ st.1.reached) ∧
    (∀ st, H.Visits seed st → ∀ a ∈ (H.sweep seed st.1 st.2).graph.novel,
      ∃ i < H.problem.tupleIndex.size, a = H.problem.tupleIndex.toAtom i ∧ st.2.getD i false = false ∧
        ∃ m csp G, .findAtomSupport m i (H.problem.tupleIndex.toAtom i) csp G true ∈
          (H.sweep seed st.1 st.2).calls) ∧
    ∀ st st', H.Visits seed st → H.step seed st = .inr st' → unachieved st'.2 < unachieved st.2 := by
  refine ⟨fun fuel hf => ?_,fun st hv => hv.layerInv.achieved,fun st hv a ha => ?_,
    fun st st' hv he => ?_⟩
  · unfold evaluate
    split
    · rfl
    · have hinv := H.layerInv_init seed
      exact hinv.loop_isSome fuel
        (Nat.lt_of_le_of_lt ((unachieved_le _).trans hinv.length.le) (by omega))
  · have hs : H.LayerSweep seed st _ := hv.layerInv.sweep seed
    obtain ⟨i,hi,rfl,hf,ht⟩ := (hs.novel a).mp ha
    exact ⟨i,hi,rfl,hf,hs.found i hf ht⟩
  · have hs : H.LayerSweep seed st _ := hv.layerInv.sweep seed
    rcases H.step_cases seed st with ⟨he',-⟩ | ⟨he',-⟩ | ⟨he',-,hn⟩ <;> rw [he'] at he <;> cases he
    exact hs.unachieved_lt hn

section Exact

variable (Produces : Nat → Atom → List Atom → Prop)

/-- The delete-relaxed layers under a semantics `Produces` of the handlers, where
`Produces m a pre` says that an instantiation of handler `m` produces atom `a` with the atoms
`pre` as its precondition: `L 0` holds the seed's atoms, and `L (k+1)` adds every atom that a
handler produces from atoms of `L k`. -/
def relaxedLayer (seed : State H.problem.stateIndexer) : Nat → Set Atom
  | 0 => ↑(RelaxedState.ofState seed)
  | k+1 => relaxedLayer seed k ∪
      {a | ∃ m < H.managers.length, ∃ pre, Produces m a pre ∧ ∀ p ∈ pre, p ∈ relaxedLayer seed k}

def fixpoint (seed : State H.problem.stateIndexer) : Set Atom :=
  {a | ∃ k, a ∈ H.relaxedLayer Produces seed k}

/-- The handlers are exact for the semantics `Produces`: the affected atoms of a handler
include all it produces; `preinstantiate` is inconsistent only when no instantiation has its
precondition among the reached atoms; and `find_atom_support`, on a CSP that `preinstantiate`
returned for a graph with the same reached atoms, finds a support for an atom exactly when an
instantiation produces it from reached atoms. -/
structure Exact : Prop where
  affected : ∀ m manager a pre, H.managers[m]? = some manager → Produces m a pre →
    a ∈ manager.affectedAtoms
  preinstantiate_none : ∀ m manager G, H.managers[m]? = some manager →
    manager.preinstantiate G = none → ∀ a pre, Produces m a pre → ¬ ∀ p ∈ pre, p ∈ G.reached
  findAtomSupport_iff : ∀ m manager G G' csp i a seed, H.managers[m]? = some manager →
    manager.preinstantiate G = some csp → G'.reached = G.reached →
    ((manager.findAtomSupport i a seed csp G').isSome ↔
      ∃ pre, Produces m a pre ∧ ∀ p ∈ pre, p ∈ G.reached)

variable {H} {Produces}

theorem relaxedLayer_mono (seed : State H.problem.stateIndexer) :
    Monotone (H.relaxedLayer Produces seed) :=
  monotone_nat_of_le_succ fun _ => Set.subset_union_left

theorem relaxedLayer_stable {seed : State H.problem.stateIndexer} {k : Nat}
    (h : H.relaxedLayer Produces seed (k+1) = H.relaxedLayer Produces seed k) :
    ∀ j, k ≤ j → H.relaxedLayer Produces seed j = H.relaxedLayer Produces seed k := by
  intro j hj
  induction hj with
  | refl => rfl
  | step _ ih => rw [relaxedLayer,ih,← relaxedLayer,h]

theorem SweepInv.callsReached {seed : State H.problem.stateIndexer} {G₀ : RPGIndex}
    {st : SweepState CSP} (hinv : H.SweepInv seed G₀ st) {c : Call CSP} (hc : c ∈ st.calls) :
    c.graph.reached = G₀.reached := by
  obtain ⟨l,hl⟩ := hinv.callsGraph c hc; rw [hl]; rfl

theorem SweepInv.find_exact {seed : State H.problem.stateIndexer} {G₀ : RPGIndex}
    {st : SweepState CSP} (hinv : H.SweepInv seed G₀ st) (hex : H.Exact Produces) {m i : Nat}
    {a : Atom} {csp : CSP} {G : RPGIndex} {b : Bool}
    (hc : .findAtomSupport m i a csp G b ∈ st.calls) :
    m < H.managers.length ∧ (b = true ↔ ∃ pre, Produces m a pre ∧ ∀ p ∈ pre, p ∈ G₀.reached) := by
  obtain ⟨pre,post,hsplit⟩ := List.append_of_mem hc
  obtain ⟨G',hG'⟩ := hinv.valid.find_cached hsplit
  have hG'mem : .preinstantiate m G' (some csp) ∈ st.calls := hsplit ▸ List.mem_append_left _ hG'
  obtain ⟨manager,hman,hfind⟩ := hinv.faithful _ hc
  obtain ⟨manager',hman',hpre⟩ := hinv.faithful _ hG'mem
  cases hman.symm.trans hman'
  have hG : G.reached = G₀.reached := hinv.callsReached hc
  have hG' : G'.reached = G₀.reached := hinv.callsReached hG'mem
  refine ⟨(List.getElem?_eq_some_iff.mp hman).1,?_⟩
  rw [← hfind,hex.findAtomSupport_iff m manager G' G csp i a seed hman hpre (hG.trans hG'.symm),hG']

theorem SweepInv.preinstantiate_exact {seed : State H.problem.stateIndexer} {G₀ : RPGIndex}
    {st : SweepState CSP} (hinv : H.SweepInv seed G₀ st) (hex : H.Exact Produces) {m : Nat}
    {G : RPGIndex} (hc : .preinstantiate m G none ∈ st.calls) :
    ∀ a pre, Produces m a pre → ¬ ∀ p ∈ pre, p ∈ G₀.reached := by
  obtain ⟨manager,hman,hpre⟩ := hinv.faithful _ hc
  have hG : G.reached = G₀.reached := hinv.callsReached hc
  rw [← hG]
  exact hex.preinstantiate_none m manager G hman hpre

theorem LayerInv.sweep_novel_iff {seed : State H.problem.stateIndexer} {st : RPGIndex × List Bool}
    (hinv : H.LayerInv st) (hex : H.Exact Produces) (a : Atom) :
    a ∈ (H.sweep seed st.1 st.2).graph.novel ↔ a ∉ st.1.reached ∧
      ∃ m < H.managers.length, ∃ pre, Produces m a pre ∧ ∀ p ∈ pre, p ∈ st.1.reached := by
  have hs : H.LayerSweep seed st _ := hinv.sweep seed
  have hp := H.sweep_progress seed st.1 st.2
  constructor
  · intro ha
    obtain ⟨i,hi,rfl,hf,ht⟩ := (hs.novel a).mp ha
    obtain ⟨m,csp,G,hc⟩ := hs.found i hf ht
    obtain ⟨hm,hiff⟩ := hp.inv.find_exact hex hc
    refine ⟨fun h => ?_,m,hm,hiff.mp rfl⟩
    rw [(hinv.achieved i hi).mpr h] at hf; cases hf
  · rintro ⟨hna,m,hm,pre,hprod,hpre⟩
    have hman : H.managers[m]? = some H.managers[m] := List.getElem?_eq_getElem hm
    have haff := hex.affected m _ a pre hman hprod
    have hidx := H.affected_indexed _ (List.getElem?_mem hman) a haff
    have hi : H.problem.tupleIndex.toIndex a < H.problem.tupleIndex.size :=
      AtomIndex.toIndex_lt_size.mpr hidx
    have hai := AtomIndex.toAtom_toIndex hidx
    have hf : st.2.getD (H.problem.tupleIndex.toIndex a) false = false := by
      cases h : st.2.getD (H.problem.tupleIndex.toIndex a) false
      · rfl
      · exact absurd (hai ▸ (hinv.achieved _ hi).mp h) hna
    cases ht : (H.sweep seed st.1 st.2).achieved.getD (H.problem.tupleIndex.toIndex a) false
    · rcases hp.consulted _ (List.mem_range.mpr (hinv.length ▸ hi)) ht m
        (H.mem_atomAchievers.mpr ⟨_,hman,a,haff,rfl⟩) _ hman with ⟨G,hG⟩ | ⟨csp,G,hG⟩
      · exact absurd hpre (hp.inv.preinstantiate_exact hex hG a pre hprod)
      · cases (hp.inv.find_exact hex hG).2.mpr ⟨pre,by rw [hai]; exact hprod,hpre⟩
    · exact (hs.novel a).mpr ⟨_,hi,hai.symm,hf,ht⟩

theorem goalFormula_scope : ∀ v ∈ H.goalFormula.scope, v < H.problem.stateIndexer.size := by
  intro v hv
  rcases List.mem_append.mp hv with h | h
  · exact H.problem.goal_scope v h
  · exact H.problem.stateConstraints_scope v h

theorem goalFormula_holds {σ : Nat → Int} (h : H.goalFormula.holds σ = true) :
    H.problem.goal.holds σ = true := by
  simp only [goalFormula,Formula.conjunction,Bool.and_eq_true] at h
  exact h.1

theorem computeHeuristic_nonneg {graph : RPGIndex}
    (h : (isGoal graph.reached H.goalFormula).isSome) : 0 ≤ H.computeHeuristic graph := by
  obtain ⟨causes,hc⟩ := Option.isSome_iff_exists.mp h
  simp only [computeHeuristic,hc]
  exact Extractor.computeRelaxedPlanCost_nonneg _ _ _

variable (H Produces) in
/-- What holds at the top of layer `k` (the first is layer 0) when the seed is not a goal
state: the layer invariant; the graph reaches exactly `L k` and builds layer `k + 1`; every
reached atom outside the seed has a support at a layer `1, …, k`; and the goal handler's
formula holds in none of `L 0, …, L k`. -/
structure ExactInv (seed : State H.problem.stateIndexer) (k : Nat) (st : RPGIndex × List Bool) :
    Prop where
  layer : H.LayerInv st
  relaxed : (st.1.reached : Set Atom) = H.relaxedLayer Produces seed k
  current : st.1.currentLayer = k+1
  supported : ∀ a s, st.1.support a = some s → a ∉ RelaxedState.ofState seed →
    1 ≤ s.layer ∧ s.layer ≤ k ∧ s.action.isSome
  notGoal : ∀ j ≤ k, ¬ RelaxedSat (H.relaxedLayer Produces seed j) H.goalFormula

section Run

variable {seed : State H.problem.stateIndexer} {k : Nat} {st : RPGIndex × List Bool}

theorem exactInv_init (hg : H.problem.goal.satisfied seed = false) :
    H.ExactInv Produces seed 0
      (RPGIndex.ofState seed,(RPGIndex.ofState seed).achievedAtoms H.problem.tupleIndex) where
  layer := H.layerInv_init seed
  relaxed := rfl
  current := rfl
  supported a s h ha := by
    rw [show (RPGIndex.ofState seed).support a = none from if_neg ha] at h
    cases h
  notGoal j hj hsat := by
    obtain rfl : j = 0 := by omega
    rw [relaxedLayer,relaxedSat_ofState_iff H.goalFormula_scope] at hsat
    rw [Formula.satisfied,H.goalFormula_holds hsat] at hg
    cases hg

theorem ExactInv.reached_next (hinv : H.ExactInv Produces seed k st) (hex : H.Exact Produces) :
    ((H.sweep seed st.1 st.2).graph.advance.reached : Set Atom) =
      H.relaxedLayer Produces seed (k+1) := by
  have hs : H.LayerSweep seed st _ := hinv.layer.sweep seed
  ext a
  have hmem : ∀ b, b ∈ H.relaxedLayer Produces seed k ↔ b ∈ st.1.reached := fun b => by
    rw [← hinv.relaxed]; rfl
  simp only [RPGIndex.advance_reached,Finset.coe_union,List.coe_toFinset,Set.mem_union,
    Finset.mem_coe,Set.mem_setOf_eq,relaxedLayer,hmem,hs.reached,hinv.layer.sweep_novel_iff hex]
  by_cases ha : a ∈ st.1.reached <;> simp [ha]

theorem ExactInv.sweep_supported (hinv : H.ExactInv Produces seed k st) {a : Atom}
    {s : AtomSupport} (h : (H.sweep seed st.1 st.2).graph.support a = some s)
    (ha : a ∉ RelaxedState.ofState seed) : 1 ≤ s.layer ∧ s.layer ≤ k+1 ∧ s.action.isSome := by
  have hs : H.LayerSweep seed st _ := hinv.layer.sweep seed
  rcases hs.support a s h with h' | ⟨-,hl,hact⟩
  · obtain ⟨h₁,h₂,h₃⟩ := hinv.supported a s h' ha
    exact ⟨h₁,by omega,h₃⟩
  · rw [hl,hinv.current]; exact ⟨by omega,le_rfl,hact⟩

theorem ExactInv.next (hinv : H.ExactInv Produces seed k st) (hex : H.Exact Produces)
    (hle : H.computeHeuristic (H.sweep seed st.1 st.2).graph.advance ≤ -1) :
    H.ExactInv Produces seed (k+1)
      ((H.sweep seed st.1 st.2).graph.advance,(H.sweep seed st.1 st.2).achieved) where
  layer := (hinv.layer.sweep seed).next
  relaxed := hinv.reached_next hex
  current := by
    simp only [RPGIndex.advance_currentLayer,(hinv.layer.sweep seed).layer,hinv.current]
  supported _ _ h ha := hinv.sweep_supported h ha
  notGoal j hj hsat := by
    rcases Nat.lt_or_ge j (k+1) with hj' | hj'
    · exact hinv.notGoal j (by omega) hsat
    · obtain rfl : j = k+1 := by omega
      rw [← hinv.reached_next hex] at hsat
      have := H.computeHeuristic_nonneg (isGoal_isSome_iff.mpr hsat)
      omega

theorem ExactInv.never_goal (hinv : H.ExactInv Produces seed k st) (hex : H.Exact Produces)
    (hn : (H.sweep seed st.1 st.2).graph.novel = []) (j : Nat) :
    ¬ RelaxedSat (H.relaxedLayer Produces seed j) H.goalFormula := by
  have hst : H.relaxedLayer Produces seed (k+1) = H.relaxedLayer Produces seed k := by
    rw [← hinv.reached_next hex,← hinv.relaxed]
    simp [hn,RPGIndex.advance_reached,(hinv.layer.sweep seed).reached]
  rcases Nat.le_total j k with hj | hj
  · exact hinv.notGoal j hj
  · rw [relaxedLayer_stable hst j hj]; exact hinv.notGoal k le_rfl

theorem ExactInv.computeHeuristic_pos (hinv : H.ExactInv Produces seed k st)
    (h : -1 < H.computeHeuristic (H.sweep seed st.1 st.2).graph.advance) :
    1 ≤ H.computeHeuristic (H.sweep seed st.1 st.2).graph.advance := by
  cases hc : isGoal (H.sweep seed st.1 st.2).graph.advance.reached H.goalFormula with
  | none => simp only [computeHeuristic,hc,lt_self_iff_false] at h
  | some causes =>
    simp only [computeHeuristic,hc]
    obtain ⟨hin,hholds⟩ := isGoal_causes hc
    have hout : ∃ c ∈ causes, c ∉ RelaxedState.ofState seed := by
      by_contra hall
      push_neg at hall
      refine hinv.notGoal 0 (Nat.zero_le _) ⟨seed.getValue,fun v hv =>
        RelaxedState.mem_ofState.mpr ⟨H.goalFormula_scope v hv,rfl⟩,hholds _ fun c hc => ?_⟩
      exact ((RelaxedState.mem_ofState.mp (hall c hc)).2).symm
    obtain ⟨c,hc',hcs⟩ := hout
    have hnext : H.LayerInv (_,_) := (hinv.layer.sweep seed).next
    obtain ⟨⟨L,act,ws⟩,hs⟩ := Option.isSome_iff_exists.mp ((hnext.support c).mpr (hin c hc'))
    obtain ⟨h₁,h₂,h₃⟩ := hinv.sweep_supported hs hcs
    obtain ⟨act,rfl⟩ := Option.isSome_iff_exists.mp h₃
    refine Extractor.computeRelaxedPlanCost_pos _ hc' hs h₁ ?_
    simp only [RPGData.getCurrentLayerIdx,RPGIndex.advance_currentLayer,
      (hinv.layer.sweep seed).layer,hinv.current] at h₂ ⊢
    omega

theorem ExactInv.loop_spec (hex : H.Exact Produces) {Q : Int → Prop}
    (hret : ∀ k st r, H.ExactInv Produces seed k st → H.step seed st = .inl r → Q r) :
    ∀ fuel k st, H.ExactInv Produces seed k st → unachieved st.2 < fuel →
      ∃ r, H.loop seed fuel st = some r ∧ Q r
  | 0,_,_,_,hf => by omega
  | fuel+1,k,st,hinv,hf => by
    rcases H.step_cases seed st with ⟨he,-⟩ | ⟨he,-⟩ | ⟨he,hle,hn⟩
    · exact ⟨_,by simp [loop,he],hret k st _ hinv he⟩
    · exact ⟨_,by simp [loop,he],hret k st _ hinv he⟩
    · simp only [loop,he]
      refine ExactInv.loop_spec hex hret fuel (k+1) _ (hinv.next hex hle) ?_
      have := (hinv.layer.sweep seed).unachieved_lt hn
      dsimp only; omega

/-- Under exact handlers, every layer of the loop of `evaluate` from a seed that is not a goal
state is the layer of the delete relaxation: the graph of layer `k` reaches exactly `L k` and
is building layer `k + 1`, `achieved` marks exactly its atoms, every atom outside the seed is
supported by a handler at a layer `1, …, k`, and the goal handler's formula holds in none of
`L 0, …, L k`. -/
theorem exactInv_of_iterates (hex : H.Exact Produces) (hg : H.problem.goal.satisfied seed = false)
    (h : Iterates (H.step seed)
      (RPGIndex.ofState seed,(RPGIndex.ofState seed).achievedAtoms H.problem.tupleIndex) k st) :
    H.ExactInv Produces seed k st := by
  induction h with
  | init => exact exactInv_init hg
  | next _ he ih =>
    rcases H.step_cases seed _ with ⟨he',-⟩ | ⟨he',-⟩ | ⟨he',hle,-⟩ <;> rw [he'] at he <;> cases he
    exact ih.next hex hle

end Run

variable (H)

/-- With exact handlers, `UnreachedAtomRPG::evaluate` returns `-1` exactly when the seed is not
a goal state and the goal conjoined with the state constraints does not hold in the
delete-relaxed fixpoint of the seed, and `0` exactly when the seed is a goal state; otherwise
the cost of a relaxed plan with at least one action. -/
theorem evaluate_eq_neg_one_iff (hex : H.Exact Produces) (seed : State H.problem.stateIndexer)
    (fuel : Nat) (hfuel : H.problem.tupleIndex.size + 1 ≤ fuel) :
    ∃ r, H.evaluate fuel seed = some r ∧
      (r = -1 ↔ H.problem.goal.satisfied seed = false ∧
        ¬ RelaxedSat (H.fixpoint Produces seed) H.goalFormula) ∧
      (r = 0 ↔ H.problem.goal.satisfied seed = true) ∧ (r = -1 ∨ r = 0 ∨ 1 ≤ r) := by
  unfold evaluate
  by_cases hg : H.problem.goal.satisfied seed = true
  · exact ⟨0,by simp [hg],by simp [hg],by simp [hg],by simp⟩
  · have hg' : H.problem.goal.satisfied seed = false := by simpa using hg
    have hinv : H.ExactInv Produces seed 0 _ := exactInv_init hg'
    have hfix : ∀ j, RelaxedSat (H.relaxedLayer Produces seed j) H.goalFormula →
        RelaxedSat (H.fixpoint Produces seed) H.goalFormula := fun j h =>
      (relaxedSat_iUnion_iff (relaxedLayer_mono seed)).mpr ⟨j,h⟩
    obtain ⟨r,he,hr⟩ := hinv.loop_spec hex
      (Q := fun r => (r = -1 ∧ ¬ RelaxedSat (H.fixpoint Produces seed) H.goalFormula) ∨
        (1 ≤ r ∧ RelaxedSat (H.fixpoint Produces seed) H.goalFormula))
      (fun k st r hinv he => by
        rcases H.step_cases seed st with ⟨he',hn⟩ | ⟨he',hlt⟩ | ⟨he',-⟩ <;>
          rw [he'] at he <;> cases he
        · exact .inl ⟨rfl,fun hsat => by
            obtain ⟨j,hj⟩ := (relaxedSat_iUnion_iff (relaxedLayer_mono seed)).mp hsat
            exact hinv.never_goal hex hn j hj⟩
        · refine .inr ⟨hinv.computeHeuristic_pos hlt,hfix (k+1) ?_⟩
          rw [← hinv.reached_next hex]
          refine isGoal_isSome_iff.mp (Option.isSome_iff_ne_none.mpr fun hn => ?_)
          simp only [computeHeuristic,hn,lt_self_iff_false] at hlt)
      fuel 0 _ (Nat.lt_of_le_of_lt ((unachieved_le _).trans hinv.layer.length.le) (by omega))
    rw [if_neg hg]
    refine ⟨r,he,?_,by simp [hg]; rintro rfl; omega,by omega⟩
    rcases hr with ⟨rfl,h⟩ | ⟨h₁,h⟩
    · simpa [hg'] using h
    · exact ⟨fun h' => by omega,fun h' => absurd h h'.2⟩

end Exact

/-- What the relay handlers built from `relays` produce: handler `m`, made from `(pre, eff)`,
produces `eff` from `[pre]`. -/
def RelayProduces (relays : List (Atom × Atom)) (m : Nat) (a : Atom) (pre : List Atom) : Prop :=
  ∃ p, relays[m]? = some (p,a) ∧ pre = [p]

theorem relay_exact (H : UnreachedAtomRPG Unit) (relays : List (Atom × Atom))
    (hm : H.managers = relays.map fun r => relayHandler r.1 r.2) : H.Exact (RelayProduces relays) where
  affected m manager a pre hman := by
    rintro ⟨p,hr,-⟩
    rw [hm,List.getElem?_map,hr,Option.map_some',Option.some.injEq] at hman
    subst hman
    simp [relayHandler]
  preinstantiate_none m manager G hman hpre a pre := by
    rintro ⟨p,hr,rfl⟩ hall
    rw [hm,List.getElem?_map,hr,Option.map_some',Option.some.injEq] at hman
    subst hman
    simp only [relayHandler,ite_eq_right_iff,reduceCtorEq,imp_false] at hpre
    exact hpre (hall _ (List.mem_singleton_self _))
  findAtomSupport_iff m manager G G' csp i a seed hman _ hG := by
    rw [hm,List.getElem?_map] at hman
    obtain ⟨⟨p,eff⟩,hr,rfl⟩ := Option.map_eq_some'.mp hman
    simp only [relayHandler,RelayProduces,hG,Option.isSome_ite,hr,Option.some.injEq,Prod.mk.injEq]
    constructor
    · rintro ⟨rfl,h⟩
      exact ⟨_,⟨p,⟨rfl,rfl⟩,rfl⟩,by simpa using h⟩
    · rintro ⟨_,⟨_,⟨rfl,rfl⟩,rfl⟩,h⟩
      exact ⟨rfl,h _ (List.mem_singleton_self _)⟩

def singleStepProduces : Nat → Atom → List Atom → Prop := RelayProduces [(⟨0,1⟩,⟨1,1⟩)]

theorem singleStep_exact : singleStep.Exact singleStepProduces := relay_exact singleStep _ rfl

def chainProduces : Nat → Atom → List Atom → Prop := RelayProduces [(⟨0,1⟩,⟨1,1⟩),(⟨1,1⟩,⟨2,1⟩)]

theorem chain_exact : chain.Exact chainProduces := relay_exact chain _ rfl

theorem singleStep_goal_relaxed_reachable :
    RelaxedSat (singleStep.fixpoint singleStepProduces Problem.singleStepSeed) singleStep.goalFormula := by
  obtain ⟨r,he,hr,-⟩ :=
    evaluate_eq_neg_one_iff singleStep singleStep_exact Problem.singleStepSeed 5 (by decide)
  obtain rfl : r = 1 := Option.some.inj (he.symm.trans rfl)
  by_contra h
  exact absurd (hr.mpr ⟨rfl,h⟩) (by decide)

theorem chain_exactInv_second :
    ∃ st, chain.step Problem.chainSeed
        (RPGIndex.ofState Problem.chainSeed,
          (RPGIndex.ofState Problem.chainSeed).achievedAtoms Problem.chain.tupleIndex) = .inr st ∧
      chain.ExactInv chainProduces Problem.chainSeed 1 st :=
  ⟨_,rfl,exactInv_of_iterates chain_exact rfl (.next .init rfl)⟩

def goalAgainstConstraints : UnreachedAtomRPG Unit where
  problem :=
    { stateIndexer := StateAtomIndexer.create [true]
      tupleIndex := ⟨[⟨0,0⟩,⟨0,1⟩],by decide⟩
      goal := ⟨[0],fun σ => σ 0 == 1,fun σ τ h => by dsimp only; rw [h 0 (List.mem_singleton_self 0)]⟩
      stateConstraints :=
        ⟨[0],fun σ => σ 0 == 0,fun σ τ h => by dsimp only; rw [h 0 (List.mem_singleton_self 0)]⟩
      goal_scope := by decide
      stateConstraints_scope := by decide }
  managers := []
  affected_indexed := by simp

/-- From a seed with `x = 1`, which satisfies the goal but not the state constraints,
`evaluate` returns `0` although the goal conjoined with the state constraints holds in no
relaxed state, and the handlers, there being none, are exact. -/
theorem goalAgainstConstraints_evaluate_zero :
    goalAgainstConstraints.Exact (fun _ _ _ => False) ∧
      goalAgainstConstraints.evaluate 3 ((State.zero _).set ⟨0,1⟩) = some 0 ∧
      ¬ RelaxedSat (goalAgainstConstraints.fixpoint (fun _ _ _ => False) ((State.zero _).set ⟨0,1⟩))
        goalAgainstConstraints.goalFormula := by
  refine ⟨⟨nofun,nofun,fun _ _ _ _ _ _ _ _ hm => by simp [goalAgainstConstraints] at hm⟩,rfl,?_⟩
  rintro ⟨σ,-,h⟩
  simp only [goalFormula,Formula.conjunction,goalAgainstConstraints,Bool.and_eq_true,beq_iff_eq] at h
  omega

end UnreachedAtomRPG

end FsPlanner
