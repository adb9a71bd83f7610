import FsPlanner.Unreached.Sweep

/-!
# The plain atom sweep

The sweep of a layer without `cache` and `failure_cache`: `preinstantiate(graph)` afresh
before every `find_atom_support`. When the handlers read only the integrated layers of the
graph, as the `RPGIndex` contract asks, every atom's loop over its achievers ends at its first
support on the graph the layer started from. Both sweeps record those first supports, and
which atoms a layer achieves does not depend on the order of the atom loop.
-/

set_option autoImplicit false

namespace FsPlanner

namespace UnreachedAtomRPG

variable {CSP : Type} (H : UnreachedAtomRPG CSP) (seed : State H.problem.stateIndexer)

def plainSupportAtom (atomIdx : Nat) (atom : Atom) : List Nat → RPGIndex → Bool × RPGIndex
  | [],G => (false,G)
  | managerIdx :: achievers,G =>
    match H.managers[managerIdx]? with
    | none => plainSupportAtom atomIdx atom achievers G
    | some manager =>
      match manager.preinstantiate G with
      | none => plainSupportAtom atomIdx atom achievers G
      | some csp =>
        match manager.findAtomSupport atomIdx atom seed csp G with
        | some witness => (true,G.add atom managerIdx witness)
        | none => plainSupportAtom atomIdx atom achievers G

def plainSweepAtom (st : RPGIndex × List Bool) (atomIdx : Nat) : RPGIndex × List Bool :=
  if st.2.getD atomIdx false then st
  else
    match H.plainSupportAtom seed atomIdx (H.problem.tupleIndex.toAtom atomIdx)
        (H.atomAchievers.getD atomIdx []) st.1 with
    | (true,G) => (G,st.2.set atomIdx true)
    | (false,G) => (G,st.2)

/-- The plain atom sweep of one layer, in index order. -/
def plainSweep (graph : RPGIndex) (achieved : List Bool) : RPGIndex × List Bool :=
  (List.range achieved.length).foldl (H.plainSweepAtom seed) (graph,achieved)

/-- The first of `achievers` whose instantiation on `G` is consistent and whose support search
on `G` succeeds, with the support it finds. -/
def firstSupport (G : RPGIndex) (atomIdx : Nat) (atom : Atom) :
    List Nat → Option (Nat × List Atom)
  | [] => none
  | managerIdx :: achievers =>
    match H.managers[managerIdx]? with
    | none => firstSupport G atomIdx atom achievers
    | some manager =>
      match manager.preinstantiate G with
      | none => firstSupport G atomIdx atom achievers
      | some csp =>
        match manager.findAtomSupport atomIdx atom seed csp G with
        | some witness => some (managerIdx,witness)
        | none => firstSupport G atomIdx atom achievers

/-- The support a layer that started from `G₀` with the vector `achieved` records for atom `j`:
none for an atom already achieved, else the atom with its first support. -/
def newSupport (G₀ : RPGIndex) (achieved : List Bool) (j : Nat) :
    Option (Atom × Nat × List Atom) :=
  if achieved.getD j false then none
  else (H.firstSupport seed G₀ j (H.problem.tupleIndex.toAtom j) (H.atomAchievers.getD j [])).map
    fun s => (H.problem.tupleIndex.toAtom j,s)

/-- The outcome of an atom's loop with the support `s`: whether it was found, and the graph
that records it. -/
def recordSupport (G : RPGIndex) (atom : Atom) : Option (Nat × List Atom) → Bool × RPGIndex
  | some (m,w) => (true,G.add atom m w)
  | none => (false,G)

variable {H} {seed}

theorem getD_set_true {l : List Bool} {i j : Nat} :
    (l.set i true).getD j false = true ↔ l.getD j false = true ∨ (j = i ∧ i < l.length) := by
  simp only [List.getD_eq_getElem?_getD,List.getElem?_set]
  by_cases hij : i = j
  · subst hij
    by_cases hi : i < l.length
    · simp [hi]
    · simp [hi,List.getElem?_eq_none_iff.mpr (Nat.le_of_not_lt hi)]
  · simp [hij,Ne.symm hij]

theorem eq_of_getD_iff {l l' : List Bool} (hlen : l.length = l'.length)
    (h : ∀ j, l.getD j false = true ↔ l'.getD j false = true) : l = l' :=
  List.ext_getElem hlen fun j h₁ h₂ => by
    have := h j
    rw [List.getD_eq_getElem?_getD,List.getD_eq_getElem?_getD,List.getElem?_eq_getElem h₁,
      List.getElem?_eq_getElem h₂] at this
    exact Bool.eq_iff_iff.mpr this

theorem plainSupportAtom_eq (i : Nat) (a : Atom) : ∀ (achievers : List Nat) (G : RPGIndex),
    H.plainSupportAtom seed i a achievers G = recordSupport G a (H.firstSupport seed G i a achievers)
  | [],_ => rfl
  | m :: rest,G => by
    have ih := plainSupportAtom_eq i a rest G
    simp only [plainSupportAtom,firstSupport]
    cases H.managers[m]? with
    | none => exact ih
    | some manager =>
      dsimp only
      cases manager.preinstantiate G with
      | none => exact ih
      | some csp =>
        dsimp only
        cases manager.findAtomSupport i a seed csp G with
        | none => exact ih
        | some w => rfl

section Integrated

variable (hread : ∀ m ∈ H.managers, m.ReadsIntegrated)
include hread

theorem firstSupport_addAll (i : Nat) (a : Atom) (l : List (Atom × Nat × List Atom)) (G : RPGIndex) :
    ∀ achievers, H.firstSupport seed (G.addAll l) i a achievers = H.firstSupport seed G i a achievers
  | [] => rfl
  | m :: rest => by
    have ih := firstSupport_addAll i a l G rest
    simp only [firstSupport]
    cases hm : H.managers[m]? with
    | none => exact ih
    | some manager =>
      obtain ⟨hp,hf⟩ := (hread manager (List.getElem?_mem hm)).addAll l G
      simp only [hp,hf,ih]

theorem SweepInv.preinstantiate_start {G₀ : RPGIndex} {st : SweepState CSP}
    (hinv : H.SweepInv seed G₀ st) {m : Nat} {G : RPGIndex} {r : Option CSP}
    (hc : .preinstantiate m G r ∈ st.calls) {manager : EffectHandler H.problem.stateIndexer CSP}
    (hm : H.managers[m]? = some manager) : manager.preinstantiate G₀ = r := by
  obtain ⟨manager',hm',hr⟩ := hinv.faithful _ hc
  cases hm.symm.trans hm'
  obtain ⟨l,hl⟩ := hinv.callsGraph _ hc
  rw [← ((hread manager (List.getElem?_mem hm)).addAll l G₀).1,← hr]
  exact congrArg _ hl.symm

theorem SweepInv.instantiate_start {G₀ : RPGIndex} {st : SweepState CSP}
    (hinv : H.SweepInv seed G₀ st) {m : Nat} {manager : EffectHandler H.problem.stateIndexer CSP}
    (hm : H.managers[m]? = some manager) {r : Option CSP} {st' : SweepState CSP}
    (he : H.instantiate manager m st = (r,st')) : r = manager.preinstantiate G₀ := by
  unfold UnreachedAtomRPG.instantiate at he
  cases hc : st.cache.getD m none with
  | some csp =>
    rw [hc] at he; cases he
    obtain ⟨G,hG⟩ := hinv.cached m csp hc
    exact (hinv.preinstantiate_start hread hG hm).symm
  | none =>
    obtain ⟨l,hl⟩ := hinv.graph
    have hfresh : manager.preinstantiate st.graph = manager.preinstantiate G₀ := by
      rw [hl,((hread manager (List.getElem?_mem hm)).addAll l G₀).1]
    rw [hc] at he
    cases hp : manager.preinstantiate st.graph <;> rw [hp] at he <;> cases he <;> rw [← hfresh,hp]

theorem SweepInv.supportAtom_first {G₀ : RPGIndex} (i : Nat) (a : Atom) :
    ∀ (achievers : List Nat) {st st' : SweepState CSP} {b : Bool}, H.SweepInv seed G₀ st →
    H.supportAtom seed i a achievers st = (b,st') →
    (b,st'.graph) = recordSupport st.graph a (H.firstSupport seed G₀ i a achievers)
  | [],st,st',b,_,he => by
    simp only [UnreachedAtomRPG.supportAtom,Prod.mk.injEq] at he
    obtain ⟨rfl,rfl⟩ := he
    rfl
  | m :: rest,st,st',b,hinv,he => by
    simp only [UnreachedAtomRPG.supportAtom] at he
    simp only [firstSupport]
    cases hman : H.managers[m]? with
    | none =>
      simp only [hman] at he
      exact hinv.supportAtom_first i a rest he
    | some manager =>
      simp only [hman] at he ⊢
      by_cases hf : st.failureCache.getD m false = true
      · rw [if_pos hf] at he
        obtain ⟨G,hG⟩ := hinv.failed m hf
        rw [hinv.preinstantiate_start hread hG hman]
        exact hinv.supportAtom_first i a rest he
      · rw [if_neg hf] at he
        simp only [Bool.not_eq_true] at hf
        cases hi : H.instantiate manager m st with
        | mk r st₁ =>
          obtain ⟨hinv₁,hg₁,-,-,hsome,-⟩ := hinv.instantiate hman hf hi
          rw [← hinv.instantiate_start hread hman hi,← hg₁]
          rw [hi] at he
          cases r with
          | none => exact hinv₁.supportAtom_first i a rest he
          | some csp =>
            obtain ⟨l,hl⟩ := hinv₁.graph
            have hfind : manager.findAtomSupport i a seed csp G₀ =
                manager.findAtomSupport i a seed csp st₁.graph := by
              rw [hl,((hread manager (List.getElem?_mem hman)).addAll l G₀).2]
            dsimp only at he ⊢
            rw [hfind]
            cases hw : manager.findAtomSupport i a seed csp st₁.graph with
            | none =>
              rw [hw] at he
              exact (hinv₁.find hman (hsome csp rfl) (by rw [hw]; rfl) hinv₁.graph).supportAtom_first
                i a rest he
            | some w =>
              rw [hw] at he
              simp only [Prod.mk.injEq] at he
              obtain ⟨rfl,rfl⟩ := he
              rfl

theorem SweepInv.sweepAtom_plain {G₀ : RPGIndex} {st : SweepState CSP}
    (hinv : H.SweepInv seed G₀ st) (i : Nat) :
    H.SweepInv seed G₀ (H.sweepAtom seed st i) ∧
      ((H.sweepAtom seed st i).graph,(H.sweepAtom seed st i).achieved) =
        H.plainSweepAtom seed (st.graph,st.achieved) i := by
  unfold UnreachedAtomRPG.sweepAtom plainSweepAtom
  by_cases ha : st.achieved.getD i false = true
  · rw [if_pos ha,if_pos ha]
    exact ⟨hinv,rfl⟩
  · rw [if_neg ha,if_neg ha]
    obtain ⟨l,hl⟩ := hinv.graph
    cases hs : H.supportAtom seed i (H.problem.tupleIndex.toAtom i) (H.atomAchievers.getD i []) st with
    | mk b st' =>
      have hout := hinv.supportAtom i _ _ hs
      have hfirst := hinv.supportAtom_first hread i _ _ hs
      dsimp only
      rw [plainSupportAtom_eq,hl,firstSupport_addAll hread,← hl,← hfirst,← hout.achieved]
      cases b
      · exact ⟨hout.inv,rfl⟩
      · exact ⟨hout.inv.setAchieved _,rfl⟩

theorem SweepInv.foldl_plain {G₀ : RPGIndex} : ∀ (order : List Nat) {st : SweepState CSP},
    H.SweepInv seed G₀ st →
    ((order.foldl (H.sweepAtom seed) st).graph,(order.foldl (H.sweepAtom seed) st).achieved) =
      order.foldl (H.plainSweepAtom seed) (st.graph,st.achieved)
  | [],_,_ => rfl
  | i :: order,_,hinv => by
    obtain ⟨hinv',he⟩ := hinv.sweepAtom_plain hread i
    rw [List.foldl_cons,List.foldl_cons,← he]
    exact hinv'.foldl_plain order

/-- One iteration of the plain atom loop on a graph that extends `G₀`: it records the atom's
new support, and marks the atom achieved when it has one. -/
theorem plainSweepAtom_spec {G₀ : RPGIndex} {st : RPGIndex × List Bool}
    (hl : ∃ l, st.1 = G₀.addAll l) (i : Nat) :
    (H.plainSweepAtom seed st i).1 = st.1.addAll (H.newSupport seed G₀ st.2 i).toList ∧
      (H.plainSweepAtom seed st i).2.length = st.2.length ∧
      ∀ j, ((H.plainSweepAtom seed st i).2.getD j false = true ↔ st.2.getD j false = true ∨
        (j = i ∧ i < st.2.length ∧ (H.newSupport seed G₀ st.2 i).isSome)) := by
  obtain ⟨l,hl⟩ := hl
  unfold plainSweepAtom newSupport
  by_cases ha : st.2.getD i false = true
  · rw [if_pos ha,if_pos ha]
    simp
  · rw [if_neg ha,if_neg ha,plainSupportAtom_eq,hl,firstSupport_addAll hread,← hl]
    cases H.firstSupport seed G₀ i (H.problem.tupleIndex.toAtom i) (H.atomAchievers.getD i []) with
    | none => simp [recordSupport]
    | some s =>
      obtain ⟨m,w⟩ := s
      exact ⟨rfl,List.length_set _ _ _,fun j => getD_set_true.trans (by simp)⟩

variable (seed) in
theorem plainSweep_foldl {G₀ : RPGIndex} : ∀ (order : List Nat) (st : RPGIndex × List Bool),
    order.Nodup → (∃ l, st.1 = G₀.addAll l) →
    (order.foldl (H.plainSweepAtom seed) st).1 =
        st.1.addAll (order.filterMap (H.newSupport seed G₀ st.2)) ∧
      (order.foldl (H.plainSweepAtom seed) st).2.length = st.2.length ∧
      ∀ j, ((order.foldl (H.plainSweepAtom seed) st).2.getD j false = true ↔
        st.2.getD j false = true ∨
          (j ∈ order ∧ j < st.2.length ∧ (H.newSupport seed G₀ st.2 j).isSome))
  | [],st,_,_ => by simp
  | i :: order,st,hnd,hl => by
    obtain ⟨hi,hnd⟩ := List.nodup_cons.mp hnd
    obtain ⟨hg,hlen,ha⟩ := H.plainSweepAtom_spec hread hl i
    have hl' : ∃ l, (H.plainSweepAtom seed st i).1 = G₀.addAll l := by
      obtain ⟨l,hl⟩ := hl
      exact ⟨l ++ (H.newSupport seed G₀ st.2 i).toList,by rw [hg,hl,RPGIndex.addAll_append]⟩
    have hsame : ∀ j ∈ order, H.newSupport seed G₀ (H.plainSweepAtom seed st i).2 j =
        H.newSupport seed G₀ st.2 j := fun j hj => by
      have hij : j ≠ i := fun h => hi (h ▸ hj)
      have : (H.plainSweepAtom seed st i).2.getD j false = st.2.getD j false :=
        Bool.eq_iff_iff.mpr ((ha j).trans (by simp [hij]))
      simp only [newSupport,this]
    obtain ⟨ihg,ihl,iha⟩ := plainSweep_foldl order _ hnd hl'
    refine ⟨?_,by rw [List.foldl_cons,ihl,hlen],fun j => ?_⟩
    · rw [List.foldl_cons,ihg,hg,List.filterMap_congr hsame,← RPGIndex.addAll_append,
        List.filterMap_cons]
      cases H.newSupport seed G₀ st.2 i <;> rfl
    · rw [List.foldl_cons,iha j,ha j,hlen,List.mem_cons]
      by_cases hj : j ∈ order
      · rw [hsame j hj]
        have hij : j ≠ i := fun h => hi (h ▸ hj)
        simp [hj,hij]
      · by_cases hij : j = i
        · subst hij; simp [hj]
        · simp [hj,hij]

end Integrated

variable (H seed)

/-- With handlers that read only the integrated layers of the graph, the memoised sweep of a
layer computes the plain one: the same graph and the same achieved atoms. Both record, for
each atom not achieved at the start, its first support on the layer's start graph, in index
order; and visiting the atom indices in any order achieves the same atoms. -/
theorem sweep_eq_plainSweep (graph : RPGIndex) (achieved : List Bool)
    (hread : ∀ m ∈ H.managers, m.ReadsIntegrated) :
    (H.sweep seed graph achieved).graph = (H.plainSweep seed graph achieved).1 ∧
      (H.sweep seed graph achieved).achieved = (H.plainSweep seed graph achieved).2 ∧
      (H.plainSweep seed graph achieved).1 =
        graph.addAll ((List.range achieved.length).filterMap (H.newSupport seed graph achieved)) ∧
      ∀ order : List Nat, order.Perm (List.range achieved.length) →
        (H.sweepOver seed order graph achieved).achieved = (H.sweep seed graph achieved).achieved := by
  have hmemo : ∀ order : List Nat, ((H.sweepOver seed order graph achieved).graph,
      (H.sweepOver seed order graph achieved).achieved) =
        order.foldl (H.plainSweepAtom seed) (graph,achieved) := fun order =>
    (sweepInv_init graph achieved).foldl_plain hread order
  have hfold := fun (order : List Nat) (hnd : order.Nodup) =>
    plainSweep_foldl seed hread order (graph,achieved) hnd ⟨[],rfl⟩
  obtain ⟨hg,ha⟩ := Prod.mk.inj (hmemo (List.range achieved.length))
  obtain ⟨hgr,hlr,har⟩ := hfold _ (List.nodup_range _)
  refine ⟨hg,ha,hgr,fun order hperm => ?_⟩
  obtain ⟨-,hlo,hao⟩ := hfold order (hperm.nodup_iff.mpr (List.nodup_range _))
  show (H.sweepOver seed order graph achieved).achieved =
    (H.sweepOver seed (List.range achieved.length) graph achieved).achieved
  rw [(Prod.mk.inj (hmemo order)).2,ha]
  exact eq_of_getD_iff (hlo.trans hlr.symm) fun j => by rw [hao,har,hperm.mem_iff]

theorem singleStepHandler_readsIntegrated : singleStepHandler.ReadsIntegrated :=
  fun _ _ _ _ => ⟨by simp [singleStepHandler,relayHandler],fun _ _ _ _ => by simp [singleStepHandler,relayHandler]⟩

theorem singleStep_sweep_eq_plainSweep :
    (singleStep.sweep Problem.singleStepSeed (RPGIndex.ofState Problem.singleStepSeed)
        ((RPGIndex.ofState Problem.singleStepSeed).achievedAtoms Problem.singleStep.tupleIndex)).graph =
      (singleStep.plainSweep Problem.singleStepSeed (RPGIndex.ofState Problem.singleStepSeed)
        ((RPGIndex.ofState Problem.singleStepSeed).achievedAtoms Problem.singleStep.tupleIndex)).1 :=
  (sweep_eq_plainSweep singleStep Problem.singleStepSeed _ _ fun m hm => by
    obtain rfl := List.mem_singleton.mp hm
    exact singleStepHandler_readsIntegrated).1

end UnreachedAtomRPG

end FsPlanner
