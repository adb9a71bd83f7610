import FsPlanner.Unreached.Graph

/-!
`UnreachedAtomRPG::build_achievers_index` (`unreached_atom_rpg.cxx`): for every atom of the
index, the handlers whose effect may affect it, built once by the constructor and read by
every layer of `evaluate`.
-/

set_option autoImplicit false

namespace FsPlanner

theorem getD_set_of_lt {α : Type} {l : List α} {j : Nat} (hj : j < l.length) (k : Nat) (x d : α) :
    (l.set j x).getD k d = if j = k then x else l.getD k d := by
  by_cases h : j = k
  · subst h; simp [List.getD_eq_getElem?_getD,hj]
  · simp [List.getD_eq_getElem?_getD,List.getElem?_set,h]

section Build

variable {ix : StateAtomIndexer} {CSP : Type} (tupleIndex : AtomIndex)

/-- The inner loop of `build_achievers_index`: push `managerIdx` on the entry of every atom
the handler affects. `index.at(idx)` throws `out_of_range`, here `none`, when the atom's
index is past the end. -/
def pushAchiever (managerIdx : Nat) : List Atom → List (List Nat) → Option (List (List Nat))
  | [],index => some index
  | atom :: atoms,index =>
    let idx := tupleIndex.toIndex atom
    if idx < index.length then
      pushAchiever managerIdx atoms (index.set idx (index.getD idx [] ++ [managerIdx]))
    else none

def pushAchievers : Nat → List (EffectHandler ix CSP) → List (List Nat) → Option (List (List Nat))
  | _,[],index => some index
  | managerIdx,manager :: managers,index =>
    (pushAchiever tupleIndex managerIdx manager.affectedAtoms index).bind
      (pushAchievers (managerIdx+1) managers)

/-- `build_achievers_index(managers, tuple_index)`: one entry per atom of the index. -/
def buildAchieversIndex (managers : List (EffectHandler ix CSP)) : Option (List (List Nat)) :=
  pushAchievers tupleIndex 0 managers (List.replicate tupleIndex.size [])

def achieverEntry (k : Nat) (managers : List (EffectHandler ix CSP)) (i : Nat) : List Nat :=
  (managers.enumFrom k).flatMap fun p =>
    (p.2.affectedAtoms.filter fun a => tupleIndex.toIndex a = i).map fun _ => p.1

theorem achieverEntry_cons (k : Nat) (manager : EffectHandler ix CSP)
    (managers : List (EffectHandler ix CSP)) (i : Nat) :
    achieverEntry tupleIndex k (manager :: managers) i =
      (manager.affectedAtoms.filter fun a => tupleIndex.toIndex a = i).map (fun _ => k) ++
        achieverEntry tupleIndex (k+1) managers i := rfl

theorem pushAchiever_spec (managerIdx : Nat) : ∀ (atoms : List Atom) (index : List (List Nat)),
    (∀ a ∈ atoms, tupleIndex.toIndex a < index.length) →
      ∃ index', pushAchiever tupleIndex managerIdx atoms index = some index' ∧
        index'.length = index.length ∧ ∀ i, index'.getD i [] = index.getD i [] ++
          (atoms.filter fun a => tupleIndex.toIndex a = i).map fun _ => managerIdx
  | [],index,_ => ⟨index,rfl,rfl,by simp⟩
  | atom :: atoms,index,h => by
    have hlt := h atom (List.mem_cons_self _ _)
    obtain ⟨index',he,hl,hi⟩ := pushAchiever_spec managerIdx atoms
      (index.set (tupleIndex.toIndex atom) (index.getD (tupleIndex.toIndex atom) [] ++ [managerIdx]))
      (by simpa using fun a ha => h a (List.mem_cons_of_mem _ ha))
    refine ⟨index',by simp only [pushAchiever,hlt,if_true,he],by simpa using hl,fun i => ?_⟩
    rw [hi,getD_set_of_lt hlt]
    by_cases hai : tupleIndex.toIndex atom = i
    · subst hai; simp [List.filter_cons]
    · simp [hai,List.filter_cons]

theorem pushAchievers_spec : ∀ (k : Nat) (managers : List (EffectHandler ix CSP))
    (index : List (List Nat)), (∀ m ∈ managers, ∀ a ∈ m.affectedAtoms, a ∈ tupleIndex.atoms) →
      index.length = tupleIndex.size →
      ∃ index', pushAchievers tupleIndex k managers index = some index' ∧
        index'.length = tupleIndex.size ∧
        ∀ i, index'.getD i [] = index.getD i [] ++ achieverEntry tupleIndex k managers i
  | k,[],index,_,hl => ⟨index,rfl,hl,by simp [achieverEntry]⟩
  | k,manager :: managers,index,h,hl => by
    obtain ⟨index₁,he₁,hl₁,hi₁⟩ := pushAchiever_spec tupleIndex k manager.affectedAtoms index
      fun a ha => hl ▸ AtomIndex.toIndex_lt_size.mpr (h manager (List.mem_cons_self _ _) a ha)
    obtain ⟨index₂,he₂,hl₂,hi₂⟩ := pushAchievers_spec (k+1) managers index₁
      (fun m hm => h m (List.mem_cons_of_mem _ hm)) (hl₁.trans hl)
    refine ⟨index₂,by simp [pushAchievers,he₁,he₂],hl₂,fun i => ?_⟩
    rw [hi₂,hi₁,achieverEntry_cons,List.append_assoc]

theorem pushAchiever_isSome_iff (managerIdx : Nat) : ∀ (atoms : List Atom) (index : List (List Nat)),
    (pushAchiever tupleIndex managerIdx atoms index).isSome ↔
      ∀ a ∈ atoms, tupleIndex.toIndex a < index.length
  | [],_ => by simp [pushAchiever]
  | atom :: atoms,index => by
    by_cases hlt : tupleIndex.toIndex atom < index.length
    · simp only [pushAchiever,hlt,if_true,pushAchiever_isSome_iff managerIdx atoms,List.length_set,
        List.forall_mem_cons,true_and]
    · simp [pushAchiever,hlt]

theorem pushAchievers_isSome_iff : ∀ (k : Nat) (managers : List (EffectHandler ix CSP))
    (index : List (List Nat)), index.length = tupleIndex.size →
    ((pushAchievers tupleIndex k managers index).isSome ↔
      ∀ m ∈ managers, ∀ a ∈ m.affectedAtoms, a ∈ tupleIndex.atoms)
  | _,[],_,_ => by simp [pushAchievers]
  | k,manager :: managers,index,hl => by
    have hlt : ∀ a, tupleIndex.toIndex a < index.length ↔ a ∈ tupleIndex.atoms := fun _ =>
      hl ▸ AtomIndex.toIndex_lt_size
    by_cases h : ∀ a ∈ manager.affectedAtoms, a ∈ tupleIndex.atoms
    · obtain ⟨index₁,he₁,hl₁,-⟩ := pushAchiever_spec tupleIndex k _ index fun a ha => (hlt a).mpr (h a ha)
      simp only [pushAchievers,he₁,Option.some_bind,
        pushAchievers_isSome_iff (k+1) managers index₁ (hl₁.trans hl),List.forall_mem_cons]
      exact (and_iff_right h).symm
    · have hnone : pushAchiever tupleIndex k manager.affectedAtoms index = none := by
        rw [← Option.not_isSome_iff_eq_none,pushAchiever_isSome_iff]
        simpa [hlt] using h
      simp [pushAchievers,hnone,h]

/-- `build_achievers_index` throws, here `none`, exactly when a handler may affect an atom
outside the atom index: the constructor of `UnreachedAtomRPG` succeeds exactly under the
condition that the structure carries. -/
theorem buildAchieversIndex_isSome_iff (managers : List (EffectHandler ix CSP)) :
    (buildAchieversIndex tupleIndex managers).isSome ↔
      ∀ m ∈ managers, ∀ a ∈ m.affectedAtoms, a ∈ tupleIndex.atoms :=
  pushAchievers_isSome_iff tupleIndex 0 managers _ (List.length_replicate _ _)

theorem mem_achieverEntry {k : Nat} {managers : List (EffectHandler ix CSP)} {i m : Nat} :
    m ∈ achieverEntry tupleIndex k managers i ↔
      ∃ manager, (m,manager) ∈ managers.enumFrom k ∧ ∃ a ∈ manager.affectedAtoms,
        tupleIndex.toIndex a = i := by
  simp only [achieverEntry,List.mem_flatMap,List.mem_map,List.mem_filter,decide_eq_true_eq]
  constructor
  · rintro ⟨⟨m',manager⟩,hp,a,⟨ha,hai⟩,rfl⟩; exact ⟨manager,hp,a,ha,hai⟩
  · rintro ⟨manager,hp,a,ha,hai⟩; exact ⟨(m,manager),hp,a,⟨ha,hai⟩,rfl⟩

theorem length_filter_toIndex_le_one {l : List Atom} (hn : l.Nodup)
    (hl : ∀ a ∈ l, a ∈ tupleIndex.atoms) (i : Nat) :
    (l.filter fun a => tupleIndex.toIndex a = i).length ≤ 1 := by
  have hsame : ∀ a ∈ l.filter (fun a => tupleIndex.toIndex a = i),
      ∀ b ∈ l.filter (fun a => tupleIndex.toIndex a = i), a = b := by
    simp only [List.mem_filter,decide_eq_true_eq]
    rintro a ⟨ha,rfl⟩ b ⟨hb,hab⟩
    rw [← AtomIndex.toAtom_toIndex (hl a ha),← AtomIndex.toAtom_toIndex (hl b hb),hab]
  have hnd := hn.filter (fun a => decide (tupleIndex.toIndex a = i))
  generalize l.filter (fun a => decide (tupleIndex.toIndex a = i)) = f at hsame hnd ⊢
  cases f with
  | nil => simp
  | cons x rest =>
    exact (List.subperm_of_subset hnd fun b hb =>
      List.mem_singleton.mpr (hsame b hb x (List.mem_cons_self _ _))).length_le

theorem achieverEntry_sorted (i : Nat) : ∀ (k : Nat) (managers : List (EffectHandler ix CSP)),
    (achieverEntry tupleIndex k managers i).Sorted (· ≤ ·) ∧
      ((∀ m ∈ managers, m.affectedAtoms.Nodup ∧ ∀ a ∈ m.affectedAtoms, a ∈ tupleIndex.atoms) →
        (achieverEntry tupleIndex k managers i).Sorted (· < ·))
  | _,[] => by simp [achieverEntry]
  | k,manager :: managers => by
    obtain ⟨ih₁,ih₂⟩ := achieverEntry_sorted i (k+1) managers
    have hlater : ∀ b ∈ achieverEntry tupleIndex (k+1) managers i, k < b := fun b hb => by
      obtain ⟨_,hp,-⟩ := (mem_achieverEntry tupleIndex).mp hb
      exact (List.mem_enumFrom hp).1
    have hblock : ∀ a ∈ (manager.affectedAtoms.filter fun a => tupleIndex.toIndex a = i).map
        (fun _ => k), a = k := by simp
    rw [achieverEntry_cons]
    refine ⟨List.pairwise_append.mpr ⟨?_,ih₁,fun a ha b hb => hblock a ha ▸ (hlater b hb).le⟩,
      fun hn => List.pairwise_append.mpr ⟨?_,ih₂ fun m hm => hn m (List.mem_cons_of_mem _ hm),
        fun a ha b hb => hblock a ha ▸ hlater b hb⟩⟩
    · rw [List.map_const']; exact List.pairwise_replicate.mpr (.inr le_rfl)
    · obtain ⟨hnd,hin⟩ := hn manager (List.mem_cons_self _ _)
      rw [List.map_const']
      exact List.pairwise_replicate.mpr (.inl (by
        simpa using length_filter_toIndex_le_one tupleIndex hnd hin i))

end Build

/-- `UnreachedAtomRPG`: the problem and its effect handlers. The atoms a handler's effect may
affect are atoms of the problem, so the constructor's `build_achievers_index` does not throw. -/
structure UnreachedAtomRPG (CSP : Type) where
  problem : Problem
  managers : List (EffectHandler problem.stateIndexer CSP)
  affected_indexed : ∀ m ∈ managers, ∀ a ∈ m.affectedAtoms, a ∈ problem.tupleIndex.atoms

namespace UnreachedAtomRPG

variable {CSP : Type} (H : UnreachedAtomRPG CSP)

def atomAchievers : List (List Nat) :=
  (buildAchieversIndex H.problem.tupleIndex H.managers).getD []

def goalFormula : Formula := H.problem.goal.conjunction H.problem.stateConstraints

theorem atomAchievers_spec :
    buildAchieversIndex H.problem.tupleIndex H.managers = some H.atomAchievers ∧
      H.atomAchievers.length = H.problem.tupleIndex.size ∧
      ∀ i, H.atomAchievers.getD i [] = achieverEntry H.problem.tupleIndex 0 H.managers i := by
  obtain ⟨index,he,hl,hi⟩ := pushAchievers_spec H.problem.tupleIndex 0 H.managers
    (List.replicate H.problem.tupleIndex.size []) H.affected_indexed (List.length_replicate _ _)
  have : H.atomAchievers = index := by simp [atomAchievers,buildAchieversIndex,he]
  subst this
  refine ⟨he,hl,fun i => ?_⟩
  rw [hi,List.getD_eq_getElem?_getD,List.getElem?_replicate]
  split <;> rfl

theorem mem_atomAchievers {i m : Nat} : m ∈ H.atomAchievers.getD i [] ↔
    ∃ manager, H.managers[m]? = some manager ∧ ∃ a ∈ manager.affectedAtoms,
      H.problem.tupleIndex.toIndex a = i := by
  rw [H.atomAchievers_spec.2.2 i,mem_achieverEntry,← List.enum_eq_enumFrom]
  simp only [List.mem_enum_iff_getElem?]

/-- The effect handler of an action of scenarios S2 and S3, with the one precondition atom `pre`
and the one effect atom `eff`: its CSP is consistent once `pre` is reached, and its support of
`eff` is `pre`. -/
def relayHandler {ix : StateAtomIndexer} (pre eff : Atom) : EffectHandler ix Unit where
  affectedAtoms := [eff]
  preinstantiate G := if pre ∈ G.reached then some () else none
  findAtomSupport _ a _ _ G := if a = eff ∧ pre ∈ G.reached then some [pre] else none

def singleStepHandler : EffectHandler Problem.singleStep.stateIndexer Unit := relayHandler ⟨0,1⟩ ⟨1,1⟩

def singleStep : UnreachedAtomRPG Unit where
  problem := Problem.singleStep
  managers := [singleStepHandler]
  affected_indexed := by simp [singleStepHandler,relayHandler,Problem.singleStep]

def chain : UnreachedAtomRPG Unit where
  problem := Problem.chain
  managers := [relayHandler ⟨0,1⟩ ⟨1,1⟩,relayHandler ⟨1,1⟩ ⟨2,1⟩]
  affected_indexed := by simp [relayHandler,Problem.chain]

end UnreachedAtomRPG

end FsPlanner
