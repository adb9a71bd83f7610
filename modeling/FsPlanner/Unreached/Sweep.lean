import FsPlanner.Unreached.Achievers

/-!
The atom sweep of one layer of `UnreachedAtomRPG::evaluate` (`unreached_atom_rpg.cxx`, lines 47
to 97): every atom not achieved yet asks its potential achievers in turn, and each handler's CSP
is instantiated at most once per layer (`cache` and `failure_cache`). The calls the sweep makes
on the handlers are kept as ghost state, so that what the two caches guarantee can be stated.
-/

set_option autoImplicit false

namespace FsPlanner

theorem append_singleton_eq_append {α : Type} {l pre post : List α} {e : α}
    (h : l ++ [e] = pre ++ post) : post = [] ∨ ∃ L, post = L ++ [e] ∧ l = pre ++ L := by
  rcases List.eq_nil_or_concat post with rfl | ⟨L,b,rfl⟩
  · exact .inl rfl
  · rw [List.concat_eq_append,← List.append_assoc] at h
    obtain ⟨h₁,h₂⟩ := List.append_inj' h rfl
    exact .inr ⟨L,by simp_all,h₁⟩

theorem append_singleton_eq_append_cons {α : Type} {l pre post : List α} {e x : α}
    (h : l ++ [e] = pre ++ x :: post) :
    (post = [] ∧ l = pre ∧ e = x) ∨ ∃ L, post = L ++ [e] ∧ l = pre ++ x :: L := by
  rcases append_singleton_eq_append h with h | ⟨L,hL,rfl⟩
  · simp at h
  · cases L with
    | nil => simp_all
    | cons y L =>
      simp only [List.cons_append,List.cons.injEq] at hL
      obtain ⟨rfl,rfl⟩ := hL
      exact .inr ⟨L,rfl,rfl⟩

namespace UnreachedAtomRPG

/-- A call of the sweep on a handler, with its arguments and its result:
`preinstantiate(graph)`, or `find_atom_support(atom_idx, atom, seed, csp, graph)` and whether
it found a support. -/
inductive Call (CSP : Type) where
  | preinstantiate (managerIdx : Nat) (graph : RPGIndex) (result : Option CSP)
  | findAtomSupport (managerIdx atomIdx : Nat) (atom : Atom) (csp : CSP) (graph : RPGIndex)
      (found : Bool)

namespace Call

variable {CSP : Type}

def managerIdx : Call CSP → Nat
  | preinstantiate m _ _ => m
  | findAtomSupport m _ _ _ _ _ => m

def graph : Call CSP → RPGIndex
  | preinstantiate _ G _ => G
  | findAtomSupport _ _ _ _ G _ => G

def preinstantiates (m : Nat) : Call CSP → Bool
  | preinstantiate m' _ _ => m' == m
  | findAtomSupport .. => false

theorem managerIdx_of_preinstantiates {m : Nat} {c : Call CSP} (h : c.preinstantiates m = true) :
    c.managerIdx = m := by
  cases c <;> simp_all [preinstantiates,managerIdx]

end Call

variable {CSP : Type}

/-- The call sequences that the two caches allow: a handler is instantiated only if no call
was made on it before, and its support is searched only with a CSP that its instantiation
returned. -/
inductive ValidCalls : List (Call CSP) → Prop
  | nil : ValidCalls []
  | preinstantiate {calls : List (Call CSP)} {m : Nat} {G : RPGIndex} {r : Option CSP} :
      ValidCalls calls → (∀ c ∈ calls, c.managerIdx ≠ m) →
        ValidCalls (calls ++ [.preinstantiate m G r])
  | findAtomSupport {calls : List (Call CSP)} {m i : Nat} {a : Atom} {csp : CSP} {G : RPGIndex}
      {b : Bool} : ValidCalls calls → (∃ G', .preinstantiate m G' (some csp) ∈ calls) →
        ValidCalls (calls ++ [.findAtomSupport m i a csp G b])

namespace ValidCalls

variable {calls : List (Call CSP)}

theorem preinstantiate_unique (h : ValidCalls calls) {m : Nat} {G G' : RPGIndex}
    {r r' : Option CSP} (h₁ : .preinstantiate m G r ∈ calls) (h₂ : .preinstantiate m G' r' ∈ calls) :
    G = G' ∧ r = r' := by
  induction h with
  | nil => simp at h₁
  | preinstantiate _ hfresh ih =>
    simp only [List.mem_append,List.mem_singleton,Call.preinstantiate.injEq] at h₁ h₂
    rcases h₁ with h₁ | ⟨rfl,rfl,rfl⟩
    · rcases h₂ with h₂ | ⟨rfl,rfl,rfl⟩
      · exact ih h₁ h₂
      · exact absurd rfl (hfresh _ h₁)
    · rcases h₂ with h₂ | ⟨-,rfl,rfl⟩
      · exact absurd rfl (hfresh _ h₂)
      · exact ⟨rfl,rfl⟩
  | findAtomSupport _ _ ih => simp_all

theorem count_preinstantiates_le (h : ValidCalls calls) (m : Nat) :
    (calls.filter (Call.preinstantiates m)).length ≤ 1 := by
  induction h with
  | nil => simp
  | @preinstantiate calls m' _ _ _ hfresh ih =>
    rw [List.filter_append,List.length_append]
    by_cases hm : m' = m
    · subst hm
      have : calls.filter (Call.preinstantiates m') = [] := List.filter_eq_nil_iff.mpr
        fun c hc hp => hfresh c hc (Call.managerIdx_of_preinstantiates hp)
      simp [this,Call.preinstantiates]
    · simpa [Call.preinstantiates,hm] using ih
  | findAtomSupport _ _ ih => simpa [Call.preinstantiates] using ih

theorem sticky (h : ValidCalls calls) {m : Nat} {G : RPGIndex} {pre post : List (Call CSP)}
    (he : calls = pre ++ post) (hf : .preinstantiate m G none ∈ pre) :
    ∀ c ∈ post, c.managerIdx ≠ m := by
  induction h generalizing post with
  | nil => simp_all
  | @preinstantiate calls m' _ _ hv hfresh ih =>
    rcases append_singleton_eq_append he with rfl | ⟨L,rfl,hL⟩
    · simp
    · intro c hc
      rcases List.mem_append.mp hc with hc | hc
      · exact ih hL c hc
      · rw [List.mem_singleton.mp hc]
        exact fun hm => hfresh _ (hL ▸ List.mem_append_left _ hf) (by
          simp only [Call.managerIdx] at hm ⊢; exact hm.symm)
  | @findAtomSupport calls m' _ _ csp _ _ hv hcached ih =>
    rcases append_singleton_eq_append he with rfl | ⟨L,rfl,hL⟩
    · simp
    · intro c hc
      rcases List.mem_append.mp hc with hc | hc
      · exact ih hL c hc
      · rw [List.mem_singleton.mp hc]
        rintro rfl
        obtain ⟨G',hG'⟩ := hcached
        cases (hv.preinstantiate_unique hG' (hL ▸ List.mem_append_left _ hf)).2

theorem find_cached (h : ValidCalls calls) {m i : Nat} {a : Atom} {csp : CSP} {G : RPGIndex}
    {b : Bool} {pre post : List (Call CSP)} (he : calls = pre ++ .findAtomSupport m i a csp G b :: post) :
    ∃ G', .preinstantiate m G' (some csp) ∈ pre := by
  induction h generalizing post with
  | nil => simp at he
  | preinstantiate _ _ ih =>
    rcases append_singleton_eq_append_cons he with ⟨-,-,h⟩ | ⟨L,rfl,hL⟩
    · cases h
    · exact ih hL
  | findAtomSupport _ hcached ih =>
    rcases append_singleton_eq_append_cons he with ⟨-,rfl,h⟩ | ⟨L,rfl,hL⟩
    · cases h; exact hcached
    · exact ih hL

end ValidCalls

/-- The state of the atom sweep of one layer: the graph, the local `achieved` vector, the two
caches of the layer, and, as ghost state, the calls made so far on the handlers. -/
structure SweepState (CSP : Type) where
  graph : RPGIndex
  achieved : List Bool
  cache : List (Option CSP)
  failureCache : List Bool
  calls : List (Call CSP)

variable (H : UnreachedAtomRPG CSP) (seed : State H.problem.stateIndexer)

/-- The CSP of handler `managerIdx` in this layer: the one in `cache`, or a fresh
`preinstantiate(graph)`, cached when consistent and marked in `failure_cache` when not. -/
def instantiate (manager : EffectHandler H.problem.stateIndexer CSP) (managerIdx : Nat)
    (st : SweepState CSP) : Option CSP × SweepState CSP :=
  match st.cache.getD managerIdx none with
  | some csp => (some csp,st)
  | none =>
    match manager.preinstantiate st.graph with
    | none =>
      (none,{ st with
        failureCache := st.failureCache.set managerIdx true
        calls := st.calls ++ [.preinstantiate managerIdx st.graph none] })
    | some csp =>
      (some csp,{ st with
        cache := st.cache.set managerIdx (some csp)
        calls := st.calls ++ [.preinstantiate managerIdx st.graph (some csp)] })

/-- The loop over the potential achievers of atom `atomIdx`, with `true` when one of them
supports it (the `break`). An index past the handlers, which the achievers index never holds,
is skipped. -/
def supportAtom (atomIdx : Nat) (atom : Atom) : List Nat → SweepState CSP → Bool × SweepState CSP
  | [],st => (false,st)
  | managerIdx :: achievers,st =>
    match H.managers[managerIdx]? with
    | none => supportAtom atomIdx atom achievers st
    | some manager =>
      if st.failureCache.getD managerIdx false then supportAtom atomIdx atom achievers st
      else
        match H.instantiate manager managerIdx st with
        | (none,st) => supportAtom atomIdx atom achievers st
        | (some csp,st) =>
          match manager.findAtomSupport atomIdx atom seed csp st.graph with
          | some witness =>
            (true,{ st with
              graph := st.graph.add atom managerIdx witness
              calls := st.calls ++ [.findAtomSupport managerIdx atomIdx atom csp st.graph true] })
          | none =>
            supportAtom atomIdx atom achievers { st with
              calls := st.calls ++ [.findAtomSupport managerIdx atomIdx atom csp st.graph false] }

def sweepAtom (st : SweepState CSP) (atomIdx : Nat) : SweepState CSP :=
  if st.achieved.getD atomIdx false then st
  else
    match H.supportAtom seed atomIdx (H.problem.tupleIndex.toAtom atomIdx)
        (H.atomAchievers.getD atomIdx []) st with
    | (true,st) => { st with achieved := st.achieved.set atomIdx true }
    | (false,st) => st

/-- The atom loop over the indices of `order`, with the empty caches of a new layer. -/
def sweepOver (order : List Nat) (graph : RPGIndex) (achieved : List Bool) : SweepState CSP :=
  order.foldl (H.sweepAtom seed)
    ⟨graph,achieved,List.replicate H.managers.length none,List.replicate H.managers.length false,[]⟩

def sweep (graph : RPGIndex) (achieved : List Bool) : SweepState CSP :=
  H.sweepOver seed (List.range achieved.length) graph achieved

def Faithful : Call CSP → Prop
  | .preinstantiate m G r => ∃ manager, H.managers[m]? = some manager ∧ manager.preinstantiate G = r
  | .findAtomSupport m i a csp G b => ∃ manager, H.managers[m]? = some manager ∧
      (manager.findAtomSupport i a seed csp G).isSome = b

/-- What holds of the sweep state throughout a layer that started from the graph `G₀`: the
graph is `G₀` with supports added; the calls so far are valid and faithful, and were made on
such graphs; the caches hold what the calls returned; a handler that was called is cached or
marked failed; the caches have one entry per handler. -/
structure SweepInv (G₀ : RPGIndex) (st : SweepState CSP) : Prop where
  graph : ∃ l, st.graph = G₀.addAll l
  valid : ValidCalls st.calls
  faithful : ∀ c ∈ st.calls, H.Faithful seed c
  callsGraph : ∀ c ∈ st.calls, ∃ l, c.graph = G₀.addAll l
  cached : ∀ m csp, st.cache.getD m none = some csp → ∃ G, .preinstantiate m G (some csp) ∈ st.calls
  failed : ∀ m, st.failureCache.getD m false = true → ∃ G, .preinstantiate m G none ∈ st.calls
  used : ∀ c ∈ st.calls, st.cache.getD c.managerIdx none ≠ none ∨
    st.failureCache.getD c.managerIdx false = true
  cacheLength : st.cache.length = H.managers.length
  failureLength : st.failureCache.length = H.managers.length

variable {H} {seed}

theorem sweepInv_init (graph : RPGIndex) (achieved : List Bool) :
    H.SweepInv seed graph ⟨graph,achieved,List.replicate H.managers.length none,
      List.replicate H.managers.length false,[]⟩ where
  graph := ⟨[],rfl⟩
  valid := .nil
  faithful := by simp
  callsGraph := by simp
  cached m csp h := by
    simp [List.getD_eq_getElem?_getD,List.getElem?_replicate] at h
    split at h <;> cases h
  failed m h := by
    simp [List.getD_eq_getElem?_getD,List.getElem?_replicate] at h
    split at h <;> simp at h
  used := by simp
  cacheLength := List.length_replicate _ _
  failureLength := List.length_replicate _ _

theorem SweepInv.reached {G₀ : RPGIndex} {st : SweepState CSP} (hinv : H.SweepInv seed G₀ st) :
    st.graph.reached = G₀.reached := by
  obtain ⟨l,hl⟩ := hinv.graph; rw [hl,RPGIndex.addAll_reached]

theorem SweepInv.fresh {G₀ : RPGIndex} {st : SweepState CSP} (hinv : H.SweepInv seed G₀ st)
    {m : Nat} (hc : st.cache.getD m none = none) (hf : st.failureCache.getD m false = false) :
    ∀ c ∈ st.calls, c.managerIdx ≠ m := fun c hc' hcm => by
  rcases hinv.used c hc' with h | h <;> simp_all

theorem SweepInv.instantiate {G₀ : RPGIndex} {st : SweepState CSP} (hinv : H.SweepInv seed G₀ st)
    {m : Nat} {manager : EffectHandler H.problem.stateIndexer CSP}
    (hm : H.managers[m]? = some manager) (hf : st.failureCache.getD m false = false)
    {r : Option CSP} {st' : SweepState CSP} (he : H.instantiate manager m st = (r,st')) :
    H.SweepInv seed G₀ st' ∧ st'.graph = st.graph ∧ st'.achieved = st.achieved ∧
      st.calls <+: st'.calls ∧ (∀ csp, r = some csp → st'.cache.getD m none = some csp) ∧
      (r = none → ∃ G, .preinstantiate m G none ∈ st'.calls) := by
  have hlt : m < H.managers.length := (List.getElem?_eq_some_iff.mp hm).1
  unfold UnreachedAtomRPG.instantiate at he
  cases hc : st.cache.getD m none with
  | some csp =>
    rw [hc] at he; cases he
    exact ⟨hinv,rfl,rfl,List.prefix_refl _,fun _ h => by cases h; exact hc,fun h => nomatch h⟩
  | none =>
    rw [hc] at he
    have hfresh := hinv.fresh hc hf
    have hcalls : ∀ r, manager.preinstantiate st.graph = r →
        (∀ c ∈ st.calls ++ [.preinstantiate m st.graph r], H.Faithful seed c) ∧
          ∀ c ∈ st.calls ++ [.preinstantiate m st.graph r], ∃ l, c.graph = G₀.addAll l := fun _ hp =>
      ⟨List.forall_mem_append.mpr ⟨hinv.faithful,List.forall_mem_singleton.mpr ⟨manager,hm,hp⟩⟩,
        List.forall_mem_append.mpr ⟨hinv.callsGraph,List.forall_mem_singleton.mpr hinv.graph⟩⟩
    cases hp : manager.preinstantiate st.graph with
    | none =>
      rw [hp] at he; cases he
      have hset := getD_set_of_lt (hinv.failureLength ▸ hlt)
      refine ⟨⟨hinv.graph,hinv.valid.preinstantiate hfresh,(hcalls _ hp).1,(hcalls _ hp).2,
        fun m' csp h => (hinv.cached m' csp h).imp fun _ => List.mem_append_left _,fun m' h => ?_,
        List.forall_mem_append.mpr ⟨fun c hc' => (hinv.used c hc').imp id fun h => ?_,
          List.forall_mem_singleton.mpr (.inr ?_)⟩,hinv.cacheLength,by simp [hinv.failureLength]⟩,
        rfl,rfl,List.prefix_append _ _,nofun,fun _ => ⟨st.graph,by simp⟩⟩
      · rw [hset] at h
        split at h
        · subst m'; exact ⟨st.graph,by simp⟩
        · exact (hinv.failed m' h).imp fun _ => List.mem_append_left _
      · rw [hset]; split; exacts [rfl,h]
      · show (st.failureCache.set m true).getD m false = true
        rw [hset,if_pos rfl]
    | some csp =>
      rw [hp] at he; cases he
      have hset := getD_set_of_lt (hinv.cacheLength ▸ hlt)
      refine ⟨⟨hinv.graph,hinv.valid.preinstantiate hfresh,(hcalls _ hp).1,(hcalls _ hp).2,
        fun m' csp' h => ?_,fun m' h => (hinv.failed m' h).imp fun _ => List.mem_append_left _,
        List.forall_mem_append.mpr ⟨fun c hc' => (hinv.used c hc').imp (fun h => ?_) id,
          List.forall_mem_singleton.mpr (.inl ?_)⟩,by simp [hinv.cacheLength],hinv.failureLength⟩,
        rfl,rfl,List.prefix_append _ _,fun _ h => by cases h; rw [hset,if_pos rfl],nofun⟩
      · rw [hset] at h
        split at h
        · subst m'; cases h; exact ⟨st.graph,by simp⟩
        · exact (hinv.cached m' csp' h).imp fun _ => List.mem_append_left _
      · rw [hset]; split; exacts [Option.some_ne_none _,h]
      · show (st.cache.set m (some csp)).getD m none ≠ none
        rw [hset,if_pos rfl]
        exact Option.some_ne_none _

theorem SweepInv.find {G₀ : RPGIndex} {st : SweepState CSP} (hinv : H.SweepInv seed G₀ st)
    {m i : Nat} {a : Atom} {csp : CSP} {manager : EffectHandler H.problem.stateIndexer CSP}
    (hm : H.managers[m]? = some manager) (hcache : st.cache.getD m none = some csp) {b : Bool}
    (hb : (manager.findAtomSupport i a seed csp st.graph).isSome = b) {G : RPGIndex}
    (hG : ∃ l, G = G₀.addAll l) :
    H.SweepInv seed G₀
      { st with
        graph := G
        calls := st.calls ++ [.findAtomSupport m i a csp st.graph b] } where
  graph := hG
  valid := hinv.valid.findAtomSupport (hinv.cached m csp hcache)
  faithful := List.forall_mem_append.mpr ⟨hinv.faithful,List.forall_mem_singleton.mpr ⟨manager,hm,hb⟩⟩
  callsGraph := List.forall_mem_append.mpr ⟨hinv.callsGraph,List.forall_mem_singleton.mpr hinv.graph⟩
  cached m' csp' h := (hinv.cached m' csp' h).imp fun _ => List.mem_append_left _
  failed m' h := (hinv.failed m' h).imp fun _ => List.mem_append_left _
  used := List.forall_mem_append.mpr ⟨hinv.used,List.forall_mem_singleton.mpr
    (.inl (by simp only [Call.managerIdx,hcache]; exact Option.some_ne_none _))⟩
  cacheLength := hinv.cacheLength
  failureLength := hinv.failureLength

variable (H seed) in
/-- What the loop over the achievers `achievers` of atom `i` guarantees, from state `st` to
state `st'` with result `b`: the invariant; calls are only added; `achieved` is untouched; on
failure the graph is unchanged and every achiever was consulted (its instantiation failed, now
or earlier in the layer, or its support search failed); on success the graph records the atom's
support from an achiever whose search succeeded. -/
structure SupportOutcome (G₀ : RPGIndex) (i : Nat) (a : Atom) (achievers : List Nat)
    (st : SweepState CSP) (b : Bool) (st' : SweepState CSP) : Prop where
  inv : H.SweepInv seed G₀ st'
  callsGrow : st.calls <+: st'.calls
  achieved : st'.achieved = st.achieved
  consulted : b = false → st'.graph = st.graph ∧ ∀ m ∈ achievers, ∀ manager,
    H.managers[m]? = some manager →
      (∃ G, .preinstantiate m G none ∈ st'.calls) ∨ ∃ csp G, .findAtomSupport m i a csp G false ∈ st'.calls
  supported : b = true → ∃ m ∈ achievers, ∃ w csp G, st'.graph = st.graph.add a m w ∧
    .findAtomSupport m i a csp G true ∈ st'.calls

theorem SweepInv.supportAtom {G₀ : RPGIndex} (i : Nat) (a : Atom) : ∀ (achievers : List Nat)
    {st st' : SweepState CSP} {b : Bool}, H.SweepInv seed G₀ st →
    H.supportAtom seed i a achievers st = (b,st') → H.SupportOutcome seed G₀ i a achievers st b st'
  | [],st,st',b,hinv,he => by
    simp only [UnreachedAtomRPG.supportAtom,Prod.mk.injEq] at he
    obtain ⟨rfl,rfl⟩ := he
    exact ⟨hinv,⟨[],List.append_nil _⟩,rfl,fun _ => ⟨rfl,by simp⟩,nofun⟩
  | m :: rest,st,st',b,hinv,he => by
    have cont : ∀ st₁ : SweepState CSP, H.SweepInv seed G₀ st₁ → st.calls <+: st₁.calls →
        st₁.graph = st.graph → st₁.achieved = st.achieved →
        (∀ manager, H.managers[m]? = some manager → (∃ G, .preinstantiate m G none ∈ st₁.calls) ∨
          ∃ csp G, .findAtomSupport m i a csp G false ∈ st₁.calls) →
        H.supportAtom seed i a rest st₁ = (b,st') → H.SupportOutcome seed G₀ i a (m :: rest) st b st' := by
      intro st₁ hinv₁ hp₁ hg₁ ha₁ hm₁ he₁
      obtain ⟨hinv',hp',ha',hfalse,htrue⟩ := hinv₁.supportAtom i a rest he₁
      refine ⟨hinv',hp₁.trans hp',ha'.trans ha₁,fun hb => ⟨(hfalse hb).1.trans hg₁,?_⟩,fun hb => ?_⟩
      · simp only [List.mem_cons]
        rintro m' (rfl | hm') manager hman
        · rcases hm₁ manager hman with ⟨G,hG⟩ | ⟨csp,G,hG⟩
          · exact .inl ⟨G,hp'.subset hG⟩
          · exact .inr ⟨csp,G,hp'.subset hG⟩
        · exact (hfalse hb).2 m' hm' manager hman
      · obtain ⟨m',hm',w,csp,G,hg,hc⟩ := htrue hb
        exact ⟨m',List.mem_cons_of_mem _ hm',w,csp,G,hg.trans (by rw [hg₁]),hc⟩
    simp only [UnreachedAtomRPG.supportAtom] at he
    cases hman : H.managers[m]? with
    | none =>
      simp only [hman] at he
      exact cont st hinv ⟨[],List.append_nil _⟩ rfl rfl (fun _ h => by cases hman.symm.trans h) he
    | some manager =>
      simp only [hman] at he
      by_cases hf : st.failureCache.getD m false = true
      · rw [if_pos hf] at he
        refine cont st hinv ⟨[],List.append_nil _⟩ rfl rfl (fun _ h => ?_) he
        cases hman.symm.trans h
        exact .inl (hinv.failed m hf)
      · rw [if_neg hf] at he
        simp only [Bool.not_eq_true] at hf
        cases hi : H.instantiate manager m st with
        | mk r st₁ =>
          obtain ⟨hinv₁,hg₁,ha₁,hp₁,hsome,hnone⟩ := hinv.instantiate hman hf hi
          rw [hi] at he
          cases r with
          | none =>
            refine cont st₁ hinv₁ hp₁ hg₁ ha₁ (fun _ h => ?_) he
            cases hman.symm.trans h
            exact .inl (hnone rfl)
          | some csp =>
            have hcache := hsome csp rfl
            dsimp only at he
            cases hfind : manager.findAtomSupport i a seed csp st₁.graph with
            | none =>
              rw [hfind] at he
              refine cont _ (hinv₁.find hman hcache (by rw [hfind]; rfl) hinv₁.graph)
                (hp₁.trans ⟨_,rfl⟩) hg₁ ha₁ (fun _ h => ?_) he
              cases hman.symm.trans h
              exact .inr ⟨csp,st₁.graph,by simp⟩
            | some w =>
              rw [hfind] at he
              simp only [Prod.mk.injEq] at he
              obtain ⟨rfl,rfl⟩ := he
              have hg : ∃ l, st₁.graph.add a m w = G₀.addAll l := by
                obtain ⟨l,hl⟩ := hinv₁.graph
                exact ⟨_,by rw [hl,RPGIndex.addAll_add]⟩
              exact ⟨hinv₁.find hman hcache (by rw [hfind]; rfl) hg,
                hp₁.trans ⟨_,rfl⟩,ha₁,nofun,fun _ => ⟨m,List.mem_cons_self _ _,w,csp,
                st₁.graph,by rw [hg₁],by simp⟩⟩

theorem SweepInv.setAchieved {G₀ : RPGIndex} {st : SweepState CSP} (hinv : H.SweepInv seed G₀ st)
    (achieved : List Bool) : H.SweepInv seed G₀ { st with achieved := achieved } :=
  ⟨hinv.1,hinv.2,hinv.3,hinv.4,hinv.5,hinv.6,hinv.7,hinv.8,hinv.9⟩

theorem SweepInv.sweepAtom_cases {G₀ : RPGIndex} {st : SweepState CSP}
    (hinv : H.SweepInv seed G₀ st) (i : Nat) :
    (st.achieved.getD i false = true ∧ H.sweepAtom seed st i = st) ∨
    (st.achieved.getD i false = false ∧ ∃ b st', H.SupportOutcome seed G₀ i
      (H.problem.tupleIndex.toAtom i) (H.atomAchievers.getD i []) st b st' ∧
      H.sweepAtom seed st i = if b then { st' with achieved := st'.achieved.set i true } else st') := by
  unfold UnreachedAtomRPG.sweepAtom
  by_cases ha : st.achieved.getD i false = true
  · exact .inl ⟨ha,if_pos ha⟩
  · refine .inr ⟨by simpa using ha,?_⟩
    rw [if_neg ha]
    cases hs : H.supportAtom seed i (H.problem.tupleIndex.toAtom i) (H.atomAchievers.getD i []) st with
    | mk b st' => exact ⟨b,st',hinv.supportAtom i _ _ hs,by cases b <;> rfl⟩

variable (H seed) in
/-- What the atom loop guarantees once it has visited the indices `visited`, from the graph
`G₀` and the vector `achieved₀`: the invariant; the graph is `G₀` with the supports of the
atoms newly achieved, each found by a successful search; an atom is achieved when it was at
the start or was newly achieved; and a visited atom left unachieved consulted every achiever. -/
structure SweepProgress (G₀ : RPGIndex) (achieved₀ : List Bool) (visited : List Nat)
    (st : SweepState CSP) : Prop where
  inv : H.SweepInv seed G₀ st
  length : st.achieved.length = achieved₀.length
  newly : ∃ newly : List (Nat × Nat × List Atom),
    st.graph = G₀.addAll (newly.map fun t => (H.problem.tupleIndex.toAtom t.1,t.2)) ∧
    (∀ t ∈ newly, t.1 ∈ visited ∧ achieved₀.getD t.1 false = false ∧
      ∃ csp G, .findAtomSupport t.2.1 t.1 (H.problem.tupleIndex.toAtom t.1) csp G true ∈ st.calls) ∧
    ∀ j, st.achieved.getD j false = true ↔ achieved₀.getD j false = true ∨ j ∈ newly.map Prod.fst
  consulted : ∀ i ∈ visited, st.achieved.getD i false = false → ∀ m ∈ H.atomAchievers.getD i [],
    ∀ manager, H.managers[m]? = some manager → (∃ G, .preinstantiate m G none ∈ st.calls) ∨
      ∃ csp G, .findAtomSupport m i (H.problem.tupleIndex.toAtom i) csp G false ∈ st.calls

theorem SweepProgress.sweepAtom {G₀ : RPGIndex} {achieved₀ : List Bool} {visited : List Nat}
    {st : SweepState CSP} (hp : H.SweepProgress seed G₀ achieved₀ visited st) {i : Nat}
    (hi : i < achieved₀.length) :
    H.SweepProgress seed G₀ achieved₀ (visited ++ [i]) (H.sweepAtom seed st i) := by
  obtain ⟨hinv,hlen,⟨newly,hg,hnew,hach⟩,hcons⟩ := hp
  rcases hinv.sweepAtom_cases i with ⟨ha,he⟩ | ⟨ha,b,st',hout,he⟩
  · rw [he]
    refine ⟨hinv,hlen,⟨newly,hg,fun t ht => ?_,hach⟩,fun i' hi' ha' => ?_⟩
    · obtain ⟨h₁,h₂⟩ := hnew t ht; exact ⟨List.mem_append_left _ h₁,h₂⟩
    · rcases List.mem_append.mp hi' with hi' | hi'
      · exact hcons i' hi' ha'
      · obtain rfl := List.mem_singleton.mp hi'
        rw [ha] at ha'; cases ha'
  · have hgrow := hout.callsGrow.subset
    cases b with
    | false =>
      rw [he,if_neg Bool.false_ne_true]
      obtain ⟨hg',hall⟩ := hout.consulted rfl
      refine ⟨hout.inv,hout.achieved ▸ hlen,⟨newly,hg'.trans hg,fun t ht => ?_,
        hout.achieved ▸ hach⟩,fun i' hi' ha' => ?_⟩
      · obtain ⟨h₁,h₂,csp,G,hc⟩ := hnew t ht
        exact ⟨List.mem_append_left _ h₁,h₂,csp,G,hgrow hc⟩
      · rcases List.mem_append.mp hi' with hi' | hi'
        · intro m hm manager hman
          rcases hcons i' hi' (hout.achieved ▸ ha') m hm manager hman with ⟨G,hG⟩ | ⟨csp,G,hG⟩
          · exact .inl ⟨G,hgrow hG⟩
          · exact .inr ⟨csp,G,hgrow hG⟩
        · rw [List.mem_singleton.mp hi']
          exact fun m hm manager hman => hall m hm manager hman
    | true =>
      rw [he,if_pos rfl]
      obtain ⟨m,-,w,csp,G,hg',hc⟩ := hout.supported rfl
      have hlen' : i < st'.achieved.length := by rw [hout.achieved,hlen]; exact hi
      have hset : ∀ j, (st'.achieved.set i true).getD j false =
          if i = j then true else st.achieved.getD j false := fun j => by
        rw [getD_set_of_lt hlen',hout.achieved]
      refine ⟨hout.inv.setAchieved _,by simp [hout.achieved,hlen],⟨newly ++ [(i,m,w)],?_,?_,?_⟩,?_⟩
      · rw [hg',hg,RPGIndex.addAll_add,List.map_append]; rfl
      · simp only [List.mem_append,List.mem_singleton]
        rintro t (ht | rfl)
        · obtain ⟨h₁,h₂,csp',G',hc'⟩ := hnew t ht
          exact ⟨.inl h₁,h₂,csp',G',hgrow hc'⟩
        · refine ⟨.inr rfl,Bool.eq_false_iff.mpr fun h => ?_,csp,G,hc⟩
          rw [(hach i).mpr (.inl h)] at ha; cases ha
      · intro j
        dsimp only
        rw [hset,List.map_append,List.mem_append]
        by_cases hij : i = j
        · subst hij; simp
        · have : j ∉ [(i,m,w)].map Prod.fst := by simp [Ne.symm hij]
          rw [if_neg hij,hach j]
          simp only [this,or_false]
      · intro i' hi' ha' m hm manager hman
        dsimp only at ha'
        rw [hset] at ha'
        by_cases hij : i = i'
        · simp [hij] at ha'
        · rw [if_neg hij] at ha'
          rcases List.mem_append.mp hi' with hi' | hi'
          · rcases hcons i' hi' ha' m hm manager hman with ⟨G',hG'⟩ | ⟨csp',G',hG'⟩
            · exact .inl ⟨G',hgrow hG'⟩
            · exact .inr ⟨csp',G',hgrow hG'⟩
          · exact absurd (List.mem_singleton.mp hi').symm hij

theorem SweepProgress.foldl {G₀ : RPGIndex} {achieved₀ : List Bool} : ∀ (order visited : List Nat)
    {st : SweepState CSP}, H.SweepProgress seed G₀ achieved₀ visited st →
    (∀ i ∈ order, i < achieved₀.length) →
    H.SweepProgress seed G₀ achieved₀ (visited ++ order) (order.foldl (H.sweepAtom seed) st)
  | [],visited,_,hp,_ => by simpa using hp
  | i :: order,visited,_,hp,hord => by
    have := SweepProgress.foldl order (visited ++ [i])
      (hp.sweepAtom (hord i (List.mem_cons_self _ _))) fun j hj => hord j (List.mem_cons_of_mem _ hj)
    simpa using this

theorem sweepOver_progress (graph : RPGIndex) (achieved : List Bool) (order : List Nat)
    (hord : ∀ i ∈ order, i < achieved.length) :
    H.SweepProgress seed graph achieved order (H.sweepOver seed order graph achieved) := by
  have : H.SweepProgress seed graph achieved ([] ++ order) (H.sweepOver seed order graph achieved) :=
    SweepProgress.foldl order [] ⟨sweepInv_init graph achieved,rfl,⟨[],rfl,by simp,by simp⟩,by simp⟩ hord
  simpa using this

theorem SweepInv.preinstantiated {G₀ : RPGIndex} {st : SweepState CSP}
    (hinv : H.SweepInv seed G₀ st) {m : Nat} {G : RPGIndex} {r : Option CSP}
    (h : .preinstantiate m G r ∈ st.calls) :
    ∃ manager l, H.managers[m]? = some manager ∧ manager.preinstantiate (G₀.addAll l) = r ∧
      .preinstantiate m (G₀.addAll l) r ∈ st.calls := by
  obtain ⟨manager,hm,hp⟩ := hinv.faithful _ h
  obtain ⟨l,hl : G = G₀.addAll l⟩ := hinv.callsGraph _ h
  subst hl
  exact ⟨manager,l,hm,hp,h⟩

variable (H seed)

theorem sweep_progress (graph : RPGIndex) (achieved : List Bool) :
    H.SweepProgress seed graph achieved (List.range achieved.length) (H.sweep seed graph achieved) :=
  sweepOver_progress graph achieved _ fun _ => List.mem_range.mp

/-- The two caches of a layer, whatever the handlers answer: `preinstantiate` is called at
most once per handler; once it has failed for a handler, no further call is made on that
handler; every support search on a handler gets the CSP that the handler's instantiation
returned earlier in the same layer. And since `sweepOver` starts each layer with empty caches,
no failure mark and no call, every CSP the caches hold at the end of the layer and every
failure mark is what the handler's `preinstantiate` returned, in this layer, on the layer's
graph with supports of this layer added: nothing is carried over from an earlier layer. -/
theorem sweep_calls (graph : RPGIndex) (achieved : List Bool) :
    (∀ m, ((H.sweep seed graph achieved).calls.filter (Call.preinstantiates m)).length ≤ 1) ∧
    (∀ m G pre post, (H.sweep seed graph achieved).calls = pre ++ post →
      .preinstantiate m G none ∈ pre → ∀ c ∈ post, c.managerIdx ≠ m) ∧
    (∀ m i a csp G b pre post,
      (H.sweep seed graph achieved).calls = pre ++ .findAtomSupport m i a csp G b :: post →
        ∃ G', .preinstantiate m G' (some csp) ∈ pre) ∧
    (∀ m csp, (H.sweep seed graph achieved).cache.getD m none = some csp →
      ∃ manager l, H.managers[m]? = some manager ∧ manager.preinstantiate (graph.addAll l) = some csp ∧
        .preinstantiate m (graph.addAll l) (some csp) ∈ (H.sweep seed graph achieved).calls) ∧
    ∀ m, (H.sweep seed graph achieved).failureCache.getD m false = true →
      ∃ manager l, H.managers[m]? = some manager ∧ manager.preinstantiate (graph.addAll l) = none ∧
        .preinstantiate m (graph.addAll l) none ∈ (H.sweep seed graph achieved).calls := by
  have hinv := (H.sweep_progress seed graph achieved).inv
  refine ⟨hinv.valid.count_preinstantiates_le,fun _ _ _ _ he hf => hinv.valid.sticky he hf,
    fun _ _ _ _ _ _ _ _ he => hinv.valid.find_cached he,
    fun m csp h => (hinv.cached m csp h).elim fun _ => hinv.preinstantiated,
    fun m h => (hinv.failed m h).elim fun _ => hinv.preinstantiated⟩

/-- The achievers index has one entry per atom of the index; entry `i` lists, in order and
in range, exactly the handlers with an affected atom of index `i`. So a layer leaves an atom
of the index unachieved only after consulting each handler that may affect it: its
instantiation failed in the layer, or its support search for the atom failed. -/
theorem atomAchievers_complete (graph : RPGIndex) (achieved : List Bool)
    (hlen : achieved.length = H.problem.tupleIndex.size) :
    buildAchieversIndex H.problem.tupleIndex H.managers = some H.atomAchievers ∧
    H.atomAchievers.length = H.problem.tupleIndex.size ∧
    (∀ i m, m ∈ H.atomAchievers.getD i [] ↔ ∃ manager, H.managers[m]? = some manager ∧
      ∃ a ∈ manager.affectedAtoms, H.problem.tupleIndex.toIndex a = i) ∧
    (∀ i, (H.atomAchievers.getD i []).Sorted (· ≤ ·)) ∧
    ((∀ m ∈ H.managers, m.affectedAtoms.Nodup) → ∀ i, (H.atomAchievers.getD i []).Sorted (· < ·)) ∧
    (∀ i, ∀ m ∈ H.atomAchievers.getD i [], m < H.managers.length) ∧
    ∀ i < H.problem.tupleIndex.size, (H.sweep seed graph achieved).achieved.getD i false = false →
      ∀ m manager, H.managers[m]? = some manager →
        H.problem.tupleIndex.toAtom i ∈ manager.affectedAtoms →
        (∃ G, .preinstantiate m G none ∈ (H.sweep seed graph achieved).calls) ∨
        ∃ csp G, .findAtomSupport m i (H.problem.tupleIndex.toAtom i) csp G false ∈
          (H.sweep seed graph achieved).calls := by
  obtain ⟨hbuild,hl,hentry⟩ := H.atomAchievers_spec
  refine ⟨hbuild,hl,fun i m => H.mem_atomAchievers,fun i => hentry i ▸
    (achieverEntry_sorted _ i 0 H.managers).1,fun hn i => hentry i ▸
    (achieverEntry_sorted _ i 0 H.managers).2 fun m hm => ⟨hn m hm,H.affected_indexed m hm⟩,
    fun i m hm => ?_,fun i hi ha m manager hman haff => ?_⟩
  · obtain ⟨manager,hman,-⟩ := H.mem_atomAchievers.mp hm
    exact (List.getElem?_eq_some_iff.mp hman).1
  · refine (H.sweep_progress seed graph achieved).consulted i (List.mem_range.mpr (hlen ▸ hi)) ha m
      (H.mem_atomAchievers.mpr ⟨manager,hman,_,haff,?_⟩) manager hman
    exact AtomIndex.toIndex_toAtom hi

theorem singleStep_achiever_of_goal_atom : 0 ∈ singleStep.atomAchievers.getD 3 [] :=
  ((atomAchievers_complete singleStep Problem.singleStepSeed (RPGIndex.ofState Problem.singleStepSeed)
    ((RPGIndex.ofState Problem.singleStepSeed).achievedAtoms Problem.singleStep.tupleIndex)
    (RPGIndex.length_achievedAtoms _ _)).2.2.1 3 0).mpr ⟨singleStepHandler,rfl,⟨1,1⟩,by simp [singleStepHandler,relayHandler],rfl⟩

/-- `build_achievers_index` throws (`none`) on the handler of scenario S2 made to affect
`x₂ = 0`, an atom outside the index, and gives the entry `[0, 0]`, not increasing, to the
handler made to list `q = 1` twice. -/
theorem buildAchieversIndex_unindexed_throws :
    buildAchieversIndex Problem.singleStep.tupleIndex
        [{ singleStepHandler with affectedAtoms := [⟨2,0⟩] }] = none ∧
      buildAchieversIndex Problem.singleStep.tupleIndex
        [{ singleStepHandler with affectedAtoms := [⟨1,1⟩,⟨1,1⟩] }] = some [[],[],[],[0,0]] :=
  ⟨rfl,rfl⟩

end UnreachedAtomRPG

end FsPlanner
