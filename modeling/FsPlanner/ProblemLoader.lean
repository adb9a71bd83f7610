import FsPlanner.State
import FsPlanner.Language.Json

/-!
The problem loader (`utils/loader.cxx`): the initial state read from its JSON node, the loop
that loads the action schemas and the axioms, the string and number lists of a schema, and the
index of the axioms by name that `Problem::getAxiom` (`problem.hxx`) looks up. As in the light
loader, a failed rapidjson assertion is `LoadError.malformed`; so are the failed assertions of
`State::create` and of `StateAtomIndexer::set` (an atom on no variable of the indexer). The loader of one schema ends in the grounder, which is not in the sources, and
is an argument of the loop.
-/

set_option autoImplicit false

namespace FsPlanner

namespace Loader

open Light

def parseStringList (data : Json) : Except LoadError (List String) := do
  (← data.items).mapM Json.getString

theorem parseStringList_eq_ok {data : Json} {strs : List String} :
    parseStringList data = .ok strs ↔ data = .arr (strs.map .str) := by
  cases data with
  | arr items =>
    simp only [parseStringList,Json.items,ok_bind,mapM_eq_ok,Json.getString_eq_ok,Json.arr.injEq]
    rw [← List.forall₂_eq_eq_eq,List.forall₂_map_right_iff]
  | _ => simp [parseStringList,Json.items]

/-- The body of the loop of `loadState`: the node `[x, v]` is the atom `x = v`, both read with
`GetInt`, the variable converted to an `unsigned`. -/
def loadAtom (node : Json) : Except LoadError Atom := do
  let var ← (← node.index 0).getInt
  let value ← (← node.index 1).getInt
  return ⟨var.toNat,value.toInt⟩

/-- `Loader::loadState`: `"variables"` is the number of variables, `"atoms"` the atoms that
hold. -/
def loadState (H : Hasher) (indexer : StateAtomIndexer) (data : Json) :
    Except LoadError (State indexer) := do
  let numAtoms ← (← data.member "variables").getInt
  let facts ← (← (← data.member "atoms").items).mapM loadAtom
  match State.create H indexer numAtoms.toNat facts with
  | some state => .ok state
  | none => .error .malformed

/-- `AtomNode node a`: `node` is an array whose first two items are numbers `x` and `v` that fit
in an `int`, and `a` is the atom `x = v`, with `x` read as an `unsigned`. -/
def AtomNode (node : Json) (a : Atom) : Prop :=
  ∃ items x v, node = .arr items ∧ items[0]? = some (.num x) ∧ items[1]? = some (.num v) ∧
    (-2 ^ 31 ≤ x ∧ x < 2 ^ 31) ∧ (-2 ^ 31 ≤ v ∧ v < 2 ^ 31) ∧ a = ⟨(x % 2 ^ 32).toNat,v⟩

theorem toInt_ofInt_of_range {v : Int} (hv : -2 ^ 31 ≤ v ∧ v < 2 ^ 31) :
    (BitVec.ofInt 32 v).toInt = v := by
  rw [BitVec.toInt_ofInt,Int.bmod_def]
  split <;> omega

theorem loadAtom_eq_ok {node : Json} {a : Atom} : loadAtom node = .ok a ↔ AtomNode node a := by
  simp only [loadAtom,AtomNode,Json.index_bind_eq_ok,Json.getInt_bind_eq_ok,pure_eq_ok]
  constructor
  · rintro ⟨items,_,rfl,h0,x,rfl,hx,items',_,h',h1,v,rfl,hv,rfl⟩
    cases h'
    exact ⟨items,x,v,rfl,h0,h1,hx,hv,by simp [BitVec.toNat_ofInt,toInt_ofInt_of_range hv]⟩
  · rintro ⟨items,x,v,rfl,h0,h1,hx,hv,rfl⟩
    exact ⟨items,_,rfl,h0,x,rfl,hx,items,_,rfl,h1,v,rfl,hv,
      by simp [BitVec.toNat_ofInt,toInt_ofInt_of_range hv]⟩

theorem loadState_create_eq_ok {H : Hasher} {ix : StateAtomIndexer} {n : Nat} {atoms : List Atom}
    {s : State ix} :
    (match State.create H ix n atoms with
      | some state => Except.ok state
      | none => .error LoadError.malformed) = .ok s ↔
      n = ix.size ∧ (∀ a ∈ atoms, a.var < ix.size) ∧ State.ofAtoms H ix atoms = s := by
  rw [← State.create_eq_some]
  cases State.create H ix n atoms <;> simp

theorem loadState_of_atomNodes {H : Hasher} {ix : StateAtomIndexer} {data : Json} {n : Int}
    {nodes : List Json} {atoms : List Atom} (hv : data.field? "variables" = some (.num n))
    (hn : -2 ^ 31 ≤ n ∧ n < 2 ^ 31) (hsize : (n % 2 ^ 32).toNat = ix.size)
    (ha : data.field? "atoms" = some (.arr nodes)) (hatoms : List.Forall₂ AtomNode nodes atoms)
    (hvars : ∀ a ∈ atoms, a.var < ix.size) :
    loadState H ix data = .ok (State.ofAtoms H ix atoms) := by
  rw [loadState]
  refine Json.member_bind_eq_ok.mpr ⟨_,hv,Json.getInt_bind_eq_ok.mpr ⟨n,rfl,hn,
    Json.member_bind_eq_ok.mpr ⟨_,ha,Json.items_bind_eq_ok.mpr ⟨nodes,rfl,
      bind_eq_ok.mpr ⟨atoms,mapM_eq_ok.mpr (hatoms.imp fun _ _ => loadAtom_eq_ok.mpr),
        loadState_create_eq_ok.mpr ⟨?_,hvars,rfl⟩⟩⟩⟩⟩⟩
  simpa [BitVec.toNat_ofInt] using hsize

/-- `loadState` accepts exactly the nodes whose `"variables"` is the number of variables of the
indexer and whose `"atoms"` are atom nodes on variables of the indexer, and returns
`State(index, atoms)` of those atoms. -/
theorem loadState_eq_ok {H : Hasher} {ix : StateAtomIndexer} {data : Json} {s : State ix} :
    loadState H ix data = .ok s ↔
      ∃ n nodes atoms, data.field? "variables" = some (.num n) ∧ (-2 ^ 31 ≤ n ∧ n < 2 ^ 31) ∧
        (n % 2 ^ 32).toNat = ix.size ∧ data.field? "atoms" = some (.arr nodes) ∧
        List.Forall₂ AtomNode nodes atoms ∧ (∀ a ∈ atoms, a.var < ix.size) ∧
        s = State.ofAtoms H ix atoms := by
  constructor
  · intro h
    rw [loadState] at h
    obtain ⟨_,hv,h₁⟩ := Json.member_bind_eq_ok.mp h
    obtain ⟨n,rfl,hn,h₂⟩ := Json.getInt_bind_eq_ok.mp h₁
    obtain ⟨_,ha,h₃⟩ := Json.member_bind_eq_ok.mp h₂
    obtain ⟨nodes,rfl,h₄⟩ := Json.items_bind_eq_ok.mp h₃
    obtain ⟨atoms,hatoms,h₅⟩ := bind_eq_ok.mp h₄
    obtain ⟨hsize,hvars,rfl⟩ := loadState_create_eq_ok.mp h₅
    exact ⟨n,nodes,atoms,hv,hn,by simpa [BitVec.toNat_ofInt] using hsize,ha,
      (mapM_eq_ok.mp hatoms).imp fun _ _ => loadAtom_eq_ok.mp,hvars,rfl⟩
  · rintro ⟨n,nodes,atoms,hv,hn,hsize,ha,hatoms,hvars,rfl⟩
    exact loadState_of_atomNodes hv hn hsize ha hatoms hvars

/-- The node of a state over `n` variables in the format `loadState` reads: the number of
variables, and every variable with its value. -/
def initNode {ix : StateAtomIndexer} (s : State ix) (n : Nat) : Json :=
  .obj [("variables",.num n),
    ("atoms",.arr ((List.range n).map fun (v : Nat) => .arr [.num v,.num (s.getValue v)]))]

/-- Round trip of the initial-state format: every state whose values fit in an `int` is read
back from its own node, with its hash recomputed (so a state built by `state.cxx`, whose hash is
up to date, is read back as itself). -/
theorem loadState_initNode (H : Hasher) (layout : List Bool)
    (s : State (StateAtomIndexer.create layout)) (hn : layout.length < 2 ^ 31)
    (hvalues : ∀ v < layout.length, -2 ^ 31 ≤ s.getValue v ∧ s.getValue v < 2 ^ 31) :
    loadState H (StateAtomIndexer.create layout) (initNode s layout.length) = .ok (s.updateHash H) := by
  have hix := StateAtomIndexer.create_indexes layout
  have hfits : ∀ a ∈ (List.range layout.length).map (fun v => (⟨v,s.getValue v⟩ : Atom)),
      a.Fits layout := by
    simp only [List.mem_map,List.mem_range]
    rintro _ ⟨v,hv,rfl⟩
    exact ⟨hv,State.getValue_predicative hix s hv⟩
  have hvals := State.values_eq_of_getValue hix (s := s) (t := List.foldl State.set (State.zero _)
        ((List.range layout.length).map fun v => ⟨v,s.getValue v⟩)) fun v hv => by
      rw [State.getValue_foldl_set hix _ _ hfits hv,lastValueOn_range,if_pos hv,Option.getD_some]
  have hnodes : List.Forall₂ AtomNode
      ((List.range layout.length).map fun (v : Nat) => .arr [.num v,.num (s.getValue v)])
      ((List.range layout.length).map fun v => ⟨v,s.getValue v⟩) := by
    rw [List.forall₂_map_left_iff,List.forall₂_map_right_iff,List.forall₂_same]
    intro v hv
    have hv' := List.mem_range.mp hv
    exact ⟨_,v,_,rfl,rfl,rfl,by omega,hvalues v hv',by simp; omega⟩
  have hload : loadState H (StateAtomIndexer.create layout) (initNode s layout.length) =
      .ok (State.ofAtoms H _ ((List.range layout.length).map fun v => ⟨v,s.getValue v⟩)) :=
    loadState_of_atomNodes rfl (by omega) (by rw [hix.length]; omega) rfl hnodes
      fun a ha => hix.length ▸ (hfits a ha).1
  rw [hload]
  refine congrArg _ (State.eq_of_values ?_ ?_ ?_)
  exacts [hvals.1.symm,hvals.2.symm,by simp [State.ofAtoms,State.computeHash,hvals.1,hvals.2]]

theorem loadState_initNode_one_seven :
    loadState ⟨fun _ => 0,fun _ => 0,fun _ _ => 0⟩ (StateAtomIndexer.create [true,false])
      (initNode (((State.zero (StateAtomIndexer.create [true,false])).set ⟨0,1⟩).set ⟨1,7⟩) 2) =
        .ok ((((State.zero _).set ⟨0,1⟩).set ⟨1,7⟩).updateHash ⟨fun _ => 0,fun _ => 0,fun _ _ => 0⟩) :=
  loadState_initNode _ [true,false] _ (by decide) (by decide)


section ActionData

variable {α β : Type}

/-- `Loader::loadAllActionData`: the node at position `i` is loaded with `i` as its id (a
discarded schema, `nullptr`, is `none`), and the schemata that are not discarded are kept in
order. `Loader::loadActionData` ends in the grounder, which is not in the sources, and is an
argument. -/
def loadAllActionData (loadActionData : Json → Nat → Bool → Except LoadError (Option α))
    (data : Json) (loadEffects : Bool) : Except LoadError (List α) := do
  let schemata ← (← data.items).enum.mapM fun p => loadActionData p.2 p.1 loadEffects
  return schemata.filterMap id

/-- `Loader::loadAxioms`: the schemata loaded without their effects, each made an axiom by
`toAxiom` (the constructor `fs::Axiom` on the schema's name, signature, parameters, binding unit
and precondition). -/
def loadAxioms (loadActionData : Json → Nat → Bool → Except LoadError (Option α))
    (toAxiom : α → β) (data : Json) : Except LoadError (List β) := do
  return (← loadAllActionData loadActionData data false).map toAxiom

/-- `Loader::parseDoubleNumberList`, with the reader of one list as an argument: an empty array
is read as one empty list. -/
def parseDoubleNumberList (parseNumberList : Json → Except LoadError (List α)) (data : Json) :
    Except LoadError (List (List α)) := do
  let items ← data.items
  if items.length = 0 then return [[]] else items.mapM parseNumberList

theorem loadAllActionData_eq_ok {L : Json → Nat → Bool → Except LoadError (Option α)}
    {data : Json} {loadEffects : Bool} {out : List α} :
    loadAllActionData L data loadEffects = .ok out ↔
      ∃ (items : List Json) (results : List (Option α)), data = .arr items ∧
      List.Forall₂ (fun (p : Nat × Json) r => L p.2 p.1 loadEffects = .ok r) items.enum results ∧
      out = results.filterMap id := by
  constructor
  · intro h
    obtain ⟨items,rfl,h₁⟩ := Json.items_bind_eq_ok.mp h
    obtain ⟨results,hresults,h₂⟩ := bind_eq_ok.mp h₁
    exact ⟨items,results,rfl,mapM_eq_ok.mp hresults,(pure_eq_ok.mp h₂).symm⟩
  · rintro ⟨items,results,rfl,hresults,rfl⟩
    exact Json.items_bind_eq_ok.mpr ⟨items,rfl,bind_eq_ok.mpr ⟨results,mapM_eq_ok.mpr hresults,rfl⟩⟩

theorem mem_filterMap_of_forall₂ {γ : Type} {f : γ → Except LoadError (Option α)} {xs : List γ}
    {results : List (Option α)} (h : List.Forall₂ (fun x r => f x = .ok r) xs results) (a : α) :
    a ∈ results.filterMap id ↔ ∃ x ∈ xs, f x = .ok (some a) := by
  induction h with
  | nil => simp
  | @cons x r xs results hr _ ih =>
    simp only [List.mem_cons,or_and_right,exists_or,exists_eq_left,hr,← ih]
    cases r <;> simp [eq_comm]

theorem sublist_of_forall₂ {γ : Type} {f : γ → Except LoadError (Option α)} {g : α → Nat}
    {k : γ → Nat} (hf : ∀ x a, f x = .ok (some a) → g a = k x) {xs : List γ}
    {results : List (Option α)} (h : List.Forall₂ (fun x r => f x = .ok r) xs results) :
    ((results.filterMap id).map g).Sublist (xs.map k) := by
  induction h with
  | nil => exact .slnil
  | @cons x r xs results hr _ ih =>
    cases r with
    | none => exact ih.cons _
    | some b =>
      show (b :: results.filterMap id).map g |>.Sublist (k x :: xs.map k)
      rw [List.map_cons,hf x b hr]
      exact ih.cons₂ _

/-- `loadAllActionData` keeps exactly the schemata that the nodes of the array load to and that
are not discarded: when the loader gives each schema its position as id, the ids of the schemata
returned are positions of the array in increasing order, and a schema is returned if and only if
the node at its id loads to it. -/
theorem loadAllActionData_positions {L : Json → Nat → Bool → Except LoadError (Option α)}
    (idOf : α → Nat) (hL : ∀ node i e a, L node i e = .ok (some a) → idOf a = i) {data : Json}
    {loadEffects : Bool} {out : List α} (h : loadAllActionData L data loadEffects = .ok out) :
    ∃ items, data = .arr items ∧ (out.map idOf).Sublist (List.range items.length) ∧
      ∀ a, a ∈ out ↔ ∃ node, items[idOf a]? = some node ∧ L node (idOf a) loadEffects = .ok (some a) := by
  obtain ⟨items,results,rfl,hresults,rfl⟩ := loadAllActionData_eq_ok.mp h
  refine ⟨items,rfl,?_,fun a => ?_⟩
  · rw [← List.enum_map_fst]
    exact sublist_of_forall₂ (fun p a hp => hL p.2 p.1 loadEffects a hp) hresults
  · rw [mem_filterMap_of_forall₂ hresults]
    constructor
    · rintro ⟨⟨i,node⟩,hp,hload⟩
      cases hL _ _ _ _ hload
      exact ⟨node,List.mem_enum_iff_getElem?.mp hp,hload⟩
    · rintro ⟨node,hnode,hload⟩
      exact ⟨(idOf a,node),List.mem_enum_iff_getElem?.mpr hnode,hload⟩

theorem loadAllActionData_positions_null :
    ∃ items, Json.arr [.str "a",.null,.str "b"] = .arr items ∧
      (([0,2] : List Nat).map id).Sublist (List.range items.length) ∧
      ∀ a, a ∈ [0,2] ↔ ∃ node, items[id a]? = some node ∧
        (fun node i _ => .ok (match node with | .null => none | _ => some i) :
          Json → Nat → Bool → Except LoadError (Option Nat)) node (id a) false = .ok (some a) :=
  @loadAllActionData_positions _ (fun node i _ => .ok (match node with | .null => none | _ => some i)) id
    (fun node _ _ _ h => by cases node <;> cases h <;> rfl) _ false _ rfl

end ActionData

section Axioms

variable {α : Type} (getName : α → String)

/-- `_index_axioms`: the axioms by name, in an `unordered_map` whose `insert` keeps the entry a
name already has. -/
def indexAxioms (axioms : List α) : Std.HashMap String α :=
  axioms.foldl (fun index a => index.insertIfNew (getName a) a) ∅

def getAxiom (index : Std.HashMap String α) (name : String) : Option α := index[name]?

theorem getElem?_foldl_insertIfNew (axioms : List α) (index : Std.HashMap String α)
    (name : String) :
    (axioms.foldl (fun index a => index.insertIfNew (getName a) a) index)[name]? =
      index[name]?.or (axioms.find? fun a => getName a == name) := by
  induction axioms generalizing index with
  | nil => simp
  | cons a axioms ih =>
    rw [List.foldl_cons,ih,Std.HashMap.getElem?_insertIfNew,List.find?_cons]
    by_cases hname : getName a = name
    · subst hname
      have hmem : getName a ∈ index ↔ index[getName a]?.isSome := by
        rw [Std.HashMap.mem_iff_contains,Std.HashMap.contains_eq_isSome_getElem?]
      cases hx : index[getName a]? <;> simp_all
    · simp [hname,beq_false_of_ne hname]

/-- Looking a name up in the index of a list of axioms gives the first axiom of that name, and
`nullptr` when there is none: a later axiom never replaces an earlier one. -/
theorem getAxiom_indexAxioms (axioms : List α) (name : String) :
    getAxiom (indexAxioms getName axioms) name = axioms.find? fun a => getName a == name := by
  rw [getAxiom,indexAxioms,getElem?_foldl_insertIfNew,Std.HashMap.getElem?_emptyc,Option.none_or]

/-- The axiom that `Problem::getAxiom` finds under a name, in the index of the axioms that
`loadAxioms` loads, is made from the first schema, loaded without effects, whose axiom has that
name. -/
theorem getAxiom_loadAxioms {β : Type} {L : Json → Nat → Bool → Except LoadError (Option β)}
    {toAxiom : β → α} {data : Json} {axioms : List α}
    (h : loadAxioms L toAxiom data = .ok axioms) (name : String) :
    ∃ schemata, loadAllActionData L data false = .ok schemata ∧
      getAxiom (indexAxioms getName axioms) name =
        (schemata.find? fun schema => getName (toAxiom schema) == name).map toAxiom := by
  obtain ⟨schemata,hschemata,h'⟩ := bind_eq_ok.mp h
  cases pure_eq_ok.mp h'
  refine ⟨schemata,hschemata,?_⟩
  rw [getAxiom,indexAxioms,getElem?_foldl_insertIfNew,Std.HashMap.getElem?_emptyc,Option.none_or,
    List.find?_map]
  rfl

theorem getAxiom_loadAxioms_null :
    ∃ schemata, loadAllActionData (fun node i _ => .ok (match node with | .null => none | _ => some i))
        (.arr [.str "a",.null,.str "b"]) false = .ok schemata ∧
      getAxiom (indexAxioms toString [0,2]) "2" =
        (schemata.find? fun schema => toString (id schema) == "2").map id :=
  getAxiom_loadAxioms (L := fun node i _ => .ok (match node with | .null => none | _ => some i))
    toString (by rfl) "2"

end Axioms

end Loader

end FsPlanner
