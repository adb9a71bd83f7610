import FsPlanner.Language.Light

/-!
The light loader (`light_loader.cxx`): formulas and terms of the light language read from the
JSON trees of the problem description. `parseFormula` and `parseTerm` dispatch on the node's
`"type"` and throw `std::runtime_error` on a type they do not know; a member that is missing or
of the wrong kind fails a rapidjson assertion.
-/

set_option autoImplicit false

namespace FsPlanner

namespace Light

def parseVariables (info : ProblemInfo) (tree : Json) : Except LoadError (List LogicalVariable) := do
  (← tree.items).mapM fun node => do
    let id ← (← node.index 0).getUint
    let name ← (← node.index 1).getString
    let typeName ← (← node.index 2).getString
    return ⟨id,name,info.getTypeId typeName⟩

mutual

def parseTermList (info : ProblemInfo) (tree : Json) : Except LoadError (List Term) :=
  match tree with
  | .arr items => items.attach.mapM fun item => parseTerm info item.1
  | _ => .error .malformed
termination_by sizeOf tree
decreasing_by
  simp_wf
  have := List.sizeOf_lt_of_mem item.2
  omega

/-- `Loader::parseTerm`. -/
def parseTerm (info : ProblemInfo) (tree : Json) : Except LoadError Term := do
  let termType ← (← tree.member "type").getString
  if termType = "constant" ∨ termType = "int_constant" then
    let value ← (← tree.member "value").getInt
    let typeName ← (← tree.member "typename").getString
    return .constant value (info.getTypeId typeName)
  else if termType = "variable" then
    let position ← (← tree.member "position").getInt
    let name ← (← tree.member "name").getString
    let typeName ← (← tree.member "typename").getString
    return .logicalVariable ⟨position,name,info.getTypeId typeName⟩
  else if termType = "functional" then
    let symbol ← (← tree.member "symbol").getString
    tree.memberWith "children" fun children _h => do
      return .functional (info.getSymbolId symbol) (← parseTermList info children)
  else
    throw (.runtimeError ("Unknown term type " ++ termType))
termination_by sizeOf tree
decreasing_by exact _h

end

mutual

def parseFormulaList (info : ProblemInfo) (tree : Json) : Except LoadError (List Formula) :=
  match tree with
  | .arr items => items.attach.mapM fun item => parseFormula info item.1
  | _ => .error .malformed
termination_by sizeOf tree
decreasing_by
  simp_wf
  have := List.sizeOf_lt_of_mem item.2
  omega

/-- `Loader::parseFormula`. The `negated` flag of an atom is read, and then not used. -/
def parseFormula (info : ProblemInfo) (tree : Json) : Except LoadError Formula := do
  let formulaType ← (← tree.member "type").getString
  if formulaType = "and" ∨ formulaType = "or" ∨ formulaType = "not" then
    tree.memberWith "children" fun children _h => do
      return .openFormula (toConnective formulaType) (← parseFormulaList info children)
  else if formulaType = "exists" ∨ formulaType = "forall" then
    let vars ← parseVariables info (← tree.member "variables")
    tree.memberWith "subformula" fun subformula _h => do
      return .quantified (toQuantifier formulaType) vars (← parseFormula info subformula)
  else if formulaType = "atom" then
    let symbol ← (← tree.member "symbol").getString
    let _negated ← (← tree.member "negated").getBool
    let subterms ← parseTermList info (← tree.member "children")
    return .atomic (info.getSymbolId symbol) subterms
  else if formulaType = "tautology" then
    return .tautology
  else if formulaType = "contradiction" then
    return .contradiction
  else
    throw (.runtimeError ("Unknown formula type \"" ++ formulaType ++ "\""))
termination_by sizeOf tree
decreasing_by all_goals exact _h

end

theorem parseTermList_arr (info : ProblemInfo) (items : List Json) :
    parseTermList info (.arr items) = items.mapM (parseTerm info) := by
  rw [parseTermList,mapM_subtype,List.attach_map_subtype_val]

theorem parseFormulaList_arr (info : ProblemInfo) (items : List Json) :
    parseFormulaList info (.arr items) = items.mapM (parseFormula info) := by
  rw [parseFormulaList,mapM_subtype,List.attach_map_subtype_val]

def termTypes : List String := ["constant","int_constant","variable","functional"]

def formulaTypes : List String :=
  ["and","or","not","exists","forall","atom","tautology","contradiction"]

/-! One equation per branch of the dispatch on `"type"`: the proofs below read a node through
these and never unfold the parsers again. -/

section Branches

variable {info : ProblemInfo} {tree : Json} {termType formulaType : String}

theorem parseTerm_constant (htype : tree.field? "type" = some (.str termType))
    (hconstant : termType = "constant" ∨ termType = "int_constant") :
    parseTerm info tree = do
      let value ← (← tree.member "value").getInt
      let typeName ← (← tree.member "typename").getString
      return .constant value (info.getTypeId typeName) := by
  rw [parseTerm,Json.member_of_field? htype]
  simp only [ok_bind,Json.getString,if_pos hconstant]

theorem parseTerm_variable (htype : tree.field? "type" = some (.str "variable")) :
    parseTerm info tree = do
      let position ← (← tree.member "position").getInt
      let name ← (← tree.member "name").getString
      let typeName ← (← tree.member "typename").getString
      return .logicalVariable ⟨position,name,info.getTypeId typeName⟩ := by
  rw [parseTerm,Json.member_of_field? htype]
  simp only [ok_bind,Json.getString,String.reduceEq,or_self,if_false,if_true]

theorem parseTerm_functional (htype : tree.field? "type" = some (.str "functional")) :
    parseTerm info tree = (do
      let symbol ← (← tree.member "symbol").getString
      tree.memberWith "children" fun children _ => do
        return .functional (info.getSymbolId symbol) (← parseTermList info children)) := by
  rw [parseTerm,Json.member_of_field? htype]
  simp only [ok_bind,Json.getString,String.reduceEq,or_self,if_false,if_true]

theorem parseTerm_unknown (htype : tree.field? "type" = some (.str termType))
    (hunknown : termType ∉ termTypes) :
    parseTerm info tree = .error (.runtimeError ("Unknown term type " ++ termType)) := by
  simp only [termTypes,List.mem_cons,List.mem_singleton,not_or] at hunknown
  obtain ⟨h1,h2,h3,h4,-⟩ := hunknown
  rw [parseTerm,Json.member_of_field? htype]
  simp only [ok_bind,Json.getString,h1,h2,h3,h4,or_self,if_false,throw_eq_error]

theorem parseFormula_openFormula (htype : tree.field? "type" = some (.str formulaType))
    (hconnective : formulaType = "and" ∨ formulaType = "or" ∨ formulaType = "not") :
    parseFormula info tree = tree.memberWith "children" fun children _ => do
      return .openFormula (toConnective formulaType) (← parseFormulaList info children) := by
  rw [parseFormula,Json.member_of_field? htype]
  simp only [ok_bind,Json.getString,if_pos hconnective]

theorem parseFormula_quantified (htype : tree.field? "type" = some (.str formulaType))
    (hquantifier : formulaType = "exists" ∨ formulaType = "forall") :
    parseFormula info tree = (do
      let vars ← parseVariables info (← tree.member "variables")
      tree.memberWith "subformula" fun subformula _ => do
        return .quantified (toQuantifier formulaType) vars (← parseFormula info subformula)) := by
  have hconnective : ¬(formulaType = "and" ∨ formulaType = "or" ∨ formulaType = "not") := by
    rcases hquantifier with rfl | rfl <;> decide
  rw [parseFormula,Json.member_of_field? htype]
  simp only [ok_bind,Json.getString,if_neg hconnective,if_pos hquantifier]

theorem parseFormula_atom (htype : tree.field? "type" = some (.str "atom")) :
    parseFormula info tree = do
      let symbol ← (← tree.member "symbol").getString
      let _negated ← (← tree.member "negated").getBool
      let subterms ← parseTermList info (← tree.member "children")
      return .atomic (info.getSymbolId symbol) subterms := by
  rw [parseFormula,Json.member_of_field? htype]
  simp only [ok_bind,Json.getString,String.reduceEq,or_self,if_false,if_true]

theorem parseFormula_tautology (htype : tree.field? "type" = some (.str "tautology")) :
    parseFormula info tree = .ok .tautology := by
  rw [parseFormula,Json.member_of_field? htype]
  simp only [ok_bind,Json.getString,String.reduceEq,or_self,if_false,if_true]
  rfl

theorem parseFormula_contradiction (htype : tree.field? "type" = some (.str "contradiction")) :
    parseFormula info tree = .ok .contradiction := by
  rw [parseFormula,Json.member_of_field? htype]
  simp only [ok_bind,Json.getString,String.reduceEq,or_self,if_false,if_true]
  rfl

theorem parseFormula_unknown (htype : tree.field? "type" = some (.str formulaType))
    (hunknown : formulaType ∉ formulaTypes) :
    parseFormula info tree =
      .error (.runtimeError ("Unknown formula type \"" ++ formulaType ++ "\"")) := by
  simp only [formulaTypes,List.mem_cons,List.mem_singleton,not_or] at hunknown
  obtain ⟨h1,h2,h3,h4,h5,h6,h7,h8,-⟩ := hunknown
  rw [parseFormula,Json.member_of_field? htype]
  simp only [ok_bind,Json.getString,h1,h2,h3,h4,h5,h6,h7,h8,or_self,if_false,throw_eq_error]

end Branches

/-- `TermMirrors info tree t`: the term node `tree` has a type that `parseTerm` knows and the
members that type reads, and `t` mirrors it; the children of a functional node mirror its
subterms, in order. -/
inductive TermMirrors (info : ProblemInfo) : Json → Term → Prop
  | constant {tree : Json} {termType typeName : String} {n : Int} :
      tree.field? "type" = some (.str termType) →
      termType = "constant" ∨ termType = "int_constant" →
      tree.field? "value" = some (.num n) → -2 ^ 31 ≤ n ∧ n < 2 ^ 31 →
      tree.field? "typename" = some (.str typeName) →
      TermMirrors info tree (.constant (BitVec.ofInt 32 n) (info.getTypeId typeName))
  | logicalVariable {tree : Json} {name typeName : String} {n : Int} :
      tree.field? "type" = some (.str "variable") →
      tree.field? "position" = some (.num n) → -2 ^ 31 ≤ n ∧ n < 2 ^ 31 →
      tree.field? "name" = some (.str name) → tree.field? "typename" = some (.str typeName) →
      TermMirrors info tree (.logicalVariable ⟨BitVec.ofInt 32 n,name,info.getTypeId typeName⟩)
  | functional {tree : Json} {symbol : String} {items : List Json} {children : List Term} :
      tree.field? "type" = some (.str "functional") → tree.field? "symbol" = some (.str symbol) →
      tree.field? "children" = some (.arr items) → List.Forall₂ (TermMirrors info) items children →
      TermMirrors info tree (.functional (info.getSymbolId symbol) children)

theorem parseTerm_of_termMirrors {info : ProblemInfo} {tree : Json} {t : Term}
    (h : TermMirrors info tree t) : parseTerm info tree = .ok t := by
  cases h with
  | constant htype hconst hvalue hrange htypename =>
    rw [parseTerm_constant htype hconst,Json.member_of_field? hvalue]
    simp [Json.member_of_field? htypename,Json.getString,Json.getInt_num hrange]
  | logicalVariable htype hposition hrange hname htypename =>
    rw [parseTerm_variable htype,Json.member_of_field? hposition]
    simp [Json.member_of_field? hname,Json.member_of_field? htypename,Json.getString,
      Json.getInt_num hrange]
  | @functional _ symbol items children htype hsymbol hchildren hitems =>
    have hlist : parseTermList info (.arr items) = .ok children := by
      rw [parseTermList_arr,mapM_eq_ok]
      exact forall₂_imp_of_mem hitems fun item hitem _ hm => parseTerm_of_termMirrors hm
    rw [parseTerm_functional htype,Json.member_of_field? hsymbol]
    simp [Json.getString,Json.memberWith_of_field? hchildren,hlist]
termination_by sizeOf tree
decreasing_by
  subst_vars
  exact Json.sizeOf_lt_of_mem_field? hchildren hitem

/-- How an atom node is read, from its symbol id, its subterms and its `negated` flag. -/
abbrev AtomReading := Nat → List Term → Bool → Formula

def loaderAtom : AtomReading := fun symbolId subterms _ => .atomic symbolId subterms

def specAtom : AtomReading := fun symbolId subterms negated =>
  if negated then .openFormula .negation [.atomic symbolId subterms] else .atomic symbolId subterms

/-- `Mirrors readAtom info tree f`: the formula node `tree` has a type that `parseFormula` knows
and the members that type reads, and `f` mirrors it, with its atom nodes read by `readAtom`: an
`and`, `or` or `not` node is the open formula of that connective over its children in order, a
quantifier node quantifies its subformula over the listed variables. -/
inductive Mirrors (readAtom : AtomReading) (info : ProblemInfo) : Json → Formula → Prop
  | openFormula {tree : Json} {formulaType : String} {items : List Json}
      {subformulae : List Formula} :
      tree.field? "type" = some (.str formulaType) →
      formulaType = "and" ∨ formulaType = "or" ∨ formulaType = "not" →
      tree.field? "children" = some (.arr items) →
      List.Forall₂ (Mirrors readAtom info) items subformulae →
      Mirrors readAtom info tree (.openFormula (toConnective formulaType) subformulae)
  | quantified {tree : Json} {formulaType : String} {node subtree : Json}
      {vars : List LogicalVariable} {subformula : Formula} :
      tree.field? "type" = some (.str formulaType) → formulaType = "exists" ∨ formulaType = "forall" →
      tree.field? "variables" = some node → parseVariables info node = .ok vars →
      tree.field? "subformula" = some subtree → Mirrors readAtom info subtree subformula →
      Mirrors readAtom info tree (.quantified (toQuantifier formulaType) vars subformula)
  | atom {tree : Json} {symbol : String} {negated : Bool} {items : List Json}
      {subterms : List Term} :
      tree.field? "type" = some (.str "atom") → tree.field? "symbol" = some (.str symbol) →
      tree.field? "negated" = some (.bool negated) → tree.field? "children" = some (.arr items) →
      List.Forall₂ (TermMirrors info) items subterms →
      Mirrors readAtom info tree (readAtom (info.getSymbolId symbol) subterms negated)
  | tautology {tree : Json} :
      tree.field? "type" = some (.str "tautology") → Mirrors readAtom info tree .tautology
  | contradiction {tree : Json} :
      tree.field? "type" = some (.str "contradiction") → Mirrors readAtom info tree .contradiction

theorem parseTermList_of_forall₂ {info : ProblemInfo} {items : List Json} {subterms : List Term}
    (h : List.Forall₂ (TermMirrors info) items subterms) :
    parseTermList info (.arr items) = .ok subterms := by
  rw [parseTermList_arr,mapM_eq_ok]
  exact h.imp fun _ _ => parseTerm_of_termMirrors

theorem parseFormula_atom_of_fields {info : ProblemInfo} {tree : Json} {symbol : String}
    {negated : Bool} {items : List Json} {subterms : List Term}
    (htype : tree.field? "type" = some (.str "atom")) (hsymbol : tree.field? "symbol" = some (.str symbol))
    (hnegated : tree.field? "negated" = some (.bool negated))
    (hchildren : tree.field? "children" = some (.arr items))
    (hsubterms : parseTermList info (.arr items) = .ok subterms) :
    parseFormula info tree = .ok (.atomic (info.getSymbolId symbol) subterms) := by
  rw [parseFormula_atom htype,Json.member_of_field? hsymbol]
  simp [Json.member_of_field? hnegated,Json.member_of_field? hchildren,Json.getString,Json.getBool,
    hsubterms]

theorem parseFormula_of_mirrors {info : ProblemInfo} {tree : Json} {f : Formula}
    (h : Mirrors loaderAtom info tree f) : parseFormula info tree = .ok f := by
  cases h with
  | @openFormula _ formulaType items subformulae htype hconnective hchildren hitems =>
    have hlist : parseFormulaList info (.arr items) = .ok subformulae := by
      rw [parseFormulaList_arr,mapM_eq_ok]
      exact forall₂_imp_of_mem hitems fun item hitem _ hm => parseFormula_of_mirrors hm
    rw [parseFormula_openFormula htype hconnective,Json.memberWith_of_field? hchildren]
    simp [hlist]
  | @quantified _ formulaType node subtree vars subformula htype hquantifier hnode hvars hsubtree hm =>
    have hsub := parseFormula_of_mirrors hm
    rw [parseFormula_quantified htype hquantifier,Json.member_of_field? hnode]
    simp [hvars,Json.memberWith_of_field? hsubtree,hsub]
  | atom htype hsymbol hnegated hchildren hitems =>
    exact parseFormula_atom_of_fields htype hsymbol hnegated hchildren (parseTermList_of_forall₂ hitems)
  | tautology htype => exact parseFormula_tautology htype
  | contradiction htype => exact parseFormula_contradiction htype
termination_by sizeOf tree
decreasing_by
  all_goals subst_vars
  · exact Json.sizeOf_lt_of_mem_field? hchildren hitem
  · exact Json.sizeOf_lt_of_field? hsubtree

theorem parseFormula_of_mirrors_conjunction :
    parseFormula ⟨fun _ => 0,fun _ => 0⟩
        (.obj [("type",.str "and"),("children",.arr [.obj [("type",.str "tautology")]])]) =
      .ok (.openFormula .conjunction [.tautology]) := by
  apply parseFormula_of_mirrors
  exact @Mirrors.openFormula loaderAtom _ _ "and" _ _ rfl (.inl rfl) rfl (.cons (.tautology rfl) .nil)

def negatedAtomNode : Json :=
  .obj [("type",.str "atom"),("symbol",.str "p"),("negated",.bool true),("children",.arr [])]

/-- On a negated atom node the loader returns the atom itself, where the spec's reading is its
negation: under every interpretation and binding, one of the two holds and the other does not. -/
theorem parseFormula_negated_atom (info : ProblemInfo) :
    Mirrors specAtom info negatedAtomNode
      (.openFormula .negation [.atomic (info.getSymbolId "p") []]) ∧
    parseFormula info negatedAtomNode = .ok (.atomic (info.getSymbolId "p") []) ∧
    ∀ (I : Interpretation) (binding : Binding),
      (Formula.atomic (info.getSymbolId "p") []).holds I binding ≠
        (Formula.openFormula .negation [.atomic (info.getSymbolId "p") []]).holds I binding := by
  refine ⟨@Mirrors.atom specAtom info negatedAtomNode "p" true [] [] rfl rfl rfl rfl .nil,?_,
    fun I binding => ?_⟩
  · exact parseFormula_atom_of_fields rfl rfl rfl rfl (parseTermList_of_forall₂ .nil)
  · cases h : I.predicate (info.getSymbolId "p") [] <;>
      simp [Formula.holds,Formula.holds.allHold,h]

/-- What the loader does on a tree it can read: it throws a `runtime_error` when `unknown`
holds, and returns a result when it does not. -/
def Outcome {β : Type} (unknown : Prop) (r : Except LoadError β) : Prop :=
  (unknown ∧ ∃ what, r = .error (.runtimeError what)) ∨ (¬unknown ∧ ∃ b, r = .ok b)

namespace Outcome

variable {α β γ : Type} {unknown : Prop} {r : Except LoadError β}

theorem map (h : Outcome unknown r) (f : β → γ) : Outcome unknown (f <$> r) := by
  rcases h with ⟨hu,what,rfl⟩ | ⟨hu,b,rfl⟩
  exacts [.inl ⟨hu,what,rfl⟩,.inr ⟨hu,f b,rfl⟩]

theorem congr {unknown' : Prop} (h : Outcome unknown r) (hu : unknown ↔ unknown') :
    Outcome unknown' r := by
  rw [Outcome,← hu]
  exact h

theorem bind {v : Prop} {k : β → Except LoadError γ} (h : Outcome unknown r)
    (hk : ∀ b, r = .ok b → Outcome v (k b)) : Outcome (unknown ∨ v) (r >>= k) := by
  rcases h with ⟨hu,what,rfl⟩ | ⟨hu,b,rfl⟩
  · exact .inl ⟨.inl hu,what,rfl⟩
  · rcases hk b rfl with ⟨hv,what,hkb⟩ | ⟨hv,c,hkb⟩
    exacts [.inl ⟨.inr hv,what,hkb⟩,.inr ⟨fun h => h.elim hu hv,c,hkb⟩]

theorem bind_ok {k : β → Except LoadError γ} (h : Outcome unknown r)
    (hk : ∀ b, ∃ c, k b = .ok c) : Outcome unknown (r >>= k) := by
  rcases h with ⟨hu,what,rfl⟩ | ⟨hu,b,rfl⟩
  · exact .inl ⟨hu,what,rfl⟩
  · obtain ⟨c,hc⟩ := hk b
    exact .inr ⟨hu,c,hc⟩

theorem mapM {f : α → Except LoadError β} {P : α → Prop} {xs : List α}
    (h : ∀ x ∈ xs, Outcome (P x) (f x)) : Outcome (∃ x ∈ xs, P x) (xs.mapM f) := by
  induction xs with
  | nil => exact .inr ⟨by simp,[],rfl⟩
  | cons x xs ih =>
    rw [List.mapM_cons]
    rcases h x (List.mem_cons_self x xs) with ⟨hx,what,hfx⟩ | ⟨hx,y,hfx⟩
    · exact .inl ⟨⟨x,List.mem_cons_self x xs,hx⟩,what,by simp [hfx]⟩
    · rcases ih fun x' hx' => h x' (List.mem_cons_of_mem x hx') with
        ⟨⟨x',hx',hu⟩,what,hys⟩ | ⟨hu,ys,hys⟩
      · exact .inl ⟨⟨x',List.mem_cons_of_mem x hx',hu⟩,what,by simp only [hfx,hys,ok_bind,error_bind]⟩
      · refine .inr ⟨?_,y :: ys,by simp only [hfx,hys,ok_bind]; rfl⟩
        simp only [List.mem_cons,exists_eq_or_imp,not_or]
        exact ⟨hx,hu⟩

/-- What a shaped tree gives the caller: `Outcome` rules out a failed assertion, and says that
the loader throws a `runtime_error` exactly when `unknown` holds. -/
theorem throws_iff (h : Outcome unknown r) :
    r ≠ .error .malformed ∧ ((∃ what, r = .error (.runtimeError what)) ↔ unknown) := by
  rcases h with ⟨hu,what,rfl⟩ | ⟨hu,b,rfl⟩ <;> simp [hu]

end Outcome

/-- `TermShaped info tree`: the term node `tree` has a string `"type"`. A node of a type that
`parseTerm` knows mirrors a term, or is a functional node with its members and shaped children;
a node of another type may hold anything else. -/
inductive TermShaped (info : ProblemInfo) : Json → Prop
  | unknown {tree : Json} {termType : String} :
      tree.field? "type" = some (.str termType) → termType ∉ termTypes → TermShaped info tree
  | mirrors {tree : Json} {t : Term} : TermMirrors info tree t → TermShaped info tree
  | functional {tree : Json} {symbol : String} {items : List Json} :
      tree.field? "type" = some (.str "functional") → tree.field? "symbol" = some (.str symbol) →
      tree.field? "children" = some (.arr items) → (∀ item ∈ items, TermShaped info item) →
      TermShaped info tree

inductive TermUnknown : Json → Prop
  | here {tree : Json} {termType : String} :
      tree.field? "type" = some (.str termType) → termType ∉ termTypes → TermUnknown tree
  | child {tree item : Json} {items : List Json} :
      tree.field? "type" = some (.str "functional") → tree.field? "children" = some (.arr items) →
      item ∈ items → TermUnknown item → TermUnknown tree

theorem not_termUnknown_of_termMirrors {info : ProblemInfo} {tree : Json} {t : Term}
    (hm : TermMirrors info tree t) : ¬TermUnknown tree := by
  intro hu
  induction hu generalizing t with
  | here htype hnot =>
    cases hm with
    | constant htype' hconst =>
      rcases hconst with rfl | rfl <;> exact hnot (by simp [termTypes,Json.field?_str_inj htype htype'])
    | logicalVariable htype' => exact hnot (by simp [termTypes,Json.field?_str_inj htype htype'])
    | functional htype' => exact hnot (by simp [termTypes,Json.field?_str_inj htype htype'])
  | child htype hchildren hitem _ ih =>
    cases hm with
    | constant htype' hconst =>
      rcases hconst with rfl | rfl <;> exact absurd (Json.field?_str_inj htype htype') (by decide)
    | logicalVariable htype' => exact absurd (Json.field?_str_inj htype htype') (by decide)
    | functional _ _ hchildren' hitems =>
      cases Json.field?_arr_inj hchildren hchildren'
      obtain ⟨t',ht'⟩ := exists_of_forall₂_of_mem hitems hitem
      exact ih ht'

theorem termUnknown_iff_child {tree : Json} {items : List Json}
    (htype : tree.field? "type" = some (.str "functional"))
    (hchildren : tree.field? "children" = some (.arr items)) :
    TermUnknown tree ↔ ∃ item ∈ items, TermUnknown item := by
  constructor
  · rintro (⟨htype',hnot⟩ | ⟨_,hchildren',hitem,hu⟩)
    · exact absurd (by simp [termTypes,Json.field?_str_inj htype' htype]) hnot
    · cases Json.field?_arr_inj hchildren hchildren'
      exact ⟨_,hitem,hu⟩
  · rintro ⟨item,hitem,hu⟩
    exact .child htype hchildren hitem hu

theorem parseTerm_outcome {info : ProblemInfo} {tree : Json} (h : TermShaped info tree) :
    Outcome (TermUnknown tree) (parseTerm info tree) := by
  induction h with
  | unknown htype hnot => exact .inl ⟨.here htype hnot,_,parseTerm_unknown htype hnot⟩
  | mirrors hm => exact .inr ⟨not_termUnknown_of_termMirrors hm,_,parseTerm_of_termMirrors hm⟩
  | @functional _ symbol items htype hsymbol hchildren _ ih =>
    have h := ((Outcome.mapM ih).map (Term.functional (info.getSymbolId symbol))).congr
      (termUnknown_iff_child htype hchildren).symm
    rw [parseTerm_functional htype,Json.member_of_field? hsymbol]
    simpa [Json.getString,Json.memberWith_of_field? hchildren,parseTermList_arr] using h

/-- `Shaped info tree`: the formula node `tree` has a string `"type"`. A node of a type that
`parseFormula` knows has the members that type reads, and shaped children; a node of another
type may hold anything else. -/
inductive Shaped (info : ProblemInfo) : Json → Prop
  | unknown {tree : Json} {formulaType : String} :
      tree.field? "type" = some (.str formulaType) → formulaType ∉ formulaTypes → Shaped info tree
  | openFormula {tree : Json} {formulaType : String} {items : List Json} :
      tree.field? "type" = some (.str formulaType) →
      formulaType = "and" ∨ formulaType = "or" ∨ formulaType = "not" →
      tree.field? "children" = some (.arr items) → (∀ item ∈ items, Shaped info item) →
      Shaped info tree
  | quantified {tree : Json} {formulaType : String} {node subtree : Json}
      {vars : List LogicalVariable} :
      tree.field? "type" = some (.str formulaType) → formulaType = "exists" ∨ formulaType = "forall" →
      tree.field? "variables" = some node → parseVariables info node = .ok vars →
      tree.field? "subformula" = some subtree → Shaped info subtree → Shaped info tree
  | atom {tree : Json} {symbol : String} {negated : Bool} {items : List Json} :
      tree.field? "type" = some (.str "atom") → tree.field? "symbol" = some (.str symbol) →
      tree.field? "negated" = some (.bool negated) → tree.field? "children" = some (.arr items) →
      (∀ item ∈ items, TermShaped info item) → Shaped info tree
  | tautology {tree : Json} : tree.field? "type" = some (.str "tautology") → Shaped info tree
  | contradiction {tree : Json} : tree.field? "type" = some (.str "contradiction") → Shaped info tree

/-- `Unknown tree`: some formula or term node of `tree` has a type that its parser does not
know. -/
inductive Unknown : Json → Prop
  | here {tree : Json} {formulaType : String} :
      tree.field? "type" = some (.str formulaType) → formulaType ∉ formulaTypes → Unknown tree
  | child {tree item : Json} {formulaType : String} {items : List Json} :
      tree.field? "type" = some (.str formulaType) →
      formulaType = "and" ∨ formulaType = "or" ∨ formulaType = "not" →
      tree.field? "children" = some (.arr items) → item ∈ items → Unknown item → Unknown tree
  | subformula {tree subtree : Json} {formulaType : String} :
      tree.field? "type" = some (.str formulaType) → formulaType = "exists" ∨ formulaType = "forall" →
      tree.field? "subformula" = some subtree → Unknown subtree → Unknown tree
  | term {tree item : Json} {items : List Json} :
      tree.field? "type" = some (.str "atom") → tree.field? "children" = some (.arr items) →
      item ∈ items → TermUnknown item → Unknown tree

section UnknownCases

variable {tree : Json} {formulaType : String}

theorem unknown_iff_child {items : List Json} (htype : tree.field? "type" = some (.str formulaType))
    (hconnective : formulaType = "and" ∨ formulaType = "or" ∨ formulaType = "not")
    (hchildren : tree.field? "children" = some (.arr items)) :
    Unknown tree ↔ ∃ item ∈ items, Unknown item := by
  constructor
  · rintro (⟨htype',hnot⟩ | ⟨htype',_,hchildren',hitem,hu⟩ | ⟨htype',hquantifier⟩ | ⟨htype'⟩) <;>
      have := Json.field?_str_inj htype htype' <;> subst_vars
    · rcases hconnective with rfl | rfl | rfl <;> simp [formulaTypes] at hnot
    · cases Json.field?_arr_inj hchildren hchildren'
      exact ⟨_,hitem,hu⟩
    all_goals rcases hconnective with h | h | h <;> simp_all
  · rintro ⟨item,hitem,hu⟩
    exact .child htype hconnective hchildren hitem hu

theorem unknown_iff_subformula {subtree : Json}
    (htype : tree.field? "type" = some (.str formulaType))
    (hquantifier : formulaType = "exists" ∨ formulaType = "forall")
    (hsubtree : tree.field? "subformula" = some subtree) : Unknown tree ↔ Unknown subtree := by
  constructor
  · rintro (⟨htype',hnot⟩ | ⟨htype',hconnective⟩ | ⟨htype',_,hsubtree',hu⟩ | ⟨htype'⟩) <;>
      have := Json.field?_str_inj htype htype' <;> subst_vars
    · rcases hquantifier with rfl | rfl <;> simp [formulaTypes] at hnot
    · rcases hquantifier with h | h <;> simp_all
    · cases hsubtree.symm.trans hsubtree'
      exact hu
    · simp at hquantifier
  · exact .subformula htype hquantifier hsubtree

theorem unknown_iff_term {items : List Json} (htype : tree.field? "type" = some (.str "atom"))
    (hchildren : tree.field? "children" = some (.arr items)) :
    Unknown tree ↔ ∃ item ∈ items, TermUnknown item := by
  constructor
  · rintro (⟨htype',hnot⟩ | ⟨htype',hconnective⟩ | ⟨htype',hquantifier⟩ | ⟨_,hchildren',hitem,hu⟩)
    · cases Json.field?_str_inj htype htype'
      simp [formulaTypes] at hnot
    · cases Json.field?_str_inj htype htype'
      simp at hconnective
    · cases Json.field?_str_inj htype htype'
      simp at hquantifier
    · cases Json.field?_arr_inj hchildren hchildren'
      exact ⟨_,hitem,hu⟩
  · rintro ⟨item,hitem,hu⟩
    exact .term htype hchildren hitem hu

theorem not_unknown_of_constant (htype : tree.field? "type" = some (.str formulaType))
    (hconstant : formulaType = "tautology" ∨ formulaType = "contradiction") : ¬Unknown tree := by
  rintro (⟨htype',hnot⟩ | ⟨htype',hconnective⟩ | ⟨htype',hquantifier⟩ | ⟨htype'⟩) <;>
    have := Json.field?_str_inj htype htype' <;> subst_vars <;>
    rcases hconstant with h | h <;> simp_all [formulaTypes]

end UnknownCases

theorem parseFormula_outcome {info : ProblemInfo} {tree : Json} (h : Shaped info tree) :
    Outcome (Unknown tree) (parseFormula info tree) := by
  induction h with
  | unknown htype hnot => exact .inl ⟨.here htype hnot,_,parseFormula_unknown htype hnot⟩
  | @openFormula _ formulaType items htype hconnective hchildren _ ih =>
    have h := ((Outcome.mapM ih).map (Formula.openFormula (toConnective formulaType))).congr
      (unknown_iff_child htype hconnective hchildren).symm
    rw [parseFormula_openFormula htype hconnective,Json.memberWith_of_field? hchildren]
    simpa [parseFormulaList_arr] using h
  | @quantified _ formulaType node subtree vars htype hquantifier hnode hvars hsubtree _ ih =>
    have h := (ih.map (Formula.quantified (toQuantifier formulaType) vars)).congr
      (unknown_iff_subformula htype hquantifier hsubtree).symm
    rw [parseFormula_quantified htype hquantifier,Json.member_of_field? hnode]
    simpa [hvars,Json.memberWith_of_field? hsubtree] using h
  | @atom _ symbol negated items htype hsymbol hnegated hchildren hitems =>
    have h := ((Outcome.mapM fun item hitem => parseTerm_outcome (hitems item hitem)).map
      (Formula.atomic (info.getSymbolId symbol))).congr (unknown_iff_term htype hchildren).symm
    rw [parseFormula_atom htype,Json.member_of_field? hsymbol]
    simpa [Json.member_of_field? hnegated,Json.member_of_field? hchildren,Json.getString,
      Json.getBool,parseTermList_arr] using h
  | tautology htype =>
    exact .inr ⟨not_unknown_of_constant htype (.inl rfl),_,parseFormula_tautology htype⟩
  | contradiction htype =>
    exact .inr ⟨not_unknown_of_constant htype (.inr rfl),_,parseFormula_contradiction htype⟩

/-- On every tree whose nodes have the members their types read, `parseTerm` and `parseFormula`
never fail an assertion, and throw a `runtime_error` exactly when some node has a type that its
parser does not know. -/
theorem parse_throws_iff_unknown (info : ProblemInfo) :
    (∀ tree, TermShaped info tree → parseTerm info tree ≠ .error .malformed ∧
      ((∃ what, parseTerm info tree = .error (.runtimeError what)) ↔ TermUnknown tree)) ∧
    (∀ tree, Shaped info tree → parseFormula info tree ≠ .error .malformed ∧
      ((∃ what, parseFormula info tree = .error (.runtimeError what)) ↔ Unknown tree)) :=
  ⟨fun _ h => (parseTerm_outcome h).throws_iff,fun _ h => (parseFormula_outcome h).throws_iff⟩

/-! Soundness: whatever the loader returns mirrors the tree it read, so a tree is accepted
exactly when it mirrors its result. -/

theorem parseTermList_eq_ok {info : ProblemInfo} {tree : Json} {ts : List Term} :
    parseTermList info tree = .ok ts ↔
      ∃ items, tree = .arr items ∧ List.Forall₂ (fun item t => parseTerm info item = .ok t) items ts := by
  refine ⟨fun h => ?_,fun ⟨items,htree,h⟩ => by rw [htree,parseTermList_arr,mapM_eq_ok]; exact h⟩
  cases tree with
  | arr items => exact ⟨items,rfl,mapM_eq_ok.mp ((parseTermList_arr info items).symm.trans h)⟩
  | _ =>
    rw [parseTermList] at h
    · cases h
    · exact fun _ => nofun

theorem parseFormulaList_eq_ok {info : ProblemInfo} {tree : Json} {fs : List Formula} :
    parseFormulaList info tree = .ok fs ↔
      ∃ items, tree = .arr items ∧
        List.Forall₂ (fun item f => parseFormula info item = .ok f) items fs := by
  refine ⟨fun h => ?_,fun ⟨items,htree,h⟩ => by rw [htree,parseFormulaList_arr,mapM_eq_ok]; exact h⟩
  cases tree with
  | arr items => exact ⟨items,rfl,mapM_eq_ok.mp ((parseFormulaList_arr info items).symm.trans h)⟩
  | _ =>
    rw [parseFormulaList] at h
    · cases h
    · exact fun _ => nofun

theorem termMirrors_of_parseTerm {info : ProblemInfo} {tree : Json} {t : Term}
    (h : parseTerm info tree = .ok t) : TermMirrors info tree t := by
  obtain ⟨termType,htype⟩ := Json.exists_type_of_ok (by rwa [parseTerm] at h)
  by_cases hconstant : termType = "constant" ∨ termType = "int_constant"
  · rw [parseTerm_constant htype hconstant] at h
    simp only [Json.member_bind_eq_ok,Json.getInt_bind_eq_ok,Json.getString_bind_eq_ok,
      pure_eq_ok] at h
    obtain ⟨_,hvalue,n,rfl,hrange,_,htypename,typeName,rfl,rfl⟩ := h
    exact .constant htype hconstant hvalue hrange htypename
  by_cases hvariable : termType = "variable"
  · subst hvariable
    rw [parseTerm_variable htype] at h
    simp only [Json.member_bind_eq_ok,Json.getInt_bind_eq_ok,Json.getString_bind_eq_ok,
      pure_eq_ok] at h
    obtain ⟨_,hposition,n,rfl,hrange,_,hname,name,rfl,_,htypename,typeName,rfl,rfl⟩ := h
    exact .logicalVariable htype hposition hrange hname htypename
  by_cases hfunctional : termType = "functional"
  · subst hfunctional
    rw [parseTerm_functional htype] at h
    simp only [Json.member_bind_eq_ok,Json.getString_bind_eq_ok,Json.memberWith_eq_ok] at h
    obtain ⟨_,hsymbol,symbol,rfl,children,hchildren,h⟩ := h
    obtain ⟨ts,hts,h⟩ := bind_eq_ok.mp h
    cases pure_eq_ok.mp h
    obtain ⟨items,rfl,hitems⟩ := parseTermList_eq_ok.mp hts
    exact .functional htype hsymbol hchildren
      (forall₂_imp_of_mem hitems fun item hitem _ hm => termMirrors_of_parseTerm hm)
  · rw [parseTerm_unknown htype (by simp_all [termTypes])] at h
    cases h
termination_by sizeOf tree
decreasing_by exact Json.sizeOf_lt_of_mem_field? hchildren hitem

theorem mirrors_of_parseFormula {info : ProblemInfo} {tree : Json} {f : Formula}
    (h : parseFormula info tree = .ok f) : Mirrors loaderAtom info tree f := by
  obtain ⟨formulaType,htype⟩ := Json.exists_type_of_ok (by rwa [parseFormula] at h)
  by_cases hconnective : formulaType = "and" ∨ formulaType = "or" ∨ formulaType = "not"
  · rw [parseFormula_openFormula htype hconnective] at h
    obtain ⟨children,hchildren,h⟩ := Json.memberWith_eq_ok.mp h
    obtain ⟨fs,hfs,h⟩ := bind_eq_ok.mp h
    cases pure_eq_ok.mp h
    obtain ⟨items,rfl,hitems⟩ := parseFormulaList_eq_ok.mp hfs
    exact .openFormula htype hconnective hchildren
      (forall₂_imp_of_mem hitems fun item hitem _ hm => mirrors_of_parseFormula hm)
  by_cases hquantifier : formulaType = "exists" ∨ formulaType = "forall"
  · rw [parseFormula_quantified htype hquantifier] at h
    obtain ⟨node,hnode,h⟩ := Json.member_bind_eq_ok.mp h
    obtain ⟨vars,hvars,h⟩ := bind_eq_ok.mp h
    obtain ⟨subtree,hsubtree,h⟩ := Json.memberWith_eq_ok.mp h
    obtain ⟨subformula,hsub,h⟩ := bind_eq_ok.mp h
    cases pure_eq_ok.mp h
    exact .quantified htype hquantifier hnode hvars hsubtree (mirrors_of_parseFormula hsub)
  by_cases hatom : formulaType = "atom"
  · subst hatom
    rw [parseFormula_atom htype] at h
    simp only [Json.member_bind_eq_ok,Json.getString_bind_eq_ok,Json.getBool_bind_eq_ok] at h
    obtain ⟨_,hsymbol,symbol,rfl,_,hnegated,negated,rfl,children,hchildren,h⟩ := h
    obtain ⟨ts,hts,h⟩ := bind_eq_ok.mp h
    cases pure_eq_ok.mp h
    obtain ⟨items,rfl,hitems⟩ := parseTermList_eq_ok.mp hts
    exact .atom htype hsymbol hnegated hchildren
      (hitems.imp fun _ _ => termMirrors_of_parseTerm)
  by_cases htautology : formulaType = "tautology"
  · subst htautology
    rw [parseFormula_tautology htype] at h
    cases h
    exact .tautology htype
  by_cases hcontradiction : formulaType = "contradiction"
  · subst hcontradiction
    rw [parseFormula_contradiction htype] at h
    cases h
    exact .contradiction htype
  · rw [parseFormula_unknown htype (by simp_all [formulaTypes])] at h
    cases h
termination_by sizeOf tree
decreasing_by
  all_goals subst_vars
  · exact Json.sizeOf_lt_of_mem_field? hchildren hitem
  · exact Json.sizeOf_lt_of_field? hsubtree

end Light

end FsPlanner
