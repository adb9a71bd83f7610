import FsPlanner.Language.Loader
import FsPlanner.ProblemLoader

/-!
Effects and action schemas as the light loader reads them (`Loader::parseEffect`,
`Loader::parseEffectList` and `Loader::parseActionSchema` in `light_loader.cxx`). The condition
of an effect is parsed before its type is looked at. The left-hand side of a functional effect
must parse to a functional term, and that of an `add` or `del` effect to an atom; the code checks
both with a `dynamic_cast` and throws otherwise. A schema reads its effects only when asked to.
-/

set_option autoImplicit false

namespace FsPlanner

namespace Light

inductive AtomicEffectType where
  | add
  | del
  deriving DecidableEq, Repr

/-- `AtomicEffect::to_type`, on the two names the loader passes it. -/
def toType (name : String) : AtomicEffectType := if name = "add" then .add else .del

/-- The effects of `light.hxx`, with the arguments the loader passes to their constructors: a
`FunctionalEffect` keeps the symbol and subterms of its left-hand side, an `AtomicEffect` those
of its atom. -/
inductive ActionEffect where
  | functional (symbolId : Nat) (children : List Term) (rhs : Term) (condition : Formula)
  | atomic (symbolId : Nat) (subterms : List Term) (type : AtomicEffectType) (condition : Formula)
  deriving Repr

/-- `Loader::parseEffect`. -/
def parseEffect (info : ProblemInfo) (tree : Json) : Except LoadError ActionEffect := do
  let effectType ← (← tree.member "type").getString
  let condition ← parseFormula info (← tree.member "condition")
  if effectType = "functional" then
    match ← parseTerm info (← tree.member "lhs") with
    | .functional symbolId children =>
      return .functional symbolId children (← parseTerm info (← tree.member "rhs")) condition
    | _ => throw (.runtimeError "Invalid LHS of a functional effect")
  else if effectType = "add" ∨ effectType = "del" then
    match ← parseFormula info (← tree.member "lhs") with
    | .atomic symbolId subterms => return .atomic symbolId subterms (toType effectType) condition
    | _ => throw (.runtimeError "Invalid LHS of an atomic effect")
  else
    throw (.runtimeError ("Unknown effect type " ++ effectType))

def parseEffectList (info : ProblemInfo) (tree : Json) : Except LoadError (List ActionEffect) := do
  (← tree.items).mapM (parseEffect info)

structure ActionSchema where
  id : Nat
  name : String
  signature : List Nat
  parameters : List String
  precondition : Formula
  effects : List ActionEffect
  deriving Repr

/-- `Loader::parseActionSchema`; a discarded schema (`nullptr`) is `none`. The signature reader
`fs0::Loader::parseNumberList` and the test `has_empty_parameter` are not in the sources, and are
given as arguments. -/
def parseActionSchema (parseNumberList : Json → Except LoadError (List Nat))
    (hasEmptyParameter : ActionSchema → Bool) (node : Json) (id : Nat) (info : ProblemInfo)
    (loadEffects : Bool) : Except LoadError (Option ActionSchema) := do
  let name ← (← node.member "name").getString
  let signature ← parseNumberList (← node.member "signature")
  let parameters ← Loader.parseStringList (← node.member "parameters")
  let precondition ← parseFormula info (← node.member "conditions")
  let effects ← if loadEffects then (do parseEffectList info (← node.member "effects")) else pure []
  let schema : ActionSchema := ⟨id,name,signature,parameters,precondition,effects⟩
  if hasEmptyParameter schema then return none else return some schema

def effectTypes : List String := ["functional","add","del"]

section Branches

variable {info : ProblemInfo} {tree c : Json} {effectType : String}

theorem parseEffect_functional (htype : tree.field? "type" = some (.str "functional"))
    (hcondition : tree.field? "condition" = some c) :
    parseEffect info tree = (do
      let condition ← parseFormula info c
      match ← parseTerm info (← tree.member "lhs") with
      | .functional symbolId children =>
        return .functional symbolId children (← parseTerm info (← tree.member "rhs")) condition
      | _ => throw (.runtimeError "Invalid LHS of a functional effect")) := by
  rw [parseEffect,Json.member_of_field? htype,Json.member_of_field? hcondition]
  simp only [ok_bind,Json.getString,if_true]

theorem parseEffect_atomic (htype : tree.field? "type" = some (.str effectType))
    (hatomic : effectType = "add" ∨ effectType = "del")
    (hcondition : tree.field? "condition" = some c) :
    parseEffect info tree = (do
      let condition ← parseFormula info c
      match ← parseFormula info (← tree.member "lhs") with
      | .atomic symbolId subterms => return .atomic symbolId subterms (toType effectType) condition
      | _ => throw (.runtimeError "Invalid LHS of an atomic effect")) := by
  have hfunctional : effectType ≠ "functional" := by rcases hatomic with rfl | rfl <;> decide
  rw [parseEffect,Json.member_of_field? htype,Json.member_of_field? hcondition]
  simp only [ok_bind,Json.getString,if_neg hfunctional,if_pos hatomic]

theorem parseEffect_unknown (htype : tree.field? "type" = some (.str effectType))
    (hunknown : effectType ∉ effectTypes) (hcondition : tree.field? "condition" = some c) :
    parseEffect info tree = (do
      let _condition ← parseFormula info c
      throw (.runtimeError ("Unknown effect type " ++ effectType))) := by
  simp only [effectTypes,List.mem_cons,List.mem_singleton,not_or] at hunknown
  obtain ⟨h1,h2,h3,-⟩ := hunknown
  rw [parseEffect,Json.member_of_field? htype,Json.member_of_field? hcondition]
  simp only [ok_bind,Json.getString,h1,h2,h3,or_self,if_false]

end Branches

/-- `EffectMirrors info tree e`: the effect node `tree` has a type that `parseEffect` knows, and
`e` mirrors it: its condition mirrors the `"condition"` member, and its left-hand side (and, for a
functional effect, its right-hand side) mirror the `"lhs"` (and `"rhs"`) members. -/
inductive EffectMirrors (info : ProblemInfo) : Json → ActionEffect → Prop
  | functional {tree c lhs rhs : Json} {condition : Formula} {symbolId : Nat}
      {children : List Term} {t : Term} :
      tree.field? "type" = some (.str "functional") →
      tree.field? "condition" = some c → Mirrors loaderAtom info c condition →
      tree.field? "lhs" = some lhs → TermMirrors info lhs (.functional symbolId children) →
      tree.field? "rhs" = some rhs → TermMirrors info rhs t →
      EffectMirrors info tree (.functional symbolId children t condition)
  | atomic {tree c lhs : Json} {effectType : String} {condition : Formula} {symbolId : Nat}
      {subterms : List Term} :
      tree.field? "type" = some (.str effectType) → effectType = "add" ∨ effectType = "del" →
      tree.field? "condition" = some c → Mirrors loaderAtom info c condition →
      tree.field? "lhs" = some lhs → Mirrors loaderAtom info lhs (.atomic symbolId subterms) →
      EffectMirrors info tree (.atomic symbolId subterms (toType effectType) condition)

theorem parseEffect_reads {info : ProblemInfo} {tree : Json} {e : ActionEffect}
    (h : parseEffect info tree = .ok e) :
    ∃ effectType c condition, tree.field? "type" = some (.str effectType) ∧
      tree.field? "condition" = some c ∧ parseFormula info c = .ok condition := by
  rw [parseEffect] at h
  obtain ⟨_,htype,h⟩ := Json.member_bind_eq_ok.mp h
  obtain ⟨effectType,rfl,h⟩ := Json.getString_bind_eq_ok.mp h
  obtain ⟨c,hcondition,h⟩ := Json.member_bind_eq_ok.mp h
  obtain ⟨condition,hc,-⟩ := bind_eq_ok.mp h
  exact ⟨effectType,c,condition,htype,hcondition,hc⟩

theorem effectMirrors_of_parseEffect {info : ProblemInfo} {tree : Json} {e : ActionEffect}
    (h : parseEffect info tree = .ok e) : EffectMirrors info tree e := by
  obtain ⟨effectType,c,condition,htype,hcondition,hc⟩ := parseEffect_reads h
  by_cases hfunctional : effectType = "functional"
  · subst hfunctional
    rw [parseEffect_functional htype hcondition,hc,ok_bind] at h
    obtain ⟨lhs,hlhs,h⟩ := Json.member_bind_eq_ok.mp h
    obtain ⟨tl,htl,h⟩ := bind_eq_ok.mp h
    cases tl with
    | functional symbolId children =>
      obtain ⟨rhs,hrhs,h⟩ := Json.member_bind_eq_ok.mp h
      obtain ⟨t,ht,h⟩ := bind_eq_ok.mp h
      cases pure_eq_ok.mp h
      exact .functional htype hcondition (mirrors_of_parseFormula hc) hlhs
        (termMirrors_of_parseTerm htl) hrhs (termMirrors_of_parseTerm ht)
    | _ => cases h
  by_cases hatomic : effectType = "add" ∨ effectType = "del"
  · rw [parseEffect_atomic htype hatomic hcondition,hc,ok_bind] at h
    obtain ⟨lhs,hlhs,h⟩ := Json.member_bind_eq_ok.mp h
    obtain ⟨fl,hfl,h⟩ := bind_eq_ok.mp h
    cases fl with
    | atomic symbolId subterms =>
      cases pure_eq_ok.mp h
      exact .atomic htype hatomic hcondition (mirrors_of_parseFormula hc) hlhs
        (mirrors_of_parseFormula hfl)
    | _ => cases h
  · rw [parseEffect_unknown htype (by simp_all [effectTypes]) hcondition,hc,ok_bind] at h
    cases h

theorem parseEffectList_eq_ok {info : ProblemInfo} {tree : Json} {es : List ActionEffect} :
    parseEffectList info tree = .ok es ↔
      ∃ items, tree = .arr items ∧
        List.Forall₂ (fun item e => parseEffect info item = .ok e) items es := by
  refine ⟨fun h => ?_,fun ⟨items,htree,h⟩ => by
    rw [htree,parseEffectList,Json.items,ok_bind,mapM_eq_ok]; exact h⟩
  cases tree with
  | arr items =>
    rw [parseEffectList,Json.items,ok_bind,mapM_eq_ok] at h
    exact ⟨items,rfl,h⟩
  | _ => cases h

/-! Which shaped effect nodes `parseEffect` throws on. -/

theorem TermMirrors.type_functional {info : ProblemInfo} {tree : Json} {t : Term}
    (h : TermMirrors info tree t) :
    tree.field? "type" = some (.str "functional") ↔ ∃ symbolId children, t = .functional symbolId children := by
  cases h with
  | constant htype hconstant => rcases hconstant with rfl | rfl <;> simp [htype]
  | logicalVariable htype | functional htype => simp [htype]

theorem Mirrors.type_atom {info : ProblemInfo} {tree : Json} {f : Formula}
    (h : Mirrors loaderAtom info tree f) :
    tree.field? "type" = some (.str "atom") ↔ ∃ symbolId subterms, f = .atomic symbolId subterms := by
  cases h with
  | openFormula htype hconnective => rcases hconnective with rfl | rfl | rfl <;> simp [htype]
  | quantified htype hquantifier => rcases hquantifier with rfl | rfl <;> simp [htype]
  | atom htype => simp [htype,loaderAtom]
  | tautology htype | contradiction htype => simp [htype]

/-- `EffectShaped info tree`: the effect node `tree` has a string `"type"` and a shaped
condition; a functional effect has shaped term nodes on both sides, an `add` or `del` effect a
shaped formula node on its left-hand side. -/
inductive EffectShaped (info : ProblemInfo) : Json → Prop
  | functional {tree c lhs rhs : Json} :
      tree.field? "type" = some (.str "functional") →
      tree.field? "condition" = some c → Shaped info c →
      tree.field? "lhs" = some lhs → TermShaped info lhs →
      tree.field? "rhs" = some rhs → TermShaped info rhs → EffectShaped info tree
  | atomic {tree c lhs : Json} {effectType : String} :
      tree.field? "type" = some (.str effectType) → effectType = "add" ∨ effectType = "del" →
      tree.field? "condition" = some c → Shaped info c →
      tree.field? "lhs" = some lhs → Shaped info lhs → EffectShaped info tree
  | unknown {tree c : Json} {effectType : String} :
      tree.field? "type" = some (.str effectType) → effectType ∉ effectTypes →
      tree.field? "condition" = some c → Shaped info c → EffectShaped info tree

/-- `EffectRejected tree`: the condition of the effect node `tree` has a node of a type the
parser does not know; or the effect type is unknown; or the left-hand side is not a node of the
kind the type needs (a functional term for `functional`, an atom for `add` and `del`) or has a
node of unknown type; or the right-hand side of a functional effect has one. -/
inductive EffectRejected : Json → Prop
  | condition {tree c : Json} : tree.field? "condition" = some c → Unknown c → EffectRejected tree
  | here {tree : Json} {effectType : String} :
      tree.field? "type" = some (.str effectType) → effectType ∉ effectTypes → EffectRejected tree
  | functionalLhs {tree lhs : Json} :
      tree.field? "type" = some (.str "functional") → tree.field? "lhs" = some lhs →
      TermUnknown lhs ∨ lhs.field? "type" ≠ some (.str "functional") → EffectRejected tree
  | functionalRhs {tree rhs : Json} :
      tree.field? "type" = some (.str "functional") → tree.field? "rhs" = some rhs →
      TermUnknown rhs → EffectRejected tree
  | atomicLhs {tree lhs : Json} {effectType : String} :
      tree.field? "type" = some (.str effectType) → effectType = "add" ∨ effectType = "del" →
      tree.field? "lhs" = some lhs → Unknown lhs ∨ lhs.field? "type" ≠ some (.str "atom") →
      EffectRejected tree

section RejectedCases

variable {tree c lhs : Json} {effectType : String}

theorem effectRejected_functional_iff {rhs : Json}
    (htype : tree.field? "type" = some (.str "functional"))
    (hcondition : tree.field? "condition" = some c) (hlhs : tree.field? "lhs" = some lhs)
    (hrhs : tree.field? "rhs" = some rhs) :
    EffectRejected tree ↔ Unknown c ∨ TermUnknown lhs ∨
      lhs.field? "type" ≠ some (.str "functional") ∨ TermUnknown rhs := by
  constructor
  · rintro (⟨hc,hu⟩ | ⟨htype',hnot⟩ | ⟨_,hlhs',hl⟩ | ⟨_,hrhs',hr⟩ | ⟨htype',hatomic⟩)
    · cases hcondition.symm.trans hc
      exact .inl hu
    · cases Json.field?_str_inj htype htype'
      simp [effectTypes] at hnot
    · cases hlhs.symm.trans hlhs'
      rcases hl with hl | hl
      exacts [.inr (.inl hl),.inr (.inr (.inl hl))]
    · cases hrhs.symm.trans hrhs'
      exact .inr (.inr (.inr hr))
    · cases Json.field?_str_inj htype htype'
      simp at hatomic
  · rintro (hu | hu | hu | hu)
    exacts [.condition hcondition hu,.functionalLhs htype hlhs (.inl hu),
      .functionalLhs htype hlhs (.inr hu),.functionalRhs htype hrhs hu]

theorem effectRejected_atomic_iff (htype : tree.field? "type" = some (.str effectType))
    (hatomic : effectType = "add" ∨ effectType = "del")
    (hcondition : tree.field? "condition" = some c) (hlhs : tree.field? "lhs" = some lhs) :
    EffectRejected tree ↔ Unknown c ∨ Unknown lhs ∨ lhs.field? "type" ≠ some (.str "atom") := by
  constructor
  · rintro (⟨hc,hu⟩ | ⟨htype',hnot⟩ | ⟨htype',-⟩ | ⟨htype',-⟩ | ⟨_,_,hlhs',hl⟩)
    · cases hcondition.symm.trans hc
      exact .inl hu
    · cases Json.field?_str_inj htype htype'
      rcases hatomic with rfl | rfl <;> simp [effectTypes] at hnot
    · cases Json.field?_str_inj htype htype'
      simp at hatomic
    · cases Json.field?_str_inj htype htype'
      simp at hatomic
    · cases hlhs.symm.trans hlhs'
      exact .inr hl
  · rintro (hu | hu)
    exacts [.condition hcondition hu,.atomicLhs htype hatomic hlhs hu]

end RejectedCases

theorem parseEffect_outcome {info : ProblemInfo} {tree : Json} (h : EffectShaped info tree) :
    Outcome (EffectRejected tree) (parseEffect info tree) := by
  cases h with
  | @functional c lhs rhs htype hcondition hc hlhs hl hrhs hr =>
    rw [parseEffect_functional htype hcondition]
    refine ((parseFormula_outcome hc).bind fun condition _ => ?_).congr
      (effectRejected_functional_iff htype hcondition hlhs hrhs).symm
    rw [Json.member_of_field? hlhs,ok_bind]
    refine (parseTerm_outcome hl).bind fun tl htl => ?_
    have hkind := (termMirrors_of_parseTerm htl).type_functional
    cases tl with
    | functional symbolId children =>
      dsimp only
      rw [Json.member_of_field? hrhs,ok_bind]
      exact ((parseTerm_outcome hr).bind_ok fun _ => ⟨_,rfl⟩).congr (by simp [hkind])
    | _ => exact .inl ⟨.inl fun hk => by simp at hkind; exact hkind hk,_,rfl⟩
  | @atomic c lhs effectType htype hatomic hcondition hc hlhs hl =>
    rw [parseEffect_atomic htype hatomic hcondition]
    refine ((parseFormula_outcome hc).bind fun condition _ => ?_).congr
      (effectRejected_atomic_iff htype hatomic hcondition hlhs).symm
    rw [Json.member_of_field? hlhs,ok_bind]
    refine ((parseFormula_outcome hl).bind fun fl hfl => ?_)
    have hkind := (mirrors_of_parseFormula hfl).type_atom
    cases fl with
    | atomic symbolId subterms => exact .inr ⟨by simp [hkind],_,rfl⟩
    | _ => exact .inl ⟨fun hk => by simp at hkind; exact hkind hk,_,rfl⟩
  | unknown htype hunknown hcondition hc =>
    rw [parseEffect_unknown htype hunknown hcondition]
    exact ((parseFormula_outcome hc).bind fun _ _ => .inl ⟨trivial,_,rfl⟩).congr
      ⟨fun _ => .here htype hunknown,fun _ => .inr trivial⟩

theorem parseEffectList_outcome {info : ProblemInfo} {items : List Json}
    (h : ∀ item ∈ items, EffectShaped info item) :
    Outcome (∃ item ∈ items, EffectRejected item) (parseEffectList info (.arr items)) := by
  rw [parseEffectList,Json.items,ok_bind]
  exact Outcome.mapM fun item hitem => parseEffect_outcome (h item hitem)

structure SchemaShaped (parseNumberList : Json → Except LoadError (List Nat)) (info : ProblemInfo)
    (loadEffects : Bool) (node : Json) : Prop where
  name : ∃ name, node.field? "name" = some (.str name)
  signature : ∃ signatureNode signature, node.field? "signature" = some signatureNode ∧
    parseNumberList signatureNode = .ok signature
  parameters : ∃ parameters : List String,
    node.field? "parameters" = some (.arr (parameters.map .str))
  conditions : ∃ c, node.field? "conditions" = some c ∧ Shaped info c
  effects : loadEffects = true →
    ∃ items, node.field? "effects" = some (.arr items) ∧ ∀ item ∈ items, EffectShaped info item

def SchemaRejected (loadEffects : Bool) (node : Json) : Prop :=
  (∃ c, node.field? "conditions" = some c ∧ Unknown c) ∨
    (loadEffects = true ∧
      ∃ items, node.field? "effects" = some (.arr items) ∧ ∃ item ∈ items, EffectRejected item)

theorem parseActionSchema_outcome {parseNumberList : Json → Except LoadError (List Nat)}
    {hasEmptyParameter : ActionSchema → Bool} {node : Json} {id : Nat} {info : ProblemInfo}
    {loadEffects : Bool} (h : SchemaShaped parseNumberList info loadEffects node) :
    Outcome (SchemaRejected loadEffects node)
      (parseActionSchema parseNumberList hasEmptyParameter node id info loadEffects) := by
  obtain ⟨⟨name,hname⟩,⟨_,signature,hsignature,hsig⟩,⟨parameters,hparameters⟩,
    ⟨c,hcondition,hc⟩,heffects⟩ := h
  simp only [parseActionSchema,Json.member_of_field? hname,Json.member_of_field? hsignature,
    Json.member_of_field? hparameters,Json.member_of_field? hcondition,ok_bind,Json.getString,hsig,
    Loader.parseStringList_eq_ok.mpr rfl]
  refine (Outcome.bind (v := loadEffects = true ∧
      ∃ items, node.field? "effects" = some (.arr items) ∧ ∃ item ∈ items, EffectRejected item)
    (parseFormula_outcome hc) fun precondition _ => ?_).congr ?_
  · cases loadEffects with
    | false =>
      simp only [Bool.false_eq_true,if_false,pure_bind]
      split <;> exact .inr ⟨by simp,_,rfl⟩
    | true =>
      obtain ⟨items,heffects,hitems⟩ := heffects rfl
      simp only [if_true,Json.member_of_field? heffects,ok_bind]
      exact ((parseEffectList_outcome hitems).bind_ok fun _ => by split <;> exact ⟨_,rfl⟩).congr
        (by simp [heffects])
  · unfold SchemaRejected
    refine or_congr_left ⟨fun hu => ⟨c,hcondition,hu⟩,fun ⟨c',hc',hu⟩ => ?_⟩
    cases hcondition.symm.trans hc'
    exact hu

/-- `SchemaMirrors parseNumberList info loadEffects node s`: the schema `s` mirrors the schema
node: its name, signature and parameters are the node's, its precondition mirrors the
`"conditions"` node, and its effects mirror the `"effects"` array when effects are loaded and are
empty otherwise. -/
structure SchemaMirrors (parseNumberList : Json → Except LoadError (List Nat)) (info : ProblemInfo)
    (loadEffects : Bool) (node : Json) (s : ActionSchema) : Prop where
  name : node.field? "name" = some (.str s.name)
  signature : ∃ signatureNode, node.field? "signature" = some signatureNode ∧
    parseNumberList signatureNode = .ok s.signature
  parameters : node.field? "parameters" = some (.arr (s.parameters.map .str))
  precondition : ∃ c, node.field? "conditions" = some c ∧ Mirrors loaderAtom info c s.precondition
  effects : if loadEffects then ∃ items, node.field? "effects" = some (.arr items) ∧
    List.Forall₂ (EffectMirrors info) items s.effects else s.effects = []

/-- Soundness of `parseActionSchema`: what it returns comes from a schema that mirrors the node
and carries the id it was given; the schema is returned when it has no empty parameter and
discarded (`nullptr`) when it has one. -/
theorem parseActionSchema_sound {parseNumberList : Json → Except LoadError (List Nat)}
    {hasEmptyParameter : ActionSchema → Bool} {node : Json} {id : Nat} {info : ProblemInfo}
    {loadEffects : Bool} {r : Option ActionSchema}
    (h : parseActionSchema parseNumberList hasEmptyParameter node id info loadEffects = .ok r) :
    ∃ s, SchemaMirrors parseNumberList info loadEffects node s ∧ s.id = id ∧
      r = if hasEmptyParameter s then none else some s := by
  rw [parseActionSchema] at h
  obtain ⟨_,hname,h⟩ := Json.member_bind_eq_ok.mp h
  obtain ⟨name,rfl,h⟩ := Json.getString_bind_eq_ok.mp h
  obtain ⟨signatureNode,hsignature,h⟩ := Json.member_bind_eq_ok.mp h
  obtain ⟨signature,hsig,h⟩ := bind_eq_ok.mp h
  obtain ⟨_,hparameters,h⟩ := Json.member_bind_eq_ok.mp h
  obtain ⟨parameters,hp,h⟩ := bind_eq_ok.mp h
  obtain ⟨c,hcondition,h⟩ := Json.member_bind_eq_ok.mp h
  obtain ⟨precondition,hc,h⟩ := bind_eq_ok.mp h
  obtain ⟨effects,he,h⟩ : ∃ effects, (if loadEffects then (do parseEffectList info (← node.member "effects"))
      else pure []) = Except.ok effects ∧
      (if hasEmptyParameter ⟨id,name,signature,parameters,precondition,effects⟩ then
        (pure none : Except LoadError _) else pure (some ⟨id,name,signature,parameters,precondition,effects⟩)) =
        .ok r := by
    cases loadEffects
    exacts [⟨[],rfl,h⟩,bind_eq_ok.mp h]
  have heffects : if loadEffects then ∃ items, node.field? "effects" = some (.arr items) ∧
      List.Forall₂ (EffectMirrors info) items effects else effects = [] := by
    cases loadEffects with
    | false => exact (pure_eq_ok.mp he).symm
    | true =>
      obtain ⟨_,heffects,he⟩ := Json.member_bind_eq_ok.mp he
      obtain ⟨items,rfl,hitems⟩ := parseEffectList_eq_ok.mp he
      exact ⟨items,heffects,hitems.imp fun _ _ => effectMirrors_of_parseEffect⟩
  refine ⟨⟨id,name,signature,parameters,precondition,effects⟩,
    ⟨hname,⟨_,hsignature,hsig⟩,Loader.parseStringList_eq_ok.mp hp ▸ hparameters,
      ⟨c,hcondition,mirrors_of_parseFormula hc⟩,heffects⟩,rfl,?_⟩
  cases hempty : hasEmptyParameter ⟨id,name,signature,parameters,precondition,effects⟩ <;>
    simp only [hempty,Bool.false_eq_true,if_true,if_false] at h ⊢ <;> exact (pure_eq_ok.mp h).symm

theorem parseActionSchema_sound_tautology :
    ∃ s, SchemaMirrors (fun _ => .ok []) ⟨fun _ => 0,fun _ => 0⟩ false
        (.obj [("name",.str "a"),("signature",.arr []),("parameters",.arr []),
          ("conditions",.obj [("type",.str "tautology")])]) s ∧ s.id = 0 ∧
      some ⟨0,"a",[],[],.tautology,[]⟩ = if (fun _ => false : ActionSchema → Bool) s then none else some s :=
  parseActionSchema_sound (by
    have hc : parseFormula ⟨fun _ => 0,fun _ => 0⟩ (.obj [("type",.str "tautology")]) = .ok .tautology :=
      parseFormula_tautology rfl
    simp [parseActionSchema,Json.member,Json.field?,List.lookup,Json.getString,
      Loader.parseStringList,Json.items,hc]
    rfl)

/-! What the loader guarantees its callers. -/

/-- Soundness of the light loader: whatever `parseTerm`, `parseFormula`, `parseEffect` and
`parseEffectList` return mirrors the node they read. -/
theorem loader_sound (info : ProblemInfo) :
    (∀ tree t, parseTerm info tree = .ok t → TermMirrors info tree t) ∧
    (∀ tree f, parseFormula info tree = .ok f → Mirrors loaderAtom info tree f) ∧
    (∀ tree e, parseEffect info tree = .ok e → EffectMirrors info tree e) ∧
    (∀ tree es, parseEffectList info tree = .ok es →
      ∃ items, tree = .arr items ∧ List.Forall₂ (EffectMirrors info) items es) := by
  refine ⟨fun _ _ => termMirrors_of_parseTerm,fun _ _ => mirrors_of_parseFormula,
    fun _ _ => effectMirrors_of_parseEffect,fun _ _ h => ?_⟩
  obtain ⟨items,rfl,hitems⟩ := parseEffectList_eq_ok.mp h
  exact ⟨items,rfl,hitems.imp fun _ _ => effectMirrors_of_parseEffect⟩

/-- On shaped nodes the effect and schema readers never fail an assertion, and they throw
`runtime_error` exactly when a node is rejected: an unknown node type in a condition or a side,
an unknown effect type, or a left-hand side of the wrong kind. -/
theorem effects_throw_iff_rejected (info : ProblemInfo) :
    (∀ tree, EffectShaped info tree → parseEffect info tree ≠ .error .malformed ∧
      ((∃ what, parseEffect info tree = .error (.runtimeError what)) ↔ EffectRejected tree)) ∧
    (∀ items : List Json, (∀ item ∈ items, EffectShaped info item) →
      parseEffectList info (.arr items) ≠ .error .malformed ∧
      ((∃ what, parseEffectList info (.arr items) = .error (.runtimeError what)) ↔
        ∃ item ∈ items, EffectRejected item)) ∧
    (∀ parseNumberList hasEmptyParameter node id loadEffects,
      SchemaShaped parseNumberList info loadEffects node →
      parseActionSchema parseNumberList hasEmptyParameter node id info loadEffects ≠ .error .malformed ∧
      ((∃ what, parseActionSchema parseNumberList hasEmptyParameter node id info loadEffects =
        .error (.runtimeError what)) ↔ SchemaRejected loadEffects node)) :=
  ⟨fun _ h => (parseEffect_outcome h).throws_iff,fun _ h => (parseEffectList_outcome h).throws_iff,
    fun _ _ _ _ _ h => (parseActionSchema_outcome h).throws_iff⟩

end Light

end FsPlanner
