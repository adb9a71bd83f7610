import FsPlanner.Language.Builtin

/-!
JSON trees as the light loader reads them through rapidjson (`light_loader.cxx`): member and
index lookups, and the `Get` accessors. Where rapidjson asserts (a member that is missing, an
index out of range, a value of the wrong kind) the accessor returns `LoadError.malformed`.
-/

set_option autoImplicit false

namespace FsPlanner

namespace Light

/-- A JSON value as rapidjson holds it (numbers are the integers that `GetInt` and `GetUint`
read); an object keeps its members in order. -/
inductive Json where
  | null
  | bool (b : Bool)
  | num (n : Int)
  | str (s : String)
  | arr (items : List Json)
  | obj (members : List (String × Json))
  deriving Repr

/-- What stops the loader: the `std::runtime_error` it throws, or a rapidjson assertion on a
member that is missing or of the wrong kind. -/
inductive LoadError where
  | runtimeError (what : String)
  | malformed
  deriving DecidableEq, Repr

section Except

variable {ε α β : Type}

@[simp] theorem ok_bind (a : α) (f : α → Except ε β) : (Except.ok a : Except ε α) >>= f = f a := rfl

@[simp] theorem error_bind (e : ε) (f : α → Except ε β) :
    (Except.error e : Except ε α) >>= f = .error e := rfl

@[simp] theorem throw_eq_error (e : ε) : (throw e : Except ε α) = .error e := rfl

theorem bind_eq_ok {x : Except ε α} {f : α → Except ε β} {b : β} :
    x >>= f = .ok b ↔ ∃ a, x = .ok a ∧ f a = .ok b := by
  cases x <;> simp

@[simp] theorem pure_eq_ok {a b : α} : (pure a : Except ε α) = .ok b ↔ a = b := by
  simp [pure,Except.pure]

theorem mapM_eq_ok {f : α → Except ε β} {xs : List α} {ys : List β} :
    xs.mapM f = .ok ys ↔ List.Forall₂ (fun x y => f x = .ok y) xs ys := by
  induction xs generalizing ys with
  | nil => rw [List.mapM_nil]; cases ys <;> simp
  | cons x xs ih =>
    cases ys <;> simp only [List.mapM_cons,bind_eq_ok,ih,pure_eq_ok,List.forall₂_cons,
      List.Forall₂.nil,reduceCtorEq,List.cons.injEq] <;> aesop

theorem mapM_subtype {p : α → Prop} (g : α → Except ε β) (l : List (Subtype p)) :
    l.mapM (fun x => g x.1) = (l.map Subtype.val).mapM g := by
  induction l with
  | nil => rfl
  | cons x l ih => simp only [List.map_cons,List.mapM_cons,ih]

theorem exists_of_forall₂_of_mem {γ : Type} {R : α → γ → Prop} {l₁ : List α} {l₂ : List γ}
    (h : List.Forall₂ R l₁ l₂) {a : α} (ha : a ∈ l₁) : ∃ b, R a b := by
  induction h with
  | nil => cases ha
  | cons hab _ ih =>
    rcases List.mem_cons.mp ha with rfl | ha
    exacts [⟨_,hab⟩,ih ha]

theorem forall₂_imp_of_mem {γ : Type} {R S : α → γ → Prop} {l₁ : List α} {l₂ : List γ}
    (h : List.Forall₂ R l₁ l₂) (H : ∀ a ∈ l₁, ∀ b, R a b → S a b) : List.Forall₂ S l₁ l₂ :=
  ((List.forall₂_and_left _ _).mpr ⟨fun _ ha => ha,h⟩).imp fun a b ⟨ha,hab⟩ => H a ha b hab

end Except

namespace Json

def field? : Json → String → Option Json
  | obj members,name => members.lookup name
  | _,_ => none

theorem sizeOf_lt_of_lookup {members : List (String × Json)} {name : String} {child : Json}
    (h : members.lookup name = some child) : sizeOf child < sizeOf members := by
  induction members with
  | nil => cases h
  | cons member members ih =>
    obtain ⟨key,value⟩ := member
    simp only [List.lookup] at h
    split at h
    · cases h
      simp only [List.cons.sizeOf_spec,Prod.mk.sizeOf_spec]
      omega
    · have := ih h
      simp only [List.cons.sizeOf_spec]
      omega

theorem sizeOf_lt_of_field? {tree : Json} {name : String} {child : Json}
    (h : tree.field? name = some child) : sizeOf child < sizeOf tree := by
  cases tree <;> simp only [field?,reduceCtorEq] at h
  have := sizeOf_lt_of_lookup h
  simp only [obj.sizeOf_spec]
  omega

def member (tree : Json) (name : String) : Except LoadError Json :=
  match tree.field? name with
  | some child => .ok child
  | none => .error .malformed

@[simp] theorem member_eq_ok {tree : Json} {name : String} {child : Json} :
    tree.member name = .ok child ↔ tree.field? name = some child := by
  unfold member
  split <;> simp_all

/-- `tree[name]` handed on with the fact that the member is smaller than the tree, which the
recursion of the loader needs. -/
def memberWith {β : Type} (tree : Json) (name : String)
    (k : (child : Json) → sizeOf child < sizeOf tree → Except LoadError β) : Except LoadError β :=
  match h : tree.field? name with
  | some child => k child (sizeOf_lt_of_field? h)
  | none => .error .malformed

theorem memberWith_of_field? {β : Type} {tree : Json} {name : String} {child : Json}
    (h : tree.field? name = some child)
    (k : (child : Json) → sizeOf child < sizeOf tree → Except LoadError β) :
    tree.memberWith name k = k child (sizeOf_lt_of_field? h) := by
  unfold memberWith
  split
  · rename_i hchild
    cases h.symm.trans hchild
    rfl
  · rename_i hnone
    cases h.symm.trans hnone

theorem member_of_field? {tree : Json} {name : String} {child : Json}
    (h : tree.field? name = some child) : tree.member name = .ok child :=
  member_eq_ok.mpr h

theorem field?_str_inj {tree : Json} {name a b : String} (ha : tree.field? name = some (str a))
    (hb : tree.field? name = some (str b)) : a = b := by
  simpa using ha.symm.trans hb

theorem field?_arr_inj {tree : Json} {name : String} {a b : List Json}
    (ha : tree.field? name = some (arr a)) (hb : tree.field? name = some (arr b)) : a = b := by
  simpa using ha.symm.trans hb

theorem sizeOf_lt_of_mem_field? {tree : Json} {name : String} {items : List Json} {item : Json}
    (h : tree.field? name = some (arr items)) (hitem : item ∈ items) : sizeOf item < sizeOf tree := by
  have := sizeOf_lt_of_field? h
  have := List.sizeOf_lt_of_mem hitem
  simp only [arr.sizeOf_spec] at *
  omega

def index (tree : Json) (i : Nat) : Except LoadError Json :=
  match tree with
  | arr items => match items[i]? with
    | some item => .ok item
    | none => .error .malformed
  | _ => .error .malformed

def items : Json → Except LoadError (List Json)
  | arr items => .ok items
  | _ => .error .malformed

def getString : Json → Except LoadError String
  | str s => .ok s
  | _ => .error .malformed

def getBool : Json → Except LoadError Bool
  | bool b => .ok b
  | _ => .error .malformed

def getInt : Json → Except LoadError ObjectIdx
  | num n => if -2 ^ 31 ≤ n ∧ n < 2 ^ 31 then .ok (BitVec.ofInt 32 n) else .error .malformed
  | _ => .error .malformed

theorem getInt_num {n : Int} (h : -2 ^ 31 ≤ n ∧ n < 2 ^ 31) :
    (num n).getInt = .ok (BitVec.ofInt 32 n) := by
  rw [getInt,if_pos h]

def getUint : Json → Except LoadError (BitVec 32)
  | num n => if 0 ≤ n ∧ n < 2 ^ 32 then .ok (BitVec.ofInt 32 n) else .error .malformed
  | _ => .error .malformed

/-! What a successful read went through: one lemma per accessor, so that a loader that returned
a value can be taken apart a member at a time. -/

section Inversion

variable {β : Type} {b : β}

theorem member_bind_eq_ok {tree : Json} {name : String} {k : Json → Except LoadError β} :
    tree.member name >>= k = .ok b ↔ ∃ child, tree.field? name = some child ∧ k child = .ok b := by
  simp only [bind_eq_ok,member_eq_ok]

theorem memberWith_eq_ok {tree : Json} {name : String}
    {k : (child : Json) → sizeOf child < sizeOf tree → Except LoadError β} :
    tree.memberWith name k = .ok b ↔
      ∃ child, ∃ h : tree.field? name = some child, k child (sizeOf_lt_of_field? h) = .ok b := by
  constructor
  · unfold memberWith
    split
    · exact fun hk => ⟨_,‹_›,hk⟩
    · exact fun hk => by cases hk
  · rintro ⟨child,h,hk⟩
    rw [memberWith_of_field? h,hk]

theorem getString_eq_ok {j : Json} {s : String} : j.getString = .ok s ↔ j = str s := by
  cases j <;> simp [getString]

theorem getString_bind_eq_ok {j : Json} {k : String → Except LoadError β} :
    j.getString >>= k = .ok b ↔ ∃ s, j = str s ∧ k s = .ok b := by
  cases j <;> simp [getString]

theorem getBool_bind_eq_ok {j : Json} {k : Bool → Except LoadError β} :
    j.getBool >>= k = .ok b ↔ ∃ x, j = bool x ∧ k x = .ok b := by
  cases j <;> simp [getBool]

theorem getInt_bind_eq_ok {j : Json} {k : ObjectIdx → Except LoadError β} :
    j.getInt >>= k = .ok b ↔ ∃ n, j = num n ∧ (-2 ^ 31 ≤ n ∧ n < 2 ^ 31) ∧ k (BitVec.ofInt 32 n) = .ok b := by
  cases j with
  | num n =>
    by_cases hn : -2 ^ 31 ≤ n ∧ n < 2 ^ 31
    · rw [getInt_num hn,ok_bind]
      exact ⟨fun h => ⟨n,rfl,hn,h⟩,fun ⟨_,hm,_,h⟩ => by cases hm; exact h⟩
    · rw [getInt,if_neg hn,error_bind]
      exact ⟨nofun,fun ⟨_,hm,hm',_⟩ => by cases hm; exact absurd hm' hn⟩
  | _ => simp [getInt]

theorem items_bind_eq_ok {j : Json} {k : List Json → Except LoadError β} :
    j.items >>= k = .ok b ↔ ∃ items, j = arr items ∧ k items = .ok b := by
  cases j <;> simp [Json.items]

theorem index_bind_eq_ok {j : Json} {i : Nat} {k : Json → Except LoadError β} :
    j.index i >>= k = .ok b ↔ ∃ items item, j = arr items ∧ items[i]? = some item ∧ k item = .ok b := by
  cases j with
  | arr items => cases h : items[i]? <;> simp [index,h]
  | _ => simp [index]

theorem exists_type_of_ok {tree : Json} {k : String → Except LoadError β}
    (h : tree.member "type" >>= (fun j => j.getString >>= k) = .ok b) :
    ∃ s, tree.field? "type" = some (str s) := by
  obtain ⟨j,hj,h⟩ := member_bind_eq_ok.mp h
  obtain ⟨s,rfl,-⟩ := getString_bind_eq_ok.mp h
  exact ⟨s,hj⟩

end Inversion

end Json

end Light

end FsPlanner
