import FsPlanner.Atom

/-!
States (`state.cxx`). A state keeps the values of the predicative variables in a boolean
vector and those of the other variables in an integer vector; a `StateAtomIndexer` says in
which vector, and where, each variable lives. The hash of a state is cached, and recomputed
once at the end of every batch of writes.
-/

set_option autoImplicit false

namespace FsPlanner

theorem getD_append_singleton_lt {α : Type} (l : List α) (x d : α) {v : Nat} (h : v < l.length) :
    (l ++ [x]).getD v d = l.getD v d := by
  simp [List.getD_eq_getElem?_getD,List.getElem?_append_left h]

theorem getD_append_singleton_length {α : Type} (l : List α) (x d : α) :
    (l ++ [x]).getD l.length d = x := by
  simp [List.getD_eq_getElem?_getD]

/-- `_index[v]` is the vector (`true` for the boolean one) and the position of variable `v`. -/
structure StateAtomIndexer where
  index : List (Bool × Nat)
  nBool : Nat
  nInt : Nat
  deriving DecidableEq, Repr

namespace StateAtomIndexer

def push (ix : StateAtomIndexer) (predicative : Bool) : StateAtomIndexer :=
  if predicative then ⟨ix.index ++ [(true,ix.nBool)],ix.nBool+1,ix.nInt⟩
  else ⟨ix.index ++ [(false,ix.nInt)],ix.nBool,ix.nInt+1⟩

/-- `create` for a problem whose variables have the `isPredicativeVariable` flags `layout`. -/
def create (layout : List Bool) : StateAtomIndexer := layout.foldl push ⟨[],0,0⟩

/-- `compute_index` runs the loop of `create` once more and keeps the index only. -/
def computeIndex (layout : List Bool) : List (Bool × Nat) := (layout.foldl push ⟨[],0,0⟩).index

def size (ix : StateAtomIndexer) : Nat := ix.index.length

def num (ix : StateAtomIndexer) (b : Bool) : Nat := if b then ix.nBool else ix.nInt

def entry (ix : StateAtomIndexer) (v : Nat) : Bool × Nat := ix.index.getD v (false,0)

/-- The vector and position that `get` and `set` address for variable `v`: `v` itself when
the state is fully boolean or fully multivalued, `_index[v]` otherwise. -/
def slot (ix : StateAtomIndexer) (v : Nat) : Bool × Nat :=
  if ix.size = ix.nBool then (true,v)
  else if ix.size = ix.nInt then (false,v)
  else ix.entry v

@[simp] theorem push_index (ix : StateAtomIndexer) (b : Bool) :
    (ix.push b).index = ix.index ++ [(b,ix.num b)] := by
  cases b <;> rfl

@[simp] theorem push_num (ix : StateAtomIndexer) (b c : Bool) :
    (ix.push b).num c = ix.num c + if c = b then 1 else 0 := by
  cases b <;> cases c <;> rfl

theorem num_add (ix : StateAtomIndexer) : ix.num true + ix.num false = ix.nBool + ix.nInt := rfl

/-- What `create` guarantees of the index it builds for the flags `layout`: each variable
lives in the vector of its kind, inside that vector, at a position no other variable has,
and every position of both vectors belongs to some variable. -/
structure Indexes (layout : List Bool) (ix : StateAtomIndexer) : Prop where
  length : ix.size = layout.length
  sum : ix.nBool + ix.nInt = layout.length
  kind : ∀ v < layout.length, (ix.entry v).1 = layout.getD v false
  lt : ∀ v < layout.length, (ix.entry v).2 < ix.num (ix.entry v).1
  inj : ∀ v < layout.length, ∀ w < layout.length, ix.entry v = ix.entry w → v = w
  surj : ∀ b p, p < ix.num b → ∃ v < layout.length, ix.entry v = (b,p)

theorem indexes_nil : Indexes [] ⟨[],0,0⟩ :=
  ⟨rfl,rfl,by simp,by simp,by simp,fun b p h => by cases b <;> simp [num] at h⟩

theorem entry_push_lt {ix : StateAtomIndexer} {b : Bool} {v : Nat} (h : v < ix.size) :
    (ix.push b).entry v = ix.entry v := by
  simp only [entry,push_index]
  exact getD_append_singleton_lt _ _ _ h

theorem entry_push_size (ix : StateAtomIndexer) (b : Bool) :
    (ix.push b).entry ix.size = (b,ix.num b) := by
  simp only [entry,push_index,size]
  exact getD_append_singleton_length _ _ _

theorem Indexes.push {layout : List Bool} {ix : StateAtomIndexer} (h : Indexes layout ix)
    (b : Bool) : Indexes (layout ++ [b]) (ix.push b) := by
  have hlen : ix.size = layout.length := h.length
  have hsum := h.sum
  have old : ∀ v < layout.length, (ix.push b).entry v = ix.entry v :=
    fun v hv => entry_push_lt (by omega)
  have new : (ix.push b).entry layout.length = (b,ix.num b) := hlen ▸ entry_push_size ix b
  have hlay : ∀ v < layout.length, (layout ++ [b]).getD v false = layout.getD v false :=
    fun v hv => getD_append_singleton_lt _ _ _ hv
  refine ⟨by simpa [size] using hlen,by cases b <;> simp [StateAtomIndexer.push] <;> omega,?_,?_,?_,?_⟩
  · intro v hv
    rcases Nat.lt_succ_iff_lt_or_eq.mp (by simpa using hv) with hv | rfl
    · rw [old v hv,hlay v hv,h.kind v hv]
    · rw [new,getD_append_singleton_length]
  · intro v hv
    rcases Nat.lt_succ_iff_lt_or_eq.mp (by simpa using hv) with hv | rfl
    · rw [old v hv,push_num]
      have := h.lt v hv
      omega
    · rw [new]; simp
  · intro v hv w hw hvw
    rcases Nat.lt_succ_iff_lt_or_eq.mp (by simpa using hv) with hv | rfl <;>
    rcases Nat.lt_succ_iff_lt_or_eq.mp (by simpa using hw) with hw | rfl
    · rw [old v hv,old w hw] at hvw
      exact h.inj v hv w hw hvw
    · rw [old v hv,new] at hvw
      have := h.lt v hv
      simp [hvw] at this
    · rw [old w hw,new] at hvw
      have := h.lt w hw
      simp [← hvw] at this
    · rfl
  · intro c p hp
    rw [push_num] at hp
    by_cases hc : p < ix.num c
    · obtain ⟨v,hv,hvp⟩ := h.surj c p hc
      exact ⟨v,by simp; omega,by rw [old v hv,hvp]⟩
    · have hcb : c = b := by by_contra hne; simp [hne] at hp; omega
      subst hcb
      exact ⟨layout.length,by simp,by rw [new]; simp at hp ⊢; omega⟩

theorem create_indexes (layout : List Bool) : Indexes layout (create layout) := by
  induction layout using List.reverseRecOn with
  | nil => exact indexes_nil
  | append_singleton l b ih =>
    simpa only [create,List.foldl_append,List.foldl_cons,List.foldl_nil] using ih.push b

theorem create_append (layout : List Bool) (b : Bool) :
    create (layout ++ [b]) = (create layout).push b := by
  simp [create,List.foldl_append]

theorem create_num (layout : List Bool) (b : Bool) : (create layout).num b = layout.count b := by
  induction layout using List.reverseRecOn with
  | nil => cases b <;> rfl
  | append_singleton l c ih =>
    rw [create_append,push_num,ih,List.count_append,List.count_singleton']
    by_cases h : b = c <;> simp [h,Ne.symm]

theorem create_entry (layout : List Bool) {v : Nat} (hv : v < layout.length) :
    (create layout).entry v =
      (layout.getD v false,(layout.take v).count (layout.getD v false)) := by
  induction layout using List.reverseRecOn with
  | nil => cases hv
  | append_singleton l b ih =>
    have hsize : (create l).size = l.length := (create_indexes l).length
    rw [create_append]
    rcases Nat.lt_succ_iff_lt_or_eq.mp (by simpa using hv) with hv | rfl
    · rw [entry_push_lt (hsize ▸ hv),ih hv,getD_append_singleton_lt _ _ _ hv,
        List.take_append_of_le_length hv.le]
    · rw [← hsize,entry_push_size,hsize,getD_append_singleton_length,create_num,
        List.take_append_of_le_length le_rfl,List.take_length]

theorem create_entry_of_count {layout : List Bool} {b : Bool}
    (hb : layout.count b = layout.length) {v : Nat} (hv : v < layout.length) :
    (create layout).entry v = (b,v) := by
  have hall : ∀ x ∈ layout, b = x := List.count_eq_length.mp hb
  have hget : layout.getD v false = b := by
    rw [List.getD_eq_getElem?_getD,List.getElem?_eq_getElem hv]
    exact (hall _ (List.getElem_mem hv)).symm
  rw [create_entry layout hv,hget,List.count_eq_length.mpr
    fun x hx => hall x (List.mem_of_mem_take hx),List.length_take_of_le hv.le]

/-- `compute_index` builds the index that `create` does. When every variable is predicative,
variable `v` sits at position `v` of the boolean vector, and when none is, at position `v` of
the integer vector; so, for every layout, the slot that `get` and `set` address, by their
fast paths or by de-indexing, is `_index[v]`. -/
theorem computeIndex_fast_paths (layout : List Bool) :
    computeIndex layout = (create layout).index ∧
    ((create layout).size = (create layout).nBool →
      ∀ v < layout.length, (create layout).entry v = (true,v)) ∧
    ((create layout).size = (create layout).nInt →
      ∀ v < layout.length, (create layout).entry v = (false,v)) ∧
    ∀ v < layout.length, (create layout).slot v = (create layout).entry v := by
  have hsize : (create layout).size = layout.length := (create_indexes layout).length
  have hbool : (create layout).size = (create layout).nBool →
      ∀ v < layout.length, (create layout).entry v = (true,v) := fun h v hv =>
    create_entry_of_count (by rw [← create_num,num,if_pos rfl,← h,hsize]) hv
  have hint : (create layout).size = (create layout).nInt →
      ∀ v < layout.length, (create layout).entry v = (false,v) := fun h v hv =>
    create_entry_of_count (by rw [← create_num,num,if_neg Bool.false_ne_true,← h,hsize]) hv
  refine ⟨rfl,hbool,hint,fun v hv => ?_⟩
  unfold slot
  split_ifs with h₁ h₂
  · exact (hbool h₁ v hv).symm
  · exact (hint h₂ v hv).symm
  · rfl

section Slot

variable {layout : List Bool} {ix : StateAtomIndexer} (h : Indexes layout ix)
include h

theorem Indexes.entry_kind_of_num_zero {b : Bool} (hb : ix.num b = 0) {v : Nat}
    (hv : v < layout.length) : (ix.entry v).1 = !b := by
  have := h.lt v hv
  cases hk : (ix.entry v).1 <;> cases b <;> simp_all

theorem Indexes.slot_kind {v : Nat} (hv : v < layout.length) :
    (ix.slot v).1 = layout.getD v false := by
  have hs := h.sum; have hl := h.length
  rw [← h.kind v hv]
  unfold slot
  split_ifs with h₁ h₂
  · exact (h.entry_kind_of_num_zero (b := false) (by simp [num]; omega) hv).symm
  · exact (h.entry_kind_of_num_zero (b := true) (by simp [num]; omega) hv).symm
  · rfl

theorem Indexes.slot_lt {v : Nat} (hv : v < layout.length) :
    (ix.slot v).2 < ix.num (ix.slot v).1 := by
  have hl := h.length
  unfold slot
  split_ifs with h₁ h₂
  · simp [num]; omega
  · simp [num]; omega
  · exact h.lt v hv

theorem Indexes.slot_inj {v w : Nat} (hv : v < layout.length) (hw : w < layout.length)
    (hvw : ix.slot v = ix.slot w) : v = w := by
  unfold slot at hvw
  split_ifs at hvw with h₁ h₂
  · exact (Prod.mk.inj hvw).2
  · exact (Prod.mk.inj hvw).2
  · exact h.inj v hv w hw hvw

theorem Indexes.slot_surj {b : Bool} {p : Nat} (hp : p < ix.num b) :
    ∃ v < layout.length, ix.slot v = (b,p) := by
  have hs := h.sum; have hl := h.length
  unfold slot
  split_ifs with h₁ h₂
  · cases b <;> simp [num] at hp ⊢ <;> omega
  · cases b <;> simp [num] at hp ⊢ <;> omega
  · exact h.surj b p hp

end Slot

/-- The layout of a state: the vector and position that `get` and `set` address, fast paths
included, put each variable in the vector of its kind, inside it, and are a bijection between
the variables and the positions of the two vectors, whose lengths are the numbers of variables
of each kind. -/
theorem create_slot_bijective (layout : List Bool) :
    (∀ v < layout.length, ((create layout).slot v).1 = layout.getD v false ∧
      ((create layout).slot v).2 < layout.count (layout.getD v false)) ∧
    (∀ v < layout.length, ∀ w < layout.length, (create layout).slot v = (create layout).slot w → v = w) ∧
    (∀ b p, p < layout.count b → ∃ v < layout.length, (create layout).slot v = (b,p)) := by
  have h := create_indexes layout
  refine ⟨fun v hv => ?_,fun v hv w hw => h.slot_inj hv hw,
    fun b p hp => h.slot_surj (by rwa [create_num])⟩
  have hkind := h.slot_kind hv
  have hlt := h.slot_lt hv
  rw [hkind,create_num] at hlt
  exact ⟨hkind,hlt⟩

end StateAtomIndexer

structure Hasher where
  /-- `std::hash<BitsetT>` of the boolean vector. -/
  hashBits : List Bool → UInt64
  /-- `boost::hash_value` of the integer vector. -/
  hashValue : List Int → UInt64
  /-- `boost::hash_combine`: the new seed from the seed and a hash. -/
  hashCombine : UInt64 → UInt64 → UInt64

/-- A state over the variables of `ix`. Both vectors always have the sizes the indexer
gives them; the cached hash may be stale in the middle of a batch of writes. -/
structure State (ix : StateAtomIndexer) where
  boolValues : List Bool
  intValues : List Int
  hash : UInt64
  bool_size : boolValues.length = ix.nBool
  int_size : intValues.length = ix.nInt

namespace StateAtomIndexer

/-- `StateAtomIndexer::get` without its assertion `variable < n_vars`: a variable past the end
reads the default `0`. -/
def get (ix : StateAtomIndexer) (state : State ix) (v : Nat) : Int :=
  if (ix.slot v).1 then (if state.boolValues.getD (ix.slot v).2 false then 1 else 0)
  else state.intValues.getD (ix.slot v).2 0

/-- The write of `StateAtomIndexer::set` once its assertion holds (`setChecked` makes the
check). A write into the boolean vector stores `value != 0`, as the conversion to `bool` does. -/
def set (ix : StateAtomIndexer) (state : State ix) (v : Nat) (value : Int) : State ix :=
  if (ix.slot v).1 then
    { state with boolValues := state.boolValues.set (ix.slot v).2 (value != 0),
                 bool_size := by simp [state.bool_size] }
  else
    { state with intValues := state.intValues.set (ix.slot v).2 value,
                 int_size := by simp [state.int_size] }

@[simp] theorem set_boolValues (ix : StateAtomIndexer) (s : State ix) (v : Nat) (x : Int) :
    (ix.set s v x).boolValues =
      if (ix.slot v).1 then s.boolValues.set (ix.slot v).2 (x != 0) else s.boolValues := by
  unfold set; split <;> rfl

@[simp] theorem set_intValues (ix : StateAtomIndexer) (s : State ix) (v : Nat) (x : Int) :
    (ix.set s v x).intValues =
      if (ix.slot v).1 then s.intValues else s.intValues.set (ix.slot v).2 x := by
  unfold set; split <;> rfl

/-- `StateAtomIndexer::set` with its assertion `variable < n_vars`, `none` where it fails; `set`
is the write it makes once the assertion holds. -/
def setChecked (ix : StateAtomIndexer) (state : State ix) (v : Nat) (value : Int) :
    Option (State ix) :=
  if v < ix.size then some (ix.set state v value) else none

end StateAtomIndexer

/-- An atom a state of `layout` can hold: its variable exists, and its value is 0 or 1
when the variable is predicative. -/
def Atom.Fits (layout : List Bool) (a : Atom) : Prop :=
  a.var < layout.length ∧ (layout.getD a.var false = true → a.value = 0 ∨ a.value = 1)

instance (layout : List Bool) : DecidablePred (Atom.Fits layout) :=
  fun _ => inferInstanceAs (Decidable (_ ∧ _))

def lastValueOn (atoms : List Atom) (v : Nat) : Option Int :=
  (atoms.reverse.find? (fun a => a.var == v)).map Atom.value

theorem lastValueOn_cons (a : Atom) (atoms : List Atom) (v : Nat) :
    lastValueOn (a :: atoms) v = (lastValueOn atoms v).or (if a.var = v then some a.value else none) := by
  cases hf : atoms.reverse.find? (fun a => a.var == v) <;>
    by_cases hav : a.var = v <;> simp [lastValueOn,List.find?_append,hav,hf]

theorem lastValueOn_append_singleton (atoms : List Atom) (a : Atom) (v : Nat) :
    lastValueOn (atoms ++ [a]) v = if a.var = v then some a.value else lastValueOn atoms v := by
  by_cases h : a.var = v <;> simp [lastValueOn,h]

theorem lastValueOn_range (f : Nat → Int) (n v : Nat) :
    lastValueOn ((List.range n).map fun w => ⟨w,f w⟩) v = if v < n then some (f v) else none := by
  induction n with
  | zero => simp [lastValueOn]
  | succ n ih =>
    rw [List.range_succ,List.map_append,List.map_singleton,lastValueOn_append_singleton,ih]
    by_cases hnv : n = v
    · subst hnv
      simp
    · simp only [hnv,if_false]
      split_ifs <;> first | rfl | omega

namespace State

variable {ix : StateAtomIndexer}

def getValue (s : State ix) (v : Nat) : Int := ix.get s v

def set (s : State ix) (atom : Atom) : State ix := ix.set s atom.var atom.value

def contains (s : State ix) (atom : Atom) : Bool := s.getValue atom.var == atom.value

def computeHash (H : Hasher) (s : State ix) : UInt64 :=
  H.hashCombine (H.hashCombine 0 (H.hashBits s.boolValues)) (H.hashValue s.intValues)

def updateHash (H : Hasher) (s : State ix) : State ix := { s with hash := s.computeHash H }

def accumulate (H : Hasher) (s : State ix) (atoms : List Atom) : State ix :=
  (atoms.foldl set s).updateHash H

def zero (ix : StateAtomIndexer) : State ix :=
  ⟨List.replicate ix.nBool false,List.replicate ix.nInt 0,0,by simp,by simp⟩

/-- `State(index, atoms)`: the variables the atoms do not mention are `0`. -/
def ofAtoms (H : Hasher) (ix : StateAtomIndexer) (atoms : List Atom) : State ix :=
  (atoms.foldl set (zero ix)).updateHash H

/-- `State(state, atoms)`: a copy of `state`, then `accumulate`. -/
def successor (H : Hasher) (s : State ix) (atoms : List Atom) : State ix := s.accumulate H atoms

/-- `State::create`: the assertion `numAtoms == index.size()`, then `State(index, atoms)`, whose
loop asserts `variable < n_vars` in each `set`. A failed assertion is `none`. -/
def create (H : Hasher) (ix : StateAtomIndexer) (numAtoms : Nat) (atoms : List Atom) :
    Option (State ix) :=
  if numAtoms = ix.size then
    (atoms.foldlM (fun s a => ix.setChecked s a.var a.value) (zero ix)).map (updateHash H)
  else none

theorem foldlM_setChecked (atoms : List Atom) (s : State ix) :
    atoms.foldlM (fun s a => ix.setChecked s a.var a.value) s =
      if ∀ a ∈ atoms, a.var < ix.size then some (atoms.foldl set s) else none := by
  induction atoms generalizing s with
  | nil => simp
  | cons a atoms ih =>
    rw [List.foldlM_cons]
    by_cases ha : a.var < ix.size
    · rw [show ix.setChecked s a.var a.value = some (s.set a) from if_pos ha]
      exact (ih (s.set a)).trans (by simp [ha])
    · rw [show ix.setChecked s a.var a.value = none from if_neg ha]
      simp [ha]

theorem create_eq_some (H : Hasher) (ix : StateAtomIndexer) (numAtoms : Nat)
    (atoms : List Atom) {s : State ix} :
    create H ix numAtoms atoms = some s ↔
      numAtoms = ix.size ∧ (∀ a ∈ atoms, a.var < ix.size) ∧ ofAtoms H ix atoms = s := by
  rw [create,foldlM_setChecked]
  by_cases hn : numAtoms = ix.size <;> by_cases ha : ∀ a ∈ atoms, a.var < ix.size <;>
    simp [hn,ha,ofAtoms]

theorem eq_of_values {s t : State ix} (hb : s.boolValues = t.boolValues)
    (hi : s.intValues = t.intValues) (hh : s.hash = t.hash) : s = t := by
  cases s; cases t
  simp_all

@[simp] theorem getValue_updateHash (H : Hasher) (s : State ix) (v : Nat) :
    (s.updateHash H).getValue v = s.getValue v := rfl

@[simp] theorem computeHash_updateHash (H : Hasher) (s : State ix) :
    (s.updateHash H).computeHash H = s.computeHash H := rfl

@[simp] theorem hash_updateHash (H : Hasher) (s : State ix) :
    (s.updateHash H).hash = s.computeHash H := rfl

section ReadWrite

variable {layout : List Bool} (h : StateAtomIndexer.Indexes layout ix)
include h

theorem getValue_set_same (s : State ix) {v : Nat} (hv : v < layout.length) (x : Int) :
    (ix.set s v x).getValue v = if layout.getD v false then (if x = 0 then 0 else 1) else x := by
  have hlt := h.slot_lt hv
  rw [← h.slot_kind hv]
  simp only [getValue,StateAtomIndexer.get,StateAtomIndexer.set_boolValues,
    StateAtomIndexer.set_intValues]
  cases hb : (ix.slot v).1
  · simp_all [StateAtomIndexer.num,List.getD_eq_getElem?_getD,s.int_size]
  · rw [hb] at hlt
    by_cases hx : x = 0 <;> simp_all [StateAtomIndexer.num,List.getD_eq_getElem?_getD,s.bool_size]

theorem getValue_set_self (s : State ix) {v : Nat} (hv : v < layout.length) {x : Int}
    (hx : layout.getD v false = true → x = 0 ∨ x = 1) : (ix.set s v x).getValue v = x := by
  rw [getValue_set_same h s hv]
  split
  · rcases hx ‹_› with rfl | rfl <;> rfl
  · rfl

theorem getValue_set_ne (s : State ix) {v w : Nat} (hv : v < layout.length)
    (hw : w < layout.length) (hne : w ≠ v) (x : Int) :
    (ix.set s v x).getValue w = s.getValue w := by
  have hs : ix.slot v ≠ ix.slot w := fun he => hne (h.slot_inj hw hv he.symm)
  simp only [getValue,StateAtomIndexer.get,StateAtomIndexer.set_boolValues,
    StateAtomIndexer.set_intValues]
  cases hbv : (ix.slot v).1 <;> cases hbw : (ix.slot w).1 <;>
    simp_all [List.getD_eq_getElem?_getD,List.getElem?_set,Prod.ext_iff]

theorem getValue_foldl_set (s : State ix) (atoms : List Atom)
    (hat : ∀ a ∈ atoms, a.Fits layout) {v : Nat} (hv : v < layout.length) :
    (atoms.foldl set s).getValue v = (lastValueOn atoms v).getD (s.getValue v) := by
  induction atoms generalizing s with
  | nil => rfl
  | cons a atoms ih =>
    have ha := hat a (by simp)
    rw [List.foldl_cons,ih (s.set a) (fun b hb => hat b (by simp [hb])),lastValueOn_cons]
    by_cases hav : a.var = v
    · subst hav
      cases lastValueOn atoms a.var <;> simp [set,getValue_set_self h s ha.1 ha.2]
    · cases lastValueOn atoms v <;> simp [set,hav,getValue_set_ne h s ha.1 hv (Ne.symm hav)]

theorem getValue_predicative (s : State ix) {v : Nat} (hv : v < layout.length)
    (hk : layout.getD v false = true) : s.getValue v = 0 ∨ s.getValue v = 1 := by
  simp only [getValue,StateAtomIndexer.get,h.slot_kind hv,hk,if_true]
  split <;> simp

theorem values_eq_of_getValue {s t : State ix} (hst : ∀ v < layout.length, s.getValue v = t.getValue v) :
    s.boolValues = t.boolValues ∧ s.intValues = t.intValues := by
  constructor
  · refine List.ext_getElem (by rw [s.bool_size,t.bool_size]) fun p hs ht => ?_
    obtain ⟨v,hv,hvp⟩ := h.slot_surj (b := true) (p := p)
      (by simpa [StateAtomIndexer.num,s.bool_size] using hs)
    have := hst v hv
    simp only [getValue,StateAtomIndexer.get,hvp,List.getD_eq_getElem?_getD,
      List.getElem?_eq_getElem hs,List.getElem?_eq_getElem ht] at this
    revert this
    cases s.boolValues[p] <;> cases t.boolValues[p] <;> simp
  · refine List.ext_getElem (by rw [s.int_size,t.int_size]) fun p hs ht => ?_
    obtain ⟨v,hv,hvp⟩ := h.slot_surj (b := false) (p := p)
      (by simpa [StateAtomIndexer.num,s.int_size] using hs)
    have := hst v hv
    simpa [getValue,StateAtomIndexer.get,hvp,List.getD_eq_getElem?_getD,
      List.getElem?_eq_getElem hs,List.getElem?_eq_getElem ht] using this

end ReadWrite

@[simp] theorem getValue_zero (ix : StateAtomIndexer) (v : Nat) : (zero ix).getValue v = 0 := by
  simp [getValue,StateAtomIndexer.get,zero,List.getD_eq_getElem?_getD,
    List.getElem?_getD_replicate_default_eq]

end State

/-- The states that the public operations of `state.cxx` build: `State(index, atoms)`,
`State(state, atoms)` and `accumulate`, in any order. A copy is the same value. -/
inductive Reachable (H : Hasher) (ix : StateAtomIndexer) : State ix → Prop
  | ofAtoms (atoms : List Atom) : Reachable H ix (State.ofAtoms H ix atoms)
  | successor {s : State ix} (atoms : List Atom) : Reachable H ix s → Reachable H ix (s.successor H atoms)
  | accumulate {s : State ix} (atoms : List Atom) : Reachable H ix s → Reachable H ix (s.accumulate H atoms)

theorem Reachable.hash_eq {H : Hasher} {ix : StateAtomIndexer} {s : State ix} (hs : Reachable H ix s) :
    s.hash = s.computeHash H := by
  cases hs <;> rfl


namespace State

/-- After a batch of atoms, a variable holds the value of the last atom on it, or the value
it had before (`0` for `State(index, atoms)`). Every slot that `get` and `set` address lies
inside its vector, and `set` changes the one variable it writes, whatever the mix of kinds. -/
theorem create_state_values (H : Hasher) (layout : List Bool) :
    (∀ (s : State (StateAtomIndexer.create layout)), ∀ v < layout.length,
      if ((StateAtomIndexer.create layout).slot v).1
      then ((StateAtomIndexer.create layout).slot v).2 < s.boolValues.length
      else ((StateAtomIndexer.create layout).slot v).2 < s.intValues.length) ∧
    (∀ (s : State (StateAtomIndexer.create layout)) (v : Nat) (x : Int), v < layout.length →
      (layout.getD v false = true → x = 0 ∨ x = 1) →
      ((StateAtomIndexer.create layout).set s v x).getValue v = x ∧
      ∀ w < layout.length, w ≠ v →
        ((StateAtomIndexer.create layout).set s v x).getValue w = s.getValue w) ∧
    ∀ (s : State (StateAtomIndexer.create layout)) (atoms : List Atom),
      (∀ a ∈ atoms, a.Fits layout) → ∀ v < layout.length,
      (s.successor H atoms).getValue v = (lastValueOn atoms v).getD (s.getValue v) ∧
      (s.accumulate H atoms).getValue v = (lastValueOn atoms v).getD (s.getValue v) ∧
      (ofAtoms H (StateAtomIndexer.create layout) atoms).getValue v = (lastValueOn atoms v).getD 0 := by
  have h := StateAtomIndexer.create_indexes layout
  refine ⟨fun s v hv => ?_,fun s v x hv hx => ⟨getValue_set_self h s hv hx,
    fun w hw hwv => getValue_set_ne h s hv hw hwv x⟩,fun s atoms hat v hv => ?_⟩
  · have := h.slot_lt hv
    split_ifs with hk <;> simp_all [StateAtomIndexer.num,s.bool_size,s.int_size]
  · have hz := getValue_foldl_set h (zero _) atoms hat hv
    simp only [getValue_zero] at hz
    exact ⟨getValue_foldl_set h s atoms hat hv,getValue_foldl_set h s atoms hat hv,hz⟩

theorem create_state_values_hybrid :
    ((ofAtoms ⟨fun _ => 0,fun _ => 0,fun _ _ => 0⟩ (StateAtomIndexer.create [true,false])
      [⟨0,1⟩,⟨1,7⟩,⟨1,4⟩]).getValue 1 = 4) :=
  ((create_state_values ⟨fun _ => 0,fun _ => 0,fun _ _ => 0⟩ [true,false]).2.2 (zero _)
    [⟨0,1⟩,⟨1,7⟩,⟨1,4⟩] (by decide) 1 (by decide)).2.2.trans (by decide)

/-- A state holds the atom just written into it exactly when the atom fits its variable: a
predicative variable stores `value != 0`, so a write of a value other than `0` or `1` reads back
as `1` and the atom written is lost. -/
theorem contains_set_iff_fits (layout : List Bool) (s : State (StateAtomIndexer.create layout))
    (a : Atom) (hv : a.var < layout.length) : (s.set a).contains a = true ↔ a.Fits layout := by
  rw [contains,set,getValue_set_same (StateAtomIndexer.create_indexes layout) s hv,beq_iff_eq,
    Atom.Fits,and_iff_right hv]
  split
  · rename_i hp
    by_cases h0 : a.value = 0
    · simp [h0]
    · rw [if_neg h0]
      simp only [hp,h0,false_or,forall_const]
      exact eq_comm
  · simp_all

theorem contains_set_iff_fits_five :
    ((State.zero (StateAtomIndexer.create [true])).set ⟨0,5⟩).contains ⟨0,5⟩ = true ↔
      Atom.Fits [true] ⟨0,5⟩ :=
  contains_set_iff_fits [true] _ ⟨0,5⟩ (by decide)

/-- The hash cached in every state that the public operations build is the hash of its
values; hence two such states with the same values of all variables have the same hash,
whatever histories built them. -/
theorem reachable_hash_consistent (H : Hasher) (layout : List Bool) :
    (∀ s : State (StateAtomIndexer.create layout),
      Reachable H _ s → s.hash = s.computeHash H) ∧
    ∀ s t : State (StateAtomIndexer.create layout), Reachable H _ s → Reachable H _ t →
      (∀ v < layout.length, s.getValue v = t.getValue v) → s.hash = t.hash := by
  refine ⟨fun s hs => hs.hash_eq,fun s t hs ht hst => ?_⟩
  obtain ⟨hb,hi⟩ := values_eq_of_getValue (StateAtomIndexer.create_indexes layout) hst
  rw [hs.hash_eq,ht.hash_eq]
  simp only [computeHash,hb,hi]

theorem reachable_hash_two_histories :
    (ofAtoms ⟨fun l => l.length.toUInt64,fun l => (l.map Int.toNat).sum.toUInt64,fun a b => a * 31 + b⟩
        (StateAtomIndexer.create [true,false]) [⟨0,1⟩,⟨1,7⟩]).hash =
      ((ofAtoms ⟨fun l => l.length.toUInt64,fun l => (l.map Int.toNat).sum.toUInt64,fun a b => a * 31 + b⟩
        (StateAtomIndexer.create [true,false]) [⟨1,3⟩]).accumulate
        ⟨fun l => l.length.toUInt64,fun l => (l.map Int.toNat).sum.toUInt64,fun a b => a * 31 + b⟩
        [⟨1,7⟩,⟨0,1⟩]).hash :=
  (reachable_hash_consistent _ [true,false]).2 _ _ (.ofAtoms _) (.accumulate _ (.ofAtoms _))
    (by decide)

end State

end FsPlanner
