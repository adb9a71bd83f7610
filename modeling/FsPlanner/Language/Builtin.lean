import Mathlib

/-!
Built-in formulas over the values of their subterms (`builtin.cxx`). An object value is a
C++ `int`, kept here as a two's-complement 32-bit word: `alldiff` and `nvalues` count distinct
values with a `std::set`, and `sum` adds with `std::accumulate` in an `int` accumulator. The
asserts of `sum` and `nvalues` (more than one value, a positive count) are preconditions, and
the statements below carry them as hypotheses.
-/

set_option autoImplicit false

namespace FsPlanner

abbrev ObjectIdx := BitVec 32

theorem ObjectIdx.toInt_lt (x : ObjectIdx) : x.toInt < 2 ^ 31 := by
  have := Int.bmod_lt (x := x.toNat) (m := 2 ^ 32) (by decide)
  rw [BitVec.toInt_eq_toNat_bmod]
  omega

theorem ObjectIdx.le_toInt (x : ObjectIdx) : -2 ^ 31 ≤ x.toInt := by
  have := Int.le_bmod (x := x.toNat) (m := 2 ^ 32) (by decide)
  rw [BitVec.toInt_eq_toNat_bmod]
  omega

theorem ObjectIdx.toInt_bmod (x : ObjectIdx) : x.toInt.bmod (2 ^ 32) = x.toInt := by
  rw [BitVec.toInt_eq_toNat_bmod,Int.bmod_bmod]

namespace AlldiffFormula

/-- The loop of `_satisfied`: `insert` each value into `distinct`, and return `false` at the
first value that the set holds already. -/
def satisfiedFrom : List ObjectIdx → Finset ObjectIdx → Bool
  | [],_ => true
  | val :: values,distinct =>
    if val ∈ distinct then false else satisfiedFrom values (insert val distinct)

/-- `AlldiffFormula::_satisfied`. -/
def satisfied (values : List ObjectIdx) : Bool := satisfiedFrom values ∅

theorem satisfiedFrom_iff (values : List ObjectIdx) (distinct : Finset ObjectIdx) :
    satisfiedFrom values distinct = true ↔ values.Nodup ∧ ∀ v ∈ values, v ∉ distinct := by
  induction values generalizing distinct with
  | nil => simp [satisfiedFrom]
  | cons val values ih =>
    by_cases h : val ∈ distinct
    · simp [satisfiedFrom,h]
    · rw [satisfiedFrom,if_neg h,ih,List.nodup_cons,List.forall_mem_cons]
      simp only [Finset.mem_insert,not_or]
      constructor
      · rintro ⟨hn,hv⟩
        exact ⟨⟨fun hm => (hv val hm).1 rfl,hn⟩,h,fun v hm => (hv v hm).2⟩
      · rintro ⟨⟨hm,hn⟩,-,hv⟩
        exact ⟨hn,fun v hv' => ⟨fun e => hm (e ▸ hv'),hv v hv'⟩⟩

theorem satisfied_iff_nodup (values : List ObjectIdx) : satisfied values = true ↔ values.Nodup := by
  simp [satisfied,satisfiedFrom_iff]

end AlldiffFormula

namespace NValuesFormula

def sizeT (x : ObjectIdx) : Nat := (x.toInt % 2 ^ 64).toNat

/-- `NValuesFormula::_satisfied`: the loop inserts every value but the last into `distinct`,
whose size is compared with the last value. -/
def satisfied (values : List ObjectIdx) : Bool :=
  (values.dropLast.foldl (fun distinct val => insert val distinct) (∅ : Finset ObjectIdx)).card ==
    sizeT (values.getLastD 0)

theorem foldl_insert (values : List ObjectIdx) (distinct : Finset ObjectIdx) :
    values.foldl (fun distinct val => insert val distinct) distinct = distinct ∪ values.toFinset := by
  induction values generalizing distinct with
  | nil => simp
  | cons val values ih => simp [ih,Finset.insert_union,Finset.union_insert]

theorem sizeT_of_pos {x : ObjectIdx} (hx : 0 < x.toInt) : (sizeT x : Int) = x.toInt := by
  have := x.toInt_lt
  rw [sizeT,Int.emod_eq_of_lt hx.le (by omega),Int.toNat_of_nonneg hx.le]

theorem satisfied_iff_card (values : List ObjectIdx) (hlast : 0 < (values.getLastD 0).toInt) :
    satisfied values = true ↔ (values.dropLast.toFinset.card : Int) = (values.getLastD 0).toInt := by
  rw [satisfied,foldl_insert,Finset.empty_union,beq_iff_eq,← sizeT_of_pos hlast]
  exact Int.ofNat_inj.symm

end NValuesFormula

/-- `alldiff` holds of pairwise distinct values, and `nvalues` of values whose last one counts
the distinct values among the others. -/
theorem satisfied_iff_distinct_values :
    (∀ values : List ObjectIdx, AlldiffFormula.satisfied values = true ↔ values.Nodup) ∧
    ∀ values : List ObjectIdx, 2 ≤ values.length → 0 < (values.getLastD 0).toInt →
      (NValuesFormula.satisfied values = true ↔
        (values.dropLast.toFinset.card : Int) = (values.getLastD 0).toInt) :=
  ⟨AlldiffFormula.satisfied_iff_nodup,fun values _ => NValuesFormula.satisfied_iff_card values⟩

namespace SumFormula

/-- `SumFormula::_satisfied`: `std::accumulate` adds every value but the last to the `int`
`0`, and the sum is compared with the last value. -/
def satisfied (values : List ObjectIdx) : Bool :=
  values.dropLast.foldl (· + ·) 0 == values.getLastD 0

/-- The meaning the comment of `_satisfied` gives, `x_1 + ... + x_{n-1} = x_n`, over unbounded
integers. -/
def exactSatisfied (values : List ObjectIdx) : Bool :=
  (values.dropLast.map BitVec.toInt).sum == (values.getLastD 0).toInt

theorem toInt_foldl_add (values : List ObjectIdx) (acc : ObjectIdx) :
    (values.foldl (· + ·) acc).toInt = (acc.toInt + (values.map BitVec.toInt).sum).bmod (2 ^ 32) := by
  induction values generalizing acc with
  | nil => rw [List.foldl_nil,List.map_nil,List.sum_nil,Int.add_zero,ObjectIdx.toInt_bmod]
  | cons v values ih => simp [ih,BitVec.toInt_add,Int.bmod_add_bmod_congr,add_assoc]

/-- On the two or more values that `_satisfied` asserts, the accumulator compares the exact sum
of the addends with the last value modulo `2^32`: so `_satisfied` holds whenever the exact comparison
does, and the two agree whenever the exact sum fits in an `int`. -/
theorem satisfied_iff_sum_bmod (values : List ObjectIdx) (_hsize : 1 < values.length) :
    (satisfied values = true ↔
      (values.dropLast.map BitVec.toInt).sum.bmod (2 ^ 32) = (values.getLastD 0).toInt) ∧
    (exactSatisfied values = true → satisfied values = true) ∧
    (-2 ^ 31 ≤ (values.dropLast.map BitVec.toInt).sum → (values.dropLast.map BitVec.toInt).sum < 2 ^ 31 →
      satisfied values = exactSatisfied values) := by
  have hiff : satisfied values = true ↔
      (values.dropLast.map BitVec.toInt).sum.bmod (2 ^ 32) = (values.getLastD 0).toInt := by
    rw [satisfied,beq_iff_eq,← BitVec.toInt_inj,toInt_foldl_add]
    simp
  refine ⟨hiff,fun h => hiff.mpr ?_,fun h1 h2 => Bool.eq_iff_iff.mpr ?_⟩
  · rw [exactSatisfied,beq_iff_eq] at h
    rw [h,ObjectIdx.toInt_bmod]
  · rw [hiff,exactSatisfied,beq_iff_eq,Int.bmod_def]
    split <;> omega

theorem satisfied_iff_sum_bmod_small : satisfied [1,2,3] = exactSatisfied [1,2,3] :=
  (satisfied_iff_sum_bmod [1,2,3] (by decide)).2.2 (by decide) (by decide)

/-- At `[2147483647, 1, -2147483648]` the accumulator wraps from `2^31` to the last value. -/
theorem satisfied_at_wrapping_sum :
    satisfied [BitVec.ofInt 32 2147483647,1,BitVec.ofInt 32 (-2147483648)] = true ∧
      exactSatisfied [BitVec.ofInt 32 2147483647,1,BitVec.ofInt 32 (-2147483648)] = false := by
  decide

end SumFormula

end FsPlanner
