import Mathlib

/-!
Ground atoms and the atom index of a problem. An atom is a pair `variable = value`;
the atom index numbers the atoms of the problem `0, …, size - 1`.
-/

set_option autoImplicit false

namespace FsPlanner

structure Atom where
  var : Nat
  value : Int
  deriving DecidableEq, Repr, Inhabited

/-- The bijection between the atoms of a problem and their indices. -/
structure AtomIndex where
  atoms : List Atom
  nodup : atoms.Nodup

namespace AtomIndex

def size (ix : AtomIndex) : Nat := ix.atoms.length

def toAtom (ix : AtomIndex) (i : Nat) : Atom := ix.atoms.getD i default

/-- Modelled from the spec: the index of an atom. `AtomIndex::to_index` is not in the sources;
that an atom outside the index gets `size`, which every bounds check rejects, is assumed. -/
def toIndex (ix : AtomIndex) (a : Atom) : Nat := ix.atoms.indexOf a

theorem toIndex_lt_size {ix : AtomIndex} {a : Atom} : ix.toIndex a < ix.size ↔ a ∈ ix.atoms :=
  List.indexOf_lt_length

theorem toAtom_toIndex {ix : AtomIndex} {a : Atom} (h : a ∈ ix.atoms) : ix.toAtom (ix.toIndex a) = a := by
  have hl : ix.atoms.indexOf a < ix.atoms.length := List.indexOf_lt_length.mpr h
  simp only [toAtom,toIndex,List.getD_eq_getElem?_getD,List.getElem?_eq_getElem hl,Option.getD_some]
  exact List.getElem_indexOf hl

theorem toIndex_toAtom {ix : AtomIndex} {i : Nat} (h : i < ix.size) : ix.toIndex (ix.toAtom i) = i := by
  simp only [toAtom,toIndex,List.getD_eq_getElem?_getD,List.getElem?_eq_getElem h,Option.getD_some]
  exact List.indexOf_getElem ix.nodup i h

theorem toAtom_mem {ix : AtomIndex} {i : Nat} (h : i < ix.size) : ix.toAtom i ∈ ix.atoms := by
  simp only [toAtom,List.getD_eq_getElem?_getD,List.getElem?_eq_getElem h,Option.getD_some]
  exact List.getElem_mem h

end AtomIndex

end FsPlanner
