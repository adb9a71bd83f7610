import FsPlanner.Formula

/-!
The relaxed-plan extractor (section 4.6 of the spec; `relaxed_plan_extractor.hxx` is not in
the sources). It walks the layers of the graph from the top down, collects the action that
supports each pending atom, and queues the atoms that witness that action's precondition.
-/

set_option autoImplicit false

namespace FsPlanner

/-- Modelled from the spec: the support of a reached atom. The layer where it was first
reached, the action that first produced it (`none` for the atoms of the seed) and the atoms
that witnessed that action's precondition. -/
structure AtomSupport where
  layer : Nat
  action : Option Nat
  witness : List Atom
  deriving DecidableEq, Repr

namespace Extractor

variable (support : Atom → Option AtomSupport)

def extractStep (st : List Atom × List Nat) (a : Atom) : List Atom × List Nat :=
  match support a with
  | some ⟨_,some act,ws⟩ => (ws.foldl (fun p w => p.insert w) st.1,st.2.insert act)
  | _ => st

def extractLayer (L : Nat) (st : List Atom × List Nat) : List Atom × List Nat :=
  (st.1.filter fun a => (support a).map AtomSupport.layer == some L).foldl (extractStep support) st

/-- Modelled from the spec: the layers `L, …, 1`, from the top down; the atoms of the seed,
at layer 0, need no support. -/
def extractLayers : Nat → List Atom × List Nat → List Nat
  | 0,st => st.2
  | L+1,st => extractLayers L (extractLayer support (L+1) st)

/-- Modelled from the spec: `computeRelaxedPlanCost`, the number of distinct actions
selected for the goal's `causes` from the top layer `top` down. -/
def computeRelaxedPlanCost (top : Nat) (causes : List Atom) : Int :=
  (extractLayers support top (causes,[])).length

theorem foldl_insert_mono {x : Atom} : ∀ (ws : List Atom) {p : List Atom}, x ∈ p →
    x ∈ ws.foldl (fun p w => p.insert w) p
  | [],_,h => h
  | _ :: ws,_,h => foldl_insert_mono ws (List.mem_insert_iff.mpr (.inr h))

theorem extractStep_mono (st : List Atom × List Nat) (a : Atom) :
    (∀ x ∈ st.1, x ∈ (extractStep support st a).1) ∧ ∀ p ∈ st.2, p ∈ (extractStep support st a).2 := by
  unfold extractStep
  split
  · exact ⟨fun x hx => foldl_insert_mono _ hx,fun p hp => List.mem_insert_iff.mpr (.inr hp)⟩
  · exact ⟨fun _ h => h,fun _ h => h⟩

theorem foldl_extractStep_mono (l : List Atom) {st : List Atom × List Nat} :
    (∀ x ∈ st.1, x ∈ (l.foldl (extractStep support) st).1) ∧
      ∀ p ∈ st.2, p ∈ (l.foldl (extractStep support) st).2 := by
  induction l generalizing st with
  | nil => exact ⟨fun _ h => h,fun _ h => h⟩
  | cons a l ih =>
    have h := extractStep_mono support st a
    exact ⟨fun x hx => ih.1 x (h.1 x hx),fun p hp => ih.2 p (h.2 p hp)⟩

theorem extractLayer_mono (L : Nat) {st : List Atom × List Nat} :
    (∀ x ∈ st.1, x ∈ (extractLayer support L st).1) ∧ ∀ p ∈ st.2, p ∈ (extractLayer support L st).2 :=
  foldl_extractStep_mono support _

theorem foldl_extractStep_selects {l : List Atom} {st : List Atom × List Nat} {a : Atom}
    (ha : a ∈ l) {L act : Nat} {ws : List Atom} (hs : support a = some ⟨L,some act,ws⟩) :
    act ∈ (l.foldl (extractStep support) st).2 := by
  induction l generalizing st with
  | nil => simp at ha
  | cons b l ih =>
    rcases List.mem_cons.mp ha with rfl | ha
    · refine (foldl_extractStep_mono support l).2 act ?_
      simp [extractStep,hs,List.mem_insert_iff]
    · exact ih ha

theorem extractLayers_mono {p : Nat} : ∀ (L : Nat) {st : List Atom × List Nat}, p ∈ st.2 →
    p ∈ extractLayers support L st
  | 0,_,h => h
  | L+1,_,h => extractLayers_mono L ((extractLayer_mono support (L+1)).2 p h)

theorem extractLayers_selects {a : Atom} {L act : Nat} {ws : List Atom}
    (hs : support a = some ⟨L,some act,ws⟩) (hL : 1 ≤ L) :
    ∀ (top : Nat) {st : List Atom × List Nat}, a ∈ st.1 → L ≤ top → act ∈ extractLayers support top st
  | 0,_,_,htop => by omega
  | top+1,st,ha,htop => by
    rcases Nat.lt_or_ge L (top+1) with hlt | hge
    · exact extractLayers_selects hs hL top ((extractLayer_mono support (top+1)).1 a ha) (by omega)
    · have hL : L = top+1 := by omega
      subst hL
      exact extractLayers_mono support top
        (foldl_extractStep_selects support (List.mem_filter.mpr ⟨ha,by simp [hs]⟩) hs)

theorem computeRelaxedPlanCost_pos {top : Nat} {causes : List Atom} {a : Atom} (ha : a ∈ causes)
    {L act : Nat} {ws : List Atom} (hs : support a = some ⟨L,some act,ws⟩) (hL : 1 ≤ L)
    (htop : L ≤ top) : 1 ≤ computeRelaxedPlanCost support top causes := by
  have hm := extractLayers_selects support hs hL top (show a ∈ (causes,([] : List Nat)).1 from ha) htop
  have : 0 < (extractLayers support top (causes,[])).length := List.length_pos_of_mem hm
  simp only [computeRelaxedPlanCost]
  omega

theorem computeRelaxedPlanCost_nonneg (top : Nat) (causes : List Atom) :
    0 ≤ computeRelaxedPlanCost support top causes := by
  unfold computeRelaxedPlanCost; omega

end Extractor

end FsPlanner
