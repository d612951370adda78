import Mathlib

/-!
# Sets that are iterated in order

A set of the standard library is a finite set, and an iteration goes through
its elements from the least to the greatest.
-/

namespace Cuber.OrderedSets

variable {A : Type*} [LinearOrder A]

def inOrder (elements : Finset A) : List A :=
  Quotient.liftOn elements.val (List.insertionSort (· ≤ ·)) fun first second hperm =>
    ((List.perm_insertionSort _ first).trans
      (hperm.trans (List.perm_insertionSort _ second).symm)).eq_of_pairwise
        (fun _ _ _ _ => le_antisymm) (List.pairwise_insertionSort _ first)
        (List.pairwise_insertionSort _ second)

/-- `begin()`, `none` for `end()`. -/
def first (elements : Finset A) : Option A := (inOrder elements).head?

theorem coe_inOrder (elements : Finset A) : (inOrder elements : Multiset A) = elements.val := by
  rw [inOrder]
  induction elements.val using Quotient.inductionOn with
  | h list => exact Quotient.sound (List.perm_insertionSort _ list)

theorem mem_inOrder {elements : Finset A} {element : A} :
    element ∈ inOrder elements ↔ element ∈ elements := by
  rw [← Multiset.mem_coe, coe_inOrder, Finset.mem_val]

theorem nodup_inOrder (elements : Finset A) : (inOrder elements).Nodup := by
  rw [← Multiset.coe_nodup, coe_inOrder]
  exact elements.nodup

theorem pairwise_inOrder (elements : Finset A) : (inOrder elements).Pairwise (· ≤ ·) := by
  rw [inOrder]
  induction elements.val using Quotient.inductionOn with
  | h list => exact List.pairwise_insertionSort _ list

theorem first_eq_none_iff {elements : Finset A} : first elements = none ↔ elements = ∅ := by
  rw [first, List.head?_eq_none_iff, Finset.eq_empty_iff_forall_notMem,
    List.eq_nil_iff_forall_not_mem]
  exact forall_congr' fun element => not_congr mem_inOrder

/-- The first element is the least. -/
theorem first_spec {elements : Finset A} {least : A} (hfirst : first elements = some least) :
    least ∈ elements ∧ ∀ element ∈ elements, least ≤ element := by
  obtain ⟨rest, hrest⟩ := List.head?_eq_some_iff.mp hfirst
  refine ⟨mem_inOrder.mp (hrest ▸ List.mem_cons_self), fun element helement => ?_⟩
  have hsorted := pairwise_inOrder elements
  rw [hrest, List.pairwise_cons] at hsorted
  have hmem := mem_inOrder.mpr helement
  rw [hrest, List.mem_cons] at hmem
  rcases hmem with rfl | hlater
  · exact le_rfl
  · exact hsorted.1 element hlater

end Cuber.OrderedSets
