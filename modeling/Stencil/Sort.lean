/-!
# Sorting

A list in the order of a relation that compares any two of its elements. Elements that are equal in
that order stay in the order that they came in.

* `sort_perm`: the sorted list holds the same elements;
* `pairwise_sort`: it is sorted.
-/

namespace Stencil

variable {α : Type}

/-- An element put in front of the first one that is not below it. -/
def insertSorted (le : α → α → Bool) (x : α) : List α → List α
  | [] => [x]
  | y :: ys => if le x y then x :: y :: ys else y :: insertSorted le x ys

/-- A list in order. -/
def sort (le : α → α → Bool) : List α → List α
  | [] => []
  | x :: xs => insertSorted le x (sort le xs)

theorem insertSorted_perm (le : α → α → Bool) (x : α) (xs : List α) :
    (insertSorted le x xs).Perm (x :: xs) := by
  induction xs with
  | nil => exact .rfl
  | cons y ys ih =>
    simp only [insertSorted]
    split
    · exact .rfl
    · exact (ih.cons y).trans (.swap x y ys)

/-- The sorted list holds the same elements. -/
theorem sort_perm (le : α → α → Bool) (xs : List α) : (sort le xs).Perm xs := by
  induction xs with
  | nil => exact .rfl
  | cons x xs ih => exact (insertSorted_perm le x _).trans (ih.cons x)

@[simp]
theorem mem_sort {le : α → α → Bool} {x : α} {xs : List α} : x ∈ sort le xs ↔ x ∈ xs :=
  (sort_perm le xs).mem_iff

theorem pairwise_insertSorted {le : α → α → Bool} (total : ∀ a b, le a b || le b a)
    (trans : ∀ a b c, le a b → le b c → le a c) (x : α) {xs : List α}
    (h : xs.Pairwise fun a b => le a b) : (insertSorted le x xs).Pairwise fun a b => le a b := by
  induction xs with
  | nil => simp [insertSorted]
  | cons y ys ih =>
    rw [List.pairwise_cons] at h
    simp only [insertSorted]
    split
    · -- The new element is below the first one, and hence below all of them.
      next hxy =>
      refine List.pairwise_cons.2 ⟨fun z hz => ?_, List.pairwise_cons.2 h⟩
      rcases List.mem_cons.1 hz with rfl | hz
      · exact hxy
      · exact trans _ _ _ hxy (h.1 z hz)
    · -- The first element stays the first one: it is below the new element, as
      -- any two can be compared.
      next hxy =>
      refine List.pairwise_cons.2 ⟨fun z hz => ?_, ih h.2⟩
      rcases List.mem_cons.1 ((insertSorted_perm le x ys).mem_iff.1 hz) with rfl | hz
      · simpa [hxy] using total z y
      · exact h.1 z hz

/-- The sorted list is sorted. -/
theorem pairwise_sort {le : α → α → Bool} (total : ∀ a b, le a b || le b a)
    (trans : ∀ a b c, le a b → le b c → le a c) (xs : List α) :
    (sort le xs).Pairwise fun a b => le a b := by
  induction xs with
  | nil => exact .nil
  | cons x xs ih => exact pairwise_insertSorted total trans x ih

end Stencil
