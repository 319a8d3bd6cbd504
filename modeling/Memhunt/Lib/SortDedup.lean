import Mathlib

/-! Sorting by a rank and then removing repeated neighbours: an ordered list of the set. -/
namespace SortDedup

variable {α : Type}

def sortDedup [DecidableEq α] (rank : α → Nat) (xs : List α) : List α :=
  (xs.insertionSort fun a b => rank a ≤ rank b).destutter (· ≠ ·)

theorem sorted_insertionSort (rank : α → Nat) (xs : List α) :
    (xs.insertionSort fun a b => rank a ≤ rank b).Pairwise fun a b => rank a ≤ rank b := by
  have total : Std.Total fun a b : α => rank a ≤ rank b := ⟨fun a b => le_total _ _⟩
  have trans : IsTrans α fun a b => rank a ≤ rank b := ⟨fun _ _ _ hab hbc => le_trans hab hbc⟩
  exact List.pairwise_insertionSort _ xs

variable [DecidableEq α]

/-- Equal elements are neighbours after the sort, so removing neighbours removes all repeats. -/
theorem sortDedup_eq_dedup {rank : α → Nat} (hrank : Function.Injective rank) (xs : List α) :
    sortDedup rank xs = (xs.insertionSort fun a b => rank a ≤ rank b).dedup := by
  have antisymm : Std.Antisymm fun a b : α => rank a ≤ rank b :=
    ⟨fun a b hab hba => hrank (le_antisymm hab hba)⟩
  exact (sorted_insertionSort rank xs).destutter_eq_dedup

theorem mem_sortDedup {rank : α → Nat} (hrank : Function.Injective rank) {xs : List α} {a : α} :
    a ∈ sortDedup rank xs ↔ a ∈ xs := by
  rw [sortDedup_eq_dedup hrank, List.mem_dedup, List.mem_insertionSort]

theorem sortDedup_increasing {rank : α → Nat} (hrank : Function.Injective rank) (xs : List α) :
    (sortDedup rank xs).Pairwise fun a b => rank a < rank b := by
  rw [sortDedup_eq_dedup hrank]
  have hle := (sorted_insertionSort rank xs).sublist (List.dedup_sublist _)
  have hne := List.nodup_dedup (xs.insertionSort fun a b => rank a ≤ rank b)
  refine (hle.and hne).imp ?_
  rintro a b ⟨hab, hdiff⟩
  exact lt_of_le_of_ne hab fun h => hdiff (hrank h)

/-- The result depends on the set of the elements alone. -/
theorem sortDedup_congr {rank : α → Nat} (hrank : Function.Injective rank) {xs ys : List α}
    (h : ∀ a, a ∈ xs ↔ a ∈ ys) : sortDedup rank xs = sortDedup rank ys := by
  have irrefl : Std.Irrefl fun a b : α => rank a < rank b := ⟨fun _ => lt_irrefl _⟩
  have antisymm : Std.Antisymm fun a b : α => rank a < rank b :=
    ⟨fun _ _ hab hba => absurd hba (lt_asymm hab)⟩
  refine (sortDedup_increasing hrank xs).eq_of_mem_iff (sortDedup_increasing hrank ys) ?_
  intro a
  rw [mem_sortDedup hrank, mem_sortDedup hrank, h a]

end SortDedup
