import Mathlib

/-! Sequences in which every further element is computed from the ones in front of it. -/
namespace Recurrence

variable {α : Type} {next : List α → α} {start xs : List α} {n : Nat}

/-- The first elements, and `n` more. -/
def grow (next : List α → α) (start : List α) : Nat → List α
  | 0 => start
  | n + 1 => grow next start n ++ [next (grow next start n)]

@[simp] theorem length_grow : (grow next start n).length = start.length + n := by
  induction n with
  | zero => rfl
  | succ n ih => rw [grow, List.length_append, ih, List.length_singleton, Nat.add_assoc]

theorem take_grow (m k : Nat) :
    (grow next start (m + k)).take (start.length + m) = grow next start m := by
  induction k with
  | zero => exact List.take_of_length_le (by rw [length_grow, Nat.add_zero])
  | succ k ih =>
      rw [← Nat.add_assoc, grow, List.take_append_of_le_length (by rw [length_grow]; omega), ih]

/-- Every element after the first ones follows from those in front of it. -/
def Follows (next : List α → α) (k : Nat) (xs : List α) : Prop :=
  ∀ i, k ≤ i → i < xs.length → xs[i]? = some (next (xs.take i))

theorem follows_concat {k : Nat} {x : α} (h : k ≤ xs.length) :
    Follows next k (xs ++ [x]) ↔ Follows next k xs ∧ x = next xs := by
  constructor
  · intro hall
    constructor
    · intro i hk hi
      have hget := hall i hk (by rw [List.length_append]; omega)
      rwa [List.getElem?_append_left hi, List.take_append_of_le_length hi.le] at hget
    · have hget := hall xs.length h (by simp)
      rw [List.getElem?_concat_length, List.take_left] at hget
      exact Option.some.inj hget
  · rintro ⟨hall, rfl⟩ i hk hi
    rw [List.length_append, List.length_singleton] at hi
    rcases Nat.lt_succ_iff_lt_or_eq.mp hi with hlt | rfl
    · rw [List.getElem?_append_left hlt, List.take_append_of_le_length hlt.le]
      exact hall i hk hlt
    · rw [List.getElem?_concat_length, List.take_left]

/-- To check each element against the ones really in front of it is to compute the sequence. -/
theorem eq_grow_iff (hlen : xs.length = start.length + n) :
    xs = grow next start n ↔ xs.take start.length = start ∧ Follows next start.length xs := by
  induction n generalizing xs with
  | zero =>
      rw [List.take_of_length_le (by omega), grow]
      constructor
      · intro h
        exact ⟨h, fun i hk hi => absurd hi (by omega)⟩
      · exact And.left
  | succ n ih =>
      have hne : xs ≠ [] := List.ne_nil_of_length_pos (by omega)
      obtain ⟨ys, y, rfl⟩ := (List.eq_nil_or_concat xs).resolve_left hne
      rw [List.concat_eq_append] at hlen ⊢
      rw [List.length_append, List.length_singleton] at hlen
      have hys : ys.length = start.length + n := by omega
      rw [follows_concat (by omega), List.take_append_of_le_length (by omega), ← and_assoc, ← ih hys,
        grow]
      constructor
      · intro h
        obtain ⟨rfl, hy⟩ := List.append_inj' h rfl
        exact ⟨rfl, List.singleton_inj.mp hy⟩
      · rintro ⟨rfl, rfl⟩
        rfl

end Recurrence
