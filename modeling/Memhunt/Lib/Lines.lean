import Mathlib

/-! A finite stream cut into lines, each with its end of line; only the last may lack one. -/
namespace Lines

variable {α : Type} [DecidableEq α]

def split (sep : α) : List α → List (List α)
  | [] => []
  | x :: xs =>
      if x = sep then [x] :: split sep xs
      else
        match split sep xs with
        | [] => [[x]]
        | line :: lines => (x :: line) :: lines

theorem split_line {sep : α} {line : List α} (h : sep ∉ line) (rest : List α) :
    split sep (line ++ sep :: rest) = (line ++ [sep]) :: split sep rest := by
  induction line with
  | nil => rw [List.nil_append, split, if_pos rfl, List.nil_append]
  | cons x line ih =>
      obtain ⟨hx, hline⟩ := not_or.mp (mt List.mem_cons.mpr h)
      rw [List.cons_append, split, if_neg (Ne.symm hx), ih hline, List.cons_append]

/-- Lines without a separator in them, each written with one, are read back one by one. -/
theorem split_lines {sep : α} {lines : List (List α)} (h : ∀ line ∈ lines, sep ∉ line) :
    split sep (lines.flatMap fun line => line ++ [sep]) = lines.map fun line => line ++ [sep] := by
  induction lines with
  | nil => rfl
  | cons line lines ih =>
      obtain ⟨hline, hrest⟩ := List.forall_mem_cons.mp h
      rw [List.flatMap_cons, List.append_assoc, List.singleton_append, split_line hline, ih hrest,
        List.map_cons]

end Lines
