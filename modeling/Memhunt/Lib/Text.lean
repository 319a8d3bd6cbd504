import Mathlib

/-! Text as lists of characters: white space, trimming, comma lists. -/
namespace Text

/-- The Unicode property `White_Space`. -/
def isWhitespace (c : Char) : Bool :=
  let n := c.toNat
  (9 ≤ n && n ≤ 13) || n == 0x20 || n == 0x85 || n == 0xa0 || n == 0x1680 ||
    (0x2000 ≤ n && n ≤ 0x200a) || n == 0x2028 || n == 0x2029 || n == 0x202f || n == 0x205f ||
    n == 0x3000

def trim (s : List Char) : List Char := (s.dropWhile isWhitespace).rdropWhile isWhitespace

/-- `s.split(',').map(str::trim)` -/
def pieces (s : String) : List (List Char) := (s.toList.splitOn ',').map trim

/-- The pieces that are not empty. -/
def words (s : String) : List (List Char) := (pieces s).filter fun w => !w.isEmpty

def stripSuffix (suffix s : List Char) : Option (List Char) :=
  if suffix.isSuffixOf s then some (s.take (s.length - suffix.length)) else none

def toAsciiLowercase (s : List Char) : List Char := s.map Char.toLower

theorem not_isWhitespace_of_visible {c : Char} (h : 0x21 ≤ c.toNat ∧ c.toNat ≤ 0x7e) :
    isWhitespace c = false := by
  have table : ∀ n < 0x7f, 0x21 ≤ n → isWhitespace (Char.ofNat n) = false := by decide
  have hc := table c.toNat (by omega) h.1
  rwa [Char.ofNat_toNat] at hc

/-- The text with white space before and after it. -/
def Padded (text s : List Char) : Prop :=
  ∃ left right, s = left ++ (text ++ right) ∧ (∀ c ∈ left, isWhitespace c = true) ∧
    ∀ c ∈ right, isWhitespace c = true

theorem padded_self (text : List Char) : Padded text text :=
  ⟨[], [], (List.append_nil text).symm, by simp, by simp⟩

theorem trim_padded {text s : List Char} (h : Padded text s)
    (htext : ∀ c ∈ text, isWhitespace c = false) : trim s = text := by
  obtain ⟨left, right, rfl, hleft, hright⟩ := h
  have hend : (text ++ right).rdropWhile isWhitespace = text := by
    have hright' : ∀ c ∈ right.reverse, isWhitespace c = true := by simpa using hright
    have hself : text.rdropWhile isWhitespace = text := by
      rw [List.rdropWhile_eq_self_iff]
      intro hne
      simp [htext _ (List.getLast_mem hne)]
    rw [List.rdropWhile, List.reverse_append, List.dropWhile_append_of_pos hright']
    exact hself
  rw [trim, List.dropWhile_append_of_pos hleft]
  cases text with
  | nil => rw [List.nil_append, List.dropWhile_eq_nil_iff.mpr hright, List.rdropWhile_nil]
  | cons c text =>
      have hc : ¬ isWhitespace c = true := by simp [htext c List.mem_cons_self]
      rw [List.cons_append, List.dropWhile_cons_of_neg hc, ← List.cons_append, hend]

section Ends

theorem getLast_trim (s : List Char) : ∀ c ∈ (trim s).getLast?, isWhitespace c = false := by
  intro c hc
  have hne : trim s ≠ [] := by
    intro hnil
    rw [hnil] at hc
    cases hc
  have hlast := List.rdropWhile_last_not isWhitespace (s.dropWhile isWhitespace) hne
  have heq : (trim s).getLast hne = c := by
    rw [List.getLast?_eq_some_getLast hne] at hc
    exact Option.some.inj hc
  rw [← heq]
  exact Bool.eq_false_iff.mpr hlast

theorem mem_of_mem_trim {s : List Char} {c : Char} (h : c ∈ trim s) : c ∈ s :=
  (List.dropWhile_sublist isWhitespace).mem ((List.rdropWhile_prefix isWhitespace _).sublist.mem h)

theorem trim_of_ends {s : List Char} (hfirst : ∀ c ∈ s.head?, isWhitespace c = false)
    (hlast : ∀ c ∈ s.getLast?, isWhitespace c = false) : trim s = s := by
  have hfront : s.dropWhile isWhitespace = s := by
    cases s with
    | nil => rfl
    | cons c s => exact List.dropWhile_cons_of_neg (by simp [hfirst c rfl])
  rw [trim, hfront, List.rdropWhile_eq_self_iff]
  intro hne
  simp [hlast _ (List.getLast?_eq_some_getLast hne)]

end Ends

section Commas

theorem not_mem_of_mem_splitOn {sep : Char} {s piece : List Char} (h : piece ∈ s.splitOn sep) :
    sep ∉ piece := by
  induction s generalizing piece with
  | nil =>
      obtain rfl := List.mem_singleton.mp h
      exact List.not_mem_nil
  | cons c s ih =>
      rw [List.splitOn_cons_eq_if_modifyHead] at h
      by_cases hc : c = sep
      · rw [if_pos (by simp [hc])] at h
        rcases List.mem_cons.mp h with rfl | h
        · exact List.not_mem_nil
        · exact ih h
      · rw [if_neg (by simp [hc])] at h
        obtain ⟨first, rest, hsplit⟩ := List.exists_cons_of_ne_nil (List.splitOn_ne_nil sep s)
        rw [hsplit, List.modifyHead_cons] at h
        rcases List.mem_cons.mp h with rfl | h
        · have hfirst := ih (hsplit ▸ List.mem_cons_self)
          simp [hfirst, Ne.symm hc]
        · exact ih (hsplit ▸ List.mem_cons_of_mem first h)

theorem comma_not_mem_piece {s : String} {piece : List Char} (h : piece ∈ pieces s) :
    ',' ∉ piece := by
  obtain ⟨raw, hraw, rfl⟩ := List.mem_map.mp h
  exact fun hc => not_mem_of_mem_splitOn hraw (mem_of_mem_trim hc)

theorem getLast_piece {s : String} {piece : List Char} (h : piece ∈ pieces s) :
    ∀ c ∈ piece.getLast?, isWhitespace c = false := by
  obtain ⟨raw, _, rfl⟩ := List.mem_map.mp h
  exact getLast_trim raw

/-- Pieces without a comma, joined by commas, are cut apart again. -/
theorem pieces_intercalate {parts : List (List Char)} (hcomma : ∀ part ∈ parts, ',' ∉ part)
    (hne : parts ≠ []) : pieces (String.ofList ([','].intercalate parts)) = parts.map trim := by
  rw [pieces, String.toList_ofList, List.splitOn_intercalate ',' hcomma hne]

/-- A comma between two lists joins their words. -/
theorem words_append_comma (s t : String) : words (s ++ "," ++ t) = words s ++ words t := by
  have hlist : (s ++ "," ++ t).toList = s.toList ++ ',' :: t.toList := by simp
  rw [words, pieces, hlist, List.splitOn_append_cons_self, List.map_append, List.filter_append]
  rfl

end Commas

end Text
