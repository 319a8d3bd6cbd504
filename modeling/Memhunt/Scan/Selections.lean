import Memhunt.Spec.Tokens

/-! Which cipher selections can be asked for: each has a list that it is read from, made of the
labels that the hits carry, and lists are joined by a comma. -/
namespace Memhunt
open Rust
open CipherChoice (parseList tokens tokenReading named rank rank_injective)
open SortDedup (sortDedup)

namespace CipherSelection

/-- Some ciphers, each once and in the order of their declaration, and outside block mode AES. -/
structure WellFormed (sel : CipherSelection) : Prop where
  nonempty : sel.ciphers ≠ []
  increasing : sel.ciphers.Pairwise fun a b => a.rank < b.rank
  supported : sel.mode = .block ∨ ∀ c ∈ sel.ciphers, c.isAes = true

def suffix : CipherMode → String
  | .block => ""
  | .ctr => "-ctr"
  | .gcm => "-gcm"

def word (mode : CipherMode) (c : CipherChoice) : List Char := (c.label ++ suffix mode).toList

/-- The labels of the ciphers, with the suffix of the mode. -/
def render (sel : CipherSelection) : String :=
  String.ofList ([','].intercalate (sel.ciphers.map (word sel.mode)))

/-- The ciphers of both, in the mode of the first. -/
def join (left right : CipherSelection) : CipherSelection :=
  { ciphers := sortDedup rank (left.ciphers ++ right.ciphers), mode := left.mode }

section Render
variable {mode : CipherMode} {c : CipherChoice} {sel : CipherSelection}

theorem reading_word (h : mode = .block ∨ c.isAes = true) :
    tokenReading (Text.toAsciiLowercase (word mode c)) = some (mode, [c]) := by
  have hblock : ∀ c : CipherChoice,
      tokenReading (Text.toAsciiLowercase (word .block c)) = some (.block, [c]) := by
    intro c
    cases c <;> decide +kernel
  rcases h with rfl | haes
  · exact hblock c
  · cases mode with
    | block => exact hblock c
    | ctr => cases c <;> first | decide +kernel | cases haes
    | gcm => cases c <;> first | decide +kernel | cases haes

/-- A word has no comma in it, no white space at its ends, and is not empty. -/
theorem word_plain (mode : CipherMode) (c : CipherChoice) :
    ',' ∉ word mode c ∧ Text.trim (word mode c) = word mode c ∧ word mode c ≠ [] := by
  cases mode <;> cases c <;> decide +kernel

theorem words_render (h : sel.ciphers ≠ []) :
    Text.words sel.render = sel.ciphers.map (word sel.mode) := by
  have hcomma : ∀ w ∈ sel.ciphers.map (word sel.mode), ',' ∉ w := by
    intro w hw
    obtain ⟨c, _, rfl⟩ := List.mem_map.mp hw
    exact (word_plain sel.mode c).1
  have htrim : (sel.ciphers.map (word sel.mode)).map Text.trim = sel.ciphers.map (word sel.mode) := by
    rw [List.map_map]
    exact List.map_congr_left fun c _ => (word_plain sel.mode c).2.1
  rw [Text.words, render, Text.pieces_intercalate hcomma (by simpa using h), htrim,
    List.filter_eq_self]
  intro w hw
  obtain ⟨c, _, rfl⟩ := List.mem_map.mp hw
  simpa using (word_plain sel.mode c).2.2

/-- An ordered list without repeats is what sorting it gives. -/
theorem sortDedup_of_increasing {cs : List CipherChoice}
    (h : cs.Pairwise fun a b => a.rank < b.rank) : sortDedup rank cs = cs := by
  have irrefl : Std.Irrefl fun a b : CipherChoice => a.rank < b.rank := ⟨fun _ => lt_irrefl _⟩
  have antisymm : Std.Antisymm fun a b : CipherChoice => a.rank < b.rank :=
    ⟨fun _ _ hab hba => absurd hba (lt_asymm hab)⟩
  refine (SortDedup.sortDedup_increasing rank_injective cs).eq_of_mem_iff h ?_
  exact fun c => SortDedup.mem_sortDedup rank_injective

theorem tokens_render (h : sel.ciphers ≠ []) : tokens sel.render =
    sel.ciphers.map fun c => Text.toAsciiLowercase (word sel.mode c) := by
  rw [CipherChoice.tokens, words_render h, List.map_map]
  rfl

theorem WellFormed.supports (h : sel.WellFormed) (hc : c ∈ sel.ciphers) :
    sel.mode = .block ∨ c.isAes = true := h.supported.imp_right fun haes => haes c hc

theorem parseList_render (h : sel.WellFormed) : parseList sel.render = .ok sel := by
  rw [CipherChoice.parseList_eq_ok_iff, tokens_render h.nonempty]
  refine ⟨by simpa using h.nonempty, ?_, ?_⟩
  · intro t ht
    obtain ⟨c, hc, rfl⟩ := List.mem_map.mp ht
    exact ⟨[c], reading_word (h.supports hc)⟩
  · have hnamed : (sel.ciphers.map fun c => Text.toAsciiLowercase (word sel.mode c)).flatMap named =
        sel.ciphers := by
      rw [List.flatMap_map]
      refine (List.flatMap_congr fun c hc => ?_).trans (List.flatMap_singleton' sel.ciphers)
      exact CipherChoice.named_of_reading (reading_word (h.supports hc))
    rw [hnamed, sortDedup_of_increasing h.increasing]

theorem wellFormed_of_parseList {spec : String} (h : parseList spec = .ok sel) :
    sel.WellFormed := by
  obtain ⟨hsome, hread, _⟩ := CipherChoice.parseList_eq_ok_iff.mp h
  refine ⟨?_, CipherChoice.ciphers_increasing h, ?_⟩
  · obtain ⟨t, ht⟩ := List.exists_mem_of_ne_nil _ hsome
    obtain ⟨found, hfound⟩ := hread t ht
    obtain ⟨c, hc⟩ := List.exists_mem_of_ne_nil _
      (CipherChoice.parseToken_nonempty (CipherChoice.tokenReading_eq_some.mp hfound).2.1)
    rw [← CipherChoice.named_of_reading hfound] at hc
    exact List.ne_nil_of_mem ((CipherChoice.mem_ciphers_iff h).mpr ⟨t, ht, hc⟩)
  · by_cases hblock : sel.mode = .block
    · exact .inl hblock
    · refine .inr fun c hc => ?_
      obtain ⟨t, ht, hmem⟩ := (CipherChoice.mem_ciphers_iff h).mp hc
      obtain ⟨found, hfound⟩ := hread t ht
      rw [CipherChoice.named_of_reading hfound] at hmem
      exact (CipherChoice.tokenReading_eq_some.mp hfound).2.2.resolve_left hblock c hmem

end Render

/-- What a list can ask for is exactly the well formed selections, and each of these is read back
from the labels of its ciphers. -/
theorem cipher_lists_written (sel : CipherSelection) :
    ((∃ spec, parseList spec = .ok sel) ↔ sel.WellFormed) ∧
      (parseList sel.render = .ok sel ↔ sel.WellFormed) :=
  ⟨⟨fun ⟨_, h⟩ => wellFormed_of_parseList h, fun h => ⟨_, parseList_render h⟩⟩,
    wellFormed_of_parseList, parseList_render⟩

theorem tokens_append_comma (s t : String) : tokens (s ++ "," ++ t) = tokens s ++ tokens t := by
  rw [tokens, Text.words_append_comma, List.map_append, ← tokens, ← tokens]

/-- Two accepted lists joined by a comma are accepted exactly where they have one mode, and ask then
for the ciphers of both. -/
theorem cipher_lists_join (s t : String) (left right : CipherSelection)
    (hs : parseList s = .ok left) (ht : parseList t = .ok right) (sel : CipherSelection) :
    parseList (s ++ "," ++ t) = .ok sel ↔ left.mode = right.mode ∧ sel = left.join right := by
  obtain ⟨hsomes, hreads, hlefts⟩ := CipherChoice.parseList_eq_ok_iff.mp hs
  obtain ⟨hsomet, hreadt, hrights⟩ := CipherChoice.parseList_eq_ok_iff.mp ht
  have hciphers : sortDedup rank ((tokens s ++ tokens t).flatMap named) =
      sortDedup rank (left.ciphers ++ right.ciphers) := by
    apply SortDedup.sortDedup_congr rank_injective
    intro c
    rw [List.flatMap_append, List.mem_append, List.mem_append, hlefts, hrights,
      SortDedup.mem_sortDedup rank_injective, SortDedup.mem_sortDedup rank_injective]
  have hmode : ∀ {u : String} {one : CipherSelection}, tokens u ≠ [] →
      (∀ w ∈ tokens u, ∃ found, tokenReading w = some (one.mode, found)) →
      (∀ w ∈ tokens u, ∃ found, tokenReading w = some (sel.mode, found)) →
      sel.mode = one.mode := by
    intro u one hne hone hsel
    obtain ⟨w, hw⟩ := List.exists_mem_of_ne_nil _ hne
    obtain ⟨found, hfound⟩ := hone w hw
    obtain ⟨found', hfound'⟩ := hsel w hw
    exact (Prod.mk.inj (Option.some.inj (hfound'.symm.trans hfound))).1
  rw [CipherChoice.parseList_eq_ok_iff, tokens_append_comma, hciphers]
  constructor
  · rintro ⟨_, hread, hsel⟩
    have hleft := hmode hsomes hreads fun w hw => hread w (List.mem_append_left _ hw)
    have hright := hmode hsomet hreadt fun w hw => hread w (List.mem_append_right _ hw)
    refine ⟨hleft.symm.trans hright, ?_⟩
    obtain ⟨ciphers, mode⟩ := sel
    rw [join, ← hleft, ← hsel]
  · rintro ⟨hsame, rfl⟩
    refine ⟨by simp [hsomes], ?_, rfl⟩
    intro w hw
    rcases List.mem_append.mp hw with hw | hw
    · exact hreads w hw
    · obtain ⟨found, hfound⟩ := hreadt w hw
      exact ⟨found, by rw [hfound, ← hsame]; rfl⟩

theorem cipher_lists_join_sample :
    parseList ("sm4,des" ++ "," ++ "aes-128") =
      .ok { ciphers := [.aes128, .des, .sm4], mode := .block } :=
  (cipher_lists_join "sm4,des" "aes-128" { ciphers := [.des, .sm4], mode := .block }
    { ciphers := [.aes128], mode := .block } (by decide +kernel) (by decide +kernel)
    { ciphers := [.aes128, .des, .sm4], mode := .block }).mpr ⟨rfl, by decide +kernel⟩

end CipherSelection

end Memhunt
