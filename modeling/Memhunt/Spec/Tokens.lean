import Memhunt.Engine.CipherList

/-! What each token of a cipher list stands for, and that a list is accepted exactly where all its
tokens have a reading in one mode. -/
namespace Memhunt
open Rust
open SortDedup (sortDedup)

namespace CipherChoice

def tokens (spec : String) : List (List Char) := (Text.words spec).map Text.toAsciiLowercase

/-- The mode and the ciphers of one token; nothing where no list with it is accepted. -/
def tokenReading (lower : List Char) : Option (CipherMode × List CipherChoice) :=
  match parseToken (String.ofList (splitMode lower).1) (splitMode lower).2 with
  | .ok (found, none) =>
      if (splitMode lower).2 = .block ∨ ∀ c ∈ found, c.isAes = true then
        some ((splitMode lower).2, found)
      else none
  | _ => none

def named (lower : List Char) : List CipherChoice := ((tokenReading lower).map Prod.snd).getD []

theorem named_of_reading {lower : List Char} {mode : CipherMode} {found : List CipherChoice}
    (h : tokenReading lower = some (mode, found)) : named lower = found := by
  rw [named, h]
  rfl

theorem tokenReading_eq_some {lower : List Char} {mode : CipherMode} {found : List CipherChoice} :
    tokenReading lower = some (mode, found) ↔
      (splitMode lower).2 = mode ∧
      parseToken (String.ofList (splitMode lower).1) mode = .ok (found, none) ∧
      (mode = .block ∨ ∀ c ∈ found, c.isAes = true) := by
  unfold tokenReading
  constructor
  · intro h
    split at h
    · rename_i found' hparse
      split at h
      · rename_i haes
        cases h
        exact ⟨rfl, hparse, haes⟩
      · cases h
    · cases h
  · rintro ⟨rfl, hparse, haes⟩
    rw [hparse]
    exact if_pos haes

theorem parseToken_nonempty {token : String} {mode : CipherMode} {found : List CipherChoice}
    {set : Option CipherMode} (h : parseToken token mode = .ok (found, set)) : found ≠ [] := by
  unfold parseToken at h
  repeat' split at h
  all_goals first
    | cases h; exact List.cons_ne_nil _ _
    | cases h

/-- A token that sets the mode names a cipher the mode it sets does not support. -/
theorem parseToken_set {token : String} {mode set : CipherMode} {found : List CipherChoice}
    (h : parseToken token mode = .ok (found, some set)) :
    set = .gcm ∧ ∃ c ∈ found, c.isAes = false := by
  unfold parseToken at h
  repeat' split at h
  all_goals first
    | cases h; exact ⟨rfl, _, List.mem_singleton.mpr rfl, rfl⟩
    | cases h

theorem checkMode_eq_ok {mode : Option CipherMode} {tokenMode m : CipherMode} :
    checkMode mode tokenMode = .ok m ↔ m = tokenMode ∧ (mode = none ∨ mode = some m) := by
  cases mode with
  | none => simp [checkMode, eq_comm]
  | some mode =>
      by_cases h : mode = tokenMode
      · subst h
        simp [checkMode, eq_comm]
      · simp only [checkMode, ne_eq, h, not_false_eq_true, if_true, fail_ne_ok, false_iff]
        rintro ⟨rfl, hm⟩
        simp at hm
        exact h hm

theorem parseParts_of_readings {parts : List (List Char)} {m : CipherMode}
    (h : ∀ part ∈ parts, ∃ found, tokenReading (Text.toAsciiLowercase part) = some (m, found))
    (out : List CipherChoice) {mode : Option CipherMode} (hmode : mode = none ∨ mode = some m) :
    parseParts parts out mode =
      .ok (out ++ parts.flatMap fun part => named (Text.toAsciiLowercase part),
        if parts = [] then mode else some m) := by
  induction parts generalizing out mode with
  | nil => simp [parseParts]
  | cons part parts ih =>
      obtain ⟨found, hread⟩ := h part List.mem_cons_self
      obtain ⟨hsplit, hparse, _⟩ := tokenReading_eq_some.mp hread
      have tail := ih (fun p hp => h p (List.mem_cons_of_mem part hp)) (out ++ found)
        (.inr (Eq.refl (some m)))
      have hcheck : checkMode mode m = .ok m := checkMode_eq_ok.mpr ⟨rfl, hmode⟩
      simp only [parseParts, hsplit, hcheck, ok_bind, hparse, Option.getD_none, tail,
        List.flatMap_cons, named_of_reading hread, List.append_assoc, ite_self, reduceCtorEq,
        if_false]

theorem parts_nil_of_parseParts {parts : List (List Char)} {out out' : List CipherChoice}
    {mode : Option CipherMode} (h : parseParts parts out mode = .ok (out', none)) :
    parts = [] ∧ out' = out ∧ mode = none := by
  induction parts generalizing out mode with
  | nil =>
      cases h
      exact ⟨rfl, rfl, rfl⟩
  | cons part parts ih =>
      obtain ⟨m, _, h⟩ := bind_ok h
      obtain ⟨found, _, h⟩ := bind_ok h
      exact absurd (ih h).2.2 (Option.some_ne_none _)

/-- Invariant of the loop: behind a mode that the whole list supports stand only tokens with a
reading in that mode. -/
theorem readings_of_parseParts {parts : List (List Char)} {out out' : List CipherChoice}
    {mode : Option CipherMode} {m : CipherMode} (h : parseParts parts out mode = .ok (out', some m))
    (haes : m ≠ .block → ∀ c ∈ out', c.isAes = true) :
    (∀ part ∈ parts, ∃ found, tokenReading (Text.toAsciiLowercase part) = some (m, found)) ∧
      (mode = none ∨ mode = some m) ∧ ∀ c ∈ out, c ∈ out' := by
  induction parts generalizing out mode with
  | nil =>
      cases h
      exact ⟨by simp, .inr rfl, fun c hc => hc⟩
  | cons part parts ih =>
      obtain ⟨checked, hcheck, h⟩ := bind_ok h
      obtain ⟨⟨found, set⟩, hparse, h⟩ := bind_ok h
      obtain ⟨htail, hmode, hkept⟩ := ih h
      have hm : set.getD checked = m := by simpa using hmode
      cases set with
      | some set =>
          obtain ⟨rfl, c, hc, hnot⟩ := parseToken_set hparse
          have hgcm : m ≠ .block := by
            rw [← hm]
            simp
          have := haes hgcm c (hkept c (List.mem_append_right out hc))
          rw [hnot] at this
          cases this
      | none =>
          have hm' : checked = m := hm
          obtain ⟨hsplit, hold⟩ := checkMode_eq_ok.mp hcheck
          rw [hm'] at hold hsplit
          have hread : tokenReading (Text.toAsciiLowercase part) = some (m, found) := by
            refine tokenReading_eq_some.mpr ⟨hsplit.symm, ?_, ?_⟩
            · rw [hsplit]
              exact hparse
            · by_cases hblock : m = .block
              · exact .inl hblock
              · exact .inr fun c hc =>
                  haes hblock c (hkept c (List.mem_append_right out hc))
          exact ⟨List.forall_mem_cons.mpr ⟨⟨found, hread⟩, htail⟩, hold,
            fun c hc => hkept c (List.mem_append_left found hc)⟩

section Lists
variable {spec : String} {sel : CipherSelection}

theorem flatMap_named (spec : String) : (tokens spec).flatMap named =
    (Text.words spec).flatMap fun part => named (Text.toAsciiLowercase part) := by
  rw [tokens, List.flatMap_map]

theorem forall_tokens_iff {P : List Char → Prop} :
    (∀ t ∈ tokens spec, P t) ↔ ∀ part ∈ Text.words spec, P (Text.toAsciiLowercase part) := by
  simp only [tokens, List.mem_map, forall_exists_index, and_imp, forall_apply_eq_imp_iff₂]

theorem tokens_eq_nil_iff : tokens spec = [] ↔ Text.words spec = [] := List.map_eq_nil_iff

theorem readings_of_parseList (h : parseList spec = .ok sel) : tokens spec ≠ [] ∧
    (∀ t ∈ tokens spec, ∃ found, tokenReading t = some (sel.mode, found)) ∧
    sel.ciphers = sortDedup rank ((tokens spec).flatMap named) := by
  obtain ⟨⟨out, mode⟩, hparts, h⟩ := bind_ok h
  dsimp only at h
  split at h
  · cases h
  rename_i hout
  split at h
  · cases h
  rename_i haes
  cases h
  cases mode with
  | none =>
      obtain ⟨_, rfl, _⟩ := parts_nil_of_parseParts hparts
      exact absurd rfl hout
  | some m =>
      have haes' : m ≠ .block → ∀ c ∈ out, c.isAes = true := by
        intro hblock c hc
        by_contra hnot
        exact haes (by simpa [tokenModeRequiresAes, hblock] using ⟨c, hc, by simpa using hnot⟩)
      obtain ⟨hread, _, _⟩ := readings_of_parseParts hparts haes'
      rw [parseParts_of_readings hread [] (.inl rfl), List.nil_append, ← flatMap_named] at hparts
      have hpair := Prod.mk.inj (Except.ok.inj hparts)
      refine ⟨?_, forall_tokens_iff.mpr hread, by rw [← hpair.1]⟩
      intro hnil
      rw [if_pos (tokens_eq_nil_iff.mp hnil)] at hpair
      exact absurd hpair.2 (Option.some_ne_none m).symm

theorem parseList_of_readings (hsome : tokens spec ≠ [])
    (hread : ∀ t ∈ tokens spec, ∃ found, tokenReading t = some (sel.mode, found))
    (hciphers : sel.ciphers = sortDedup rank ((tokens spec).flatMap named)) :
    parseList spec = .ok sel := by
  have hparts := parseParts_of_readings (forall_tokens_iff.mp hread) [] (.inl (Eq.refl none))
  rw [if_neg (fun h => hsome (tokens_eq_nil_iff.mpr h)), List.nil_append, ← flatMap_named] at hparts
  have hout : ((tokens spec).flatMap named).isEmpty = false := by
    obtain ⟨t, ht⟩ := List.exists_mem_of_ne_nil _ hsome
    obtain ⟨found, hfound⟩ := hread t ht
    obtain ⟨c, hc⟩ :=
      List.exists_mem_of_ne_nil _ (parseToken_nonempty (tokenReading_eq_some.mp hfound).2.1)
    rw [← named_of_reading hfound] at hc
    simpa using ⟨t, ht, List.ne_nil_of_mem hc⟩
  have haes : ¬ (tokenModeRequiresAes sel.mode &&
      ((tokens spec).flatMap named).any (fun choice => !choice.isAes)) = true := by
    simp only [Bool.and_eq_true, List.any_eq_true, List.mem_flatMap, not_and, not_exists]
    rintro hmode c ⟨t, ht, hc⟩ hnot
    obtain ⟨found, hfound⟩ := hread t ht
    rw [named_of_reading hfound] at hc
    rcases (tokenReading_eq_some.mp hfound).2.2 with hblock | haes
    · simp [tokenModeRequiresAes, hblock] at hmode
    · simp [haes c hc] at hnot
  simp only [parseList, hparts, ok_bind, hout, Bool.false_eq_true, if_false, Option.getD_some,
    if_neg haes, pure_eq, ← hciphers]

/-- A list is accepted exactly where it has tokens, each with a reading in the mode of the list;
its ciphers are those the tokens name, each once, in the order of their declaration. -/
theorem parseList_eq_ok_iff :
    parseList spec = .ok sel ↔ tokens spec ≠ [] ∧
      (∀ t ∈ tokens spec, ∃ found, tokenReading t = some (sel.mode, found)) ∧
      sel.ciphers = sortDedup rank ((tokens spec).flatMap named) := by
  constructor
  · exact readings_of_parseList
  · rintro ⟨hsome, hread, hciphers⟩
    exact parseList_of_readings hsome hread hciphers

theorem mem_ciphers_iff (h : parseList spec = .ok sel) {c : CipherChoice} :
    c ∈ sel.ciphers ↔ ∃ t ∈ tokens spec, c ∈ named t := by
  rw [(parseList_eq_ok_iff.mp h).2.2, SortDedup.mem_sortDedup rank_injective, List.mem_flatMap]

theorem ciphers_increasing (h : parseList spec = .ok sel) :
    sel.ciphers.Pairwise fun a b => a.rank < b.rank := by
  rw [(parseList_eq_ok_iff.mp h).2.2]
  exact SortDedup.sortDedup_increasing rank_injective _

end Lists

end CipherChoice

end Memhunt
