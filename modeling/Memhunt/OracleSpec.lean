import Memhunt.Lib.Text
import Memhunt.Oracle

/-! Oracle lists as the command line and the server take them, and which of them can be written. -/
namespace Memhunt
open Rust

/-- The oracle types, with what an instance holds. -/
inductive OracleSpec where
  | utf8
  | json
  | gzip
  | utf16Le
  | protobuf
  | known (fragment : Bytes)
  deriving DecidableEq, Repr

namespace OracleSpec

def oracle : OracleSpec → Oracle
  | utf8 => utf8Oracle
  | json => jsonOracle
  | gzip => gzipOracle
  | utf16Le => utf16LeOracle
  | protobuf => protobufOracle
  | known fragment => knownPlaintextOracle fragment

def knownPrefix : List Char := "known:".toList

def unknownOracle (other : String) : String :=
  "unknown oracle '" ++ other ++ "' (utf8 | utf16le | json | gzip | protobuf | known:<text>)"

/-- The match on one trimmed part. -/
def parsePart (part : List Char) : Run (Option OracleSpec) :=
  if part = "utf8".toList then .ok (some utf8)
  else if part = "json".toList then .ok (some json)
  else if part = "gzip".toList then .ok (some gzip)
  else if part = "utf16le".toList ∨ part = "utf16".toList then .ok (some utf16Le)
  else if part = "protobuf".toList then .ok (some protobuf)
  else if knownPrefix.isPrefixOf part then
    .ok (some (known ((Utf8.encode part).drop knownPrefix.length)))
  else if part.isEmpty then .ok none
  else fail (unknownOracle (String.ofList part))

/-- The types of the oracles, in the order of the parts. -/
def parseParts (spec : String) : Run (List OracleSpec) := do
  let oracles ← (Text.pieces spec).filterMapM parsePart
  if oracles.isEmpty then fail "no oracle enabled" else return oracles

end OracleSpec

/-- Parse an oracle spec string into oracle instances. -/
def parseSpec (spec : String) : Run (List Oracle) := do
  let oracles ← OracleSpec.parseParts spec
  return oracles.map OracleSpec.oracle

namespace OracleSpec

/-- A text that a part can carry to its end: no comma in it, no white space after it. -/
def Carried (text : List Char) : Prop :=
  ',' ∉ text ∧ ∀ c ∈ text.getLast?, Text.isWhitespace c = false

/-- How an oracle is written. -/
inductive Writes : List Char → OracleSpec → Prop where
  | utf8 : Writes "utf8".toList utf8
  | json : Writes "json".toList json
  | gzip : Writes "gzip".toList gzip
  | utf16Le : Writes "utf16le".toList utf16Le
  | utf16 : Writes "utf16".toList utf16Le
  | protobuf : Writes "protobuf".toList protobuf
  | known {text : List Char} (h : Carried text) :
      Writes (knownPrefix ++ text) (known (Utf8.encode text))

theorem drop_encode_known (text : List Char) :
    (Utf8.encode (knownPrefix ++ text)).drop knownPrefix.length = Utf8.encode text := by
  have hfront : Utf8.encode knownPrefix = [0x6b, 0x6e, 0x6f, 0x77, 0x6e, 0x3a] := by decide
  have hlen : knownPrefix.length = 6 := by decide
  rw [Utf8.encode, List.flatMap_append, ← Utf8.encode, ← Utf8.encode, hfront, hlen]
  rfl

theorem parsePart_known (text : List Char) :
    parsePart (knownPrefix ++ text) = .ok (some (known (Utf8.encode text))) := by
  have hfront : knownPrefix = ['k', 'n', 'o', 'w', 'n', ':'] := by decide
  have hne : ∀ other : List Char, other.head? ≠ some 'k' → knownPrefix ++ text ≠ other := by
    rintro other hother rfl
    exact hother (by rw [hfront]; rfl)
  have hstarts : knownPrefix.isPrefixOf (knownPrefix ++ text) = true := by simp
  unfold parsePart
  rw [if_neg (hne _ (by decide)), if_neg (hne _ (by decide)), if_neg (hne _ (by decide)),
    if_neg (not_or.mpr ⟨hne _ (by decide), hne _ (by decide)⟩), if_neg (hne _ (by decide)),
    if_pos hstarts, drop_encode_known]

theorem Writes.ne_nil {part : List Char} {o : OracleSpec} (h : Writes part o) : part ≠ [] := by
  cases h with
  | known _ => simp [knownPrefix]
  | utf8 => decide
  | json => decide
  | gzip => decide
  | utf16Le => decide
  | utf16 => decide
  | protobuf => decide

theorem parsePart_of_writes {part : List Char} {o : OracleSpec} (h : Writes part o) :
    parsePart part = .ok (some o) := by
  cases h with
  | known _ => exact parsePart_known _
  | utf8 => decide
  | json => decide
  | gzip => decide
  | utf16Le => decide
  | utf16 => decide
  | protobuf => decide

/-- A part that is read is written so; a part of white space alone is passed over. -/
theorem writes_of_parsePart {part : List Char} (hcomma : ',' ∉ part)
    (hlast : ∀ c ∈ part.getLast?, Text.isWhitespace c = false) {r : Option OracleSpec}
    (h : parsePart part = .ok r) :
    (∃ o, r = some o ∧ Writes part o) ∨ (r = none ∧ part = []) := by
  unfold parsePart at h
  split at h
  · rename_i hpart
    cases h
    exact .inl ⟨_, rfl, hpart ▸ .utf8⟩
  split at h
  · rename_i hpart
    cases h
    exact .inl ⟨_, rfl, hpart ▸ .json⟩
  split at h
  · rename_i hpart
    cases h
    exact .inl ⟨_, rfl, hpart ▸ .gzip⟩
  split at h
  · rename_i hpart
    cases h
    rcases hpart with hpart | hpart
    · exact .inl ⟨_, rfl, hpart ▸ .utf16Le⟩
    · exact .inl ⟨_, rfl, hpart ▸ .utf16⟩
  split at h
  · rename_i hpart
    cases h
    exact .inl ⟨_, rfl, hpart ▸ .protobuf⟩
  split at h
  · rename_i hpart
    obtain ⟨text, rfl⟩ := List.isPrefixOf_iff_prefix.mp hpart
    cases h
    rw [drop_encode_known]
    refine .inl ⟨_, rfl, .known ⟨fun hc => hcomma (List.mem_append_right _ hc), ?_⟩⟩
    intro c hc
    refine hlast c ?_
    rw [List.getLast?_append, hc]
    rfl
  split at h
  · rename_i hpart
    cases h
    exact .inr ⟨rfl, List.isEmpty_iff.mp hpart⟩
  · cases h

theorem parsePart_nil : parsePart [] = .ok none := by decide

/-- Parts are read one by one; those of white space alone leave nothing. -/
theorem filterMapM_eq_ok_iff {parts : List (List Char)}
    (hparts : ∀ part ∈ parts, ',' ∉ part ∧ ∀ c ∈ part.getLast?, Text.isWhitespace c = false)
    {os : List OracleSpec} :
    parts.filterMapM parsePart = .ok os ↔
      List.Forall₂ Writes (parts.filter fun part => !part.isEmpty) os := by
  induction parts generalizing os with
  | nil =>
      rw [List.filterMapM_nil, List.filter_nil, pure_eq, Except.ok.injEq, List.forall₂_nil_left_iff]
      exact eq_comm
  | cons part parts ih =>
      obtain ⟨⟨hcomma, hlast⟩, hrest⟩ := List.forall_mem_cons.mp hparts
      have ih := @ih hrest
      rw [List.filterMapM_cons]
      constructor
      · intro h
        obtain ⟨r, hr, h⟩ := bind_ok h
        rcases writes_of_parsePart hcomma hlast hr with ⟨o, rfl, hwrites⟩ | ⟨rfl, rfl⟩
        · obtain ⟨more, hmore, hos⟩ := bind_ok h
          obtain rfl := Except.ok.inj hos
          have hne := hwrites.ne_nil
          rw [List.filter_cons_of_pos (by simpa using hne)]
          exact .cons hwrites (ih.mp hmore)
        · rw [List.filter_cons_of_neg (by simp)]
          exact ih.mp h
      · intro h
        cases hpart : part with
        | nil =>
            rw [hpart, List.filter_cons_of_neg (by simp)] at h
            rw [parsePart_nil, ok_bind]
            exact ih.mpr h
        | cons c cs =>
            rw [hpart, List.filter_cons_of_pos (by simp), ← hpart] at h
            cases h with
            | cons hwrites hmore =>
                rw [← hpart, parsePart_of_writes hwrites, ok_bind]
                simp only [ih.mpr hmore, ok_bind, pure_eq]

theorem parseParts_eq_ok_iff {spec : String} {os : List OracleSpec} :
    parseParts spec = .ok os ↔ os ≠ [] ∧ List.Forall₂ Writes (Text.words spec) os := by
  have hpieces : ∀ part ∈ Text.pieces spec,
      ',' ∉ part ∧ ∀ c ∈ part.getLast?, Text.isWhitespace c = false :=
    fun part hpart => ⟨Text.comma_not_mem_piece hpart, Text.getLast_piece hpart⟩
  have hread := @filterMapM_eq_ok_iff _ hpieces
  unfold parseParts
  constructor
  · intro h
    obtain ⟨found, hfound, h⟩ := bind_ok h
    cases found with
    | nil => cases h
    | cons o found =>
        obtain rfl := Except.ok.inj h
        exact ⟨List.cons_ne_nil o found, hread.mp hfound⟩
  · rintro ⟨hne, hall⟩
    rw [hread.mpr hall, ok_bind]
    cases os with
    | nil => exact absurd rfl hne
    | cons o os => rfl

theorem Writes.comma_not_mem {part : List Char} {o : OracleSpec} (h : Writes part o) :
    ',' ∉ part := by
  have hfront : ',' ∉ knownPrefix := by decide
  cases h with
  | known h => exact fun hc => (List.mem_append.mp hc).elim hfront h.1
  | utf8 => decide
  | json => decide
  | gzip => decide
  | utf16Le => decide
  | utf16 => decide
  | protobuf => decide

theorem Writes.trim_eq {part : List Char} {o : OracleSpec} (h : Writes part o) :
    Text.trim part = part := by
  cases h with
  | @known text h =>
      refine Text.trim_of_ends ?_ ?_
      · intro c hc
        have hk : knownPrefix.head? = some 'k' := by decide
        rw [List.head?_append, hk] at hc
        obtain rfl := Option.some.inj hc
        decide
      · intro c hc
        rw [List.getLast?_append] at hc
        cases hlast : text.getLast? with
        | none =>
            have hcolon : knownPrefix.getLast? = some ':' := by decide
            rw [hlast, hcolon] at hc
            obtain rfl := Option.some.inj hc
            decide
        | some d =>
            rw [hlast] at hc
            exact h.2 c (hlast.trans hc)
  | utf8 => decide
  | json => decide
  | gzip => decide
  | utf16Le => decide
  | utf16 => decide
  | protobuf => decide

theorem writes_known_iff {part : List Char} {fragment : Bytes} (h : Writes part (known fragment)) :
    ∃ text, Carried text ∧ fragment = Utf8.encode text := by
  cases h with
  | known h => exact ⟨_, h, rfl⟩

/-- Every oracle whose fragment, if it has one, can be carried has a part that writes it. -/
theorem exists_writes {o : OracleSpec}
    (h : ∀ fragment, o = known fragment → ∃ text, Carried text ∧ fragment = Utf8.encode text) :
    ∃ part, Writes part o := by
  cases o with
  | utf8 => exact ⟨_, .utf8⟩
  | json => exact ⟨_, .json⟩
  | gzip => exact ⟨_, .gzip⟩
  | utf16Le => exact ⟨_, .utf16Le⟩
  | protobuf => exact ⟨_, .protobuf⟩
  | known fragment =>
      obtain ⟨text, hcarried, rfl⟩ := h fragment rfl
      exact ⟨_, .known hcarried⟩

theorem exists_parts {os : List OracleSpec} (h : ∀ o ∈ os, ∃ part, Writes part o) :
    ∃ parts, List.Forall₂ Writes parts os := by
  induction os with
  | nil => exact ⟨[], .nil⟩
  | cons o os ih =>
      obtain ⟨⟨part, hpart⟩, hrest⟩ := List.forall_mem_cons.mp h
      obtain ⟨parts, hparts⟩ := ih hrest
      exact ⟨part :: parts, .cons hpart hparts⟩

theorem forall_of_forall₂ {parts : List (List Char)} {os : List OracleSpec}
    (h : List.Forall₂ Writes parts os) :
    (∀ part ∈ parts, ∃ o, Writes part o) ∧ ∀ o ∈ os, ∃ part, Writes part o := by
  induction h with
  | nil => simp
  | cons hpart _ ih =>
      exact ⟨List.forall_mem_cons.mpr ⟨⟨_, hpart⟩, ih.1⟩,
        List.forall_mem_cons.mpr ⟨⟨_, hpart⟩, ih.2⟩⟩

/-- The parts of a list joined by commas are its words again. -/
theorem words_intercalate {parts : List (List Char)} (hne : parts ≠ [])
    (h : ∀ part ∈ parts, ∃ o, Writes part o) :
    Text.words (String.ofList ([','].intercalate parts)) = parts := by
  have hcomma : ∀ part ∈ parts, ',' ∉ part := by
    intro part hpart
    obtain ⟨o, ho⟩ := h part hpart
    exact ho.comma_not_mem
  have htrim : parts.map Text.trim = parts := by
    refine (List.map_congr_left ?_).trans (List.map_id parts)
    intro part hpart
    obtain ⟨o, ho⟩ := h part hpart
    exact ho.trim_eq
  rw [Text.words, Text.pieces_intercalate hcomma hne, htrim, List.filter_eq_self]
  intro part hpart
  obtain ⟨o, ho⟩ := h part hpart
  simpa using ho.ne_nil

/-- The lists that some spec asks for are the lists that are not empty and whose fragments are
texts without a comma and without white space at their end. No other fragment can be asked for. -/
theorem oracle_lists_written (os : List OracleSpec) :
    (∃ spec, parseParts spec = .ok os) ↔
      os ≠ [] ∧ ∀ fragment, known fragment ∈ os →
        ∃ text, (',' ∉ text ∧ ∀ c ∈ text.getLast?, Text.isWhitespace c = false) ∧
          fragment = Utf8.encode text := by
  constructor
  · rintro ⟨spec, hspec⟩
    obtain ⟨hne, hall⟩ := parseParts_eq_ok_iff.mp hspec
    refine ⟨hne, ?_⟩
    intro fragment hfragment
    obtain ⟨part, hpart⟩ := (forall_of_forall₂ hall).2 _ hfragment
    exact writes_known_iff hpart
  · rintro ⟨hne, hfragments⟩
    have hwritten : ∀ o ∈ os, ∃ part, Writes part o := by
      intro o ho
      refine exists_writes ?_
      rintro fragment rfl
      exact hfragments fragment ho
    obtain ⟨parts, hparts⟩ := exists_parts hwritten
    have hsome : parts ≠ [] := by
      rintro rfl
      cases hparts
      exact hne rfl
    refine ⟨String.ofList ([','].intercalate parts), parseParts_eq_ok_iff.mpr ⟨hne, ?_⟩⟩
    rwa [words_intercalate hsome (forall_of_forall₂ hparts).1]

/-- A spec is accepted exactly when every word of it writes an oracle and there is one; the oracles
come in the order of the words. Two accepted specs joined by a comma ask for both lists. -/
theorem parse_spec_exact (spec : String) :
    (∀ oracles, parseSpec spec = .ok oracles ↔ ∃ os, os ≠ [] ∧
      List.Forall₂ Writes (Text.words spec) os ∧ oracles = os.map oracle) ∧
    ∀ more before after, parseSpec spec = .ok before → parseSpec more = .ok after →
      parseSpec (spec ++ "," ++ more) = .ok (before ++ after) := by
  have hexact : ∀ spec oracles, parseSpec spec = .ok oracles ↔ ∃ os, os ≠ [] ∧
      List.Forall₂ Writes (Text.words spec) os ∧ oracles = os.map oracle := by
    intro spec oracles
    unfold parseSpec
    constructor
    · intro h
      obtain ⟨os, hos, h⟩ := bind_ok h
      obtain ⟨hne, hall⟩ := parseParts_eq_ok_iff.mp hos
      exact ⟨os, hne, hall, (Except.ok.inj h).symm⟩
    · rintro ⟨os, hne, hall, rfl⟩
      rw [parseParts_eq_ok_iff.mpr ⟨hne, hall⟩]
      rfl
  refine ⟨hexact spec, ?_⟩
  intro more before after hbefore hafter
  obtain ⟨os, hne, hos, rfl⟩ := (hexact spec before).mp hbefore
  obtain ⟨ps, _, hps, rfl⟩ := (hexact more after).mp hafter
  refine (hexact _ _).mpr ⟨os ++ ps, by simp [hne], ?_, List.map_append.symm⟩
  rw [Text.words_append_comma]
  exact List.rel_append hos hps

end OracleSpec

end Memhunt
