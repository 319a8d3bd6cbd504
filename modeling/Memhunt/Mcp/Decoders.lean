import Memhunt.Mcp.Tools

/-! The target decoder of the command line and that of the server: what they read back, and where
they agree. -/
namespace Memhunt
open Rust

theorem ascii_of_hexdigits {t : List Char} (h : ∀ c ∈ t, Hex.isAsciiHexdigit c = true) :
    ∀ c ∈ t, c.toNat < 0x80 := by
  intro c hc
  have := (Hex.visible_of_isAsciiHexdigit (h c hc)).2
  omega

theorem hexTest_iff (t : List Char) :
    ((Utf8.encode t).length % 2 == 0 && !t.isEmpty && t.all Hex.isAsciiHexdigit) = true ↔
      t ≠ [] ∧ (Hex.decodeDigits t).isSome = true := by
  rw [Hex.decodeDigits_isSome_iff]
  simp only [Bool.and_eq_true, beq_iff_eq, Bool.not_eq_true', List.isEmpty_eq_false_iff,
    List.all_eq_true]
  constructor
  · rintro ⟨⟨hlen, hne⟩, hall⟩
    rw [Utf8.length_encode_ascii (ascii_of_hexdigits hall)] at hlen
    exact ⟨hne, hlen, hall⟩
  · rintro ⟨hne, hlen, hall⟩
    rw [Utf8.length_encode_ascii (ascii_of_hexdigits hall)]
    exact ⟨⟨hlen, hne⟩, hall⟩

/-- The test before the call accepts all texts but the empty one that the crate can read. -/
theorem tryHex_eq {s : String} (hne : Text.trim s.toList ≠ []) :
    tryHex s = Hex.decodeDigits (Text.trim s.toList) := by
  simp only [tryHex, Hex.decode, String.toList_ofList]
  by_cases htest : (Hex.decodeDigits (Text.trim s.toList)).isSome = true
  · rw [if_pos ((hexTest_iff _).mpr ⟨hne, htest⟩)]
  · rw [if_neg fun h => htest ((hexTest_iff _).mp h).2]
    rw [Bool.not_eq_true, Option.isSome_eq_false_iff, Option.isNone_iff_eq_none] at htest
    exact htest.symm

section Decoders
variable (base64 : Base64Crate) (s : String)

def autoDetect : Option Bytes := tryHex s <|> tryB64 base64 s

theorem decodeBlob_eq : decodeBlob base64 s =
    required (autoDetect base64 s) "could not decode input as hex or base64" := by
  have horder : ∀ t : List Char,
      (t.all Hex.isAsciiHexdigit && (Utf8.encode t).length % 2 == 0 && !t.isEmpty) =
        ((Utf8.encode t).length % 2 == 0 && !t.isEmpty && t.all Hex.isAsciiHexdigit) := by
    intro t
    rw [Bool.and_assoc, Bool.and_comm]
  simp only [decodeBlob, horder, autoDetect, tryHex, tryB64]
  split
  · cases Hex.decode (String.ofList (Text.trim s.toList)) with
    | none => rfl
    | some v => rfl
  · rfl

theorem decodeBlob_eq_ok {v : Bytes} :
    decodeBlob base64 s = .ok v ↔ autoDetect base64 s = some v := by
  rw [decodeBlob_eq, required_eq_ok]

theorem decodeCiphertext_auto_eq_ok {v : Bytes} :
    decodeCiphertext base64 s "auto" = .ok v ↔ autoDetect base64 s = some v ∧ v ≠ [] := by
  have hauto : decodeCiphertext base64 s "auto" = (required (autoDetect base64 s)
      "could not auto-detect target as hex or base64; use --encoding" >>= fun decoded =>
        if decoded.isEmpty then fail "ciphertext is empty" else pure decoded) := rfl
  rw [hauto]
  cases hdetect : autoDetect base64 s with
  | none => exact iff_of_false (fail_ne_ok _ v) (by simp)
  | some decoded =>
      rw [required, ok_bind]
      cases decoded with
      | nil =>
          refine iff_of_false (fail_ne_ok _ v) ?_
          rintro ⟨h, hne⟩
          exact hne (Option.some.inj h).symm
      | cons b decoded =>
          simp only [List.isEmpty_cons, Bool.false_eq_true, if_false, pure_eq, Except.ok.injEq,
            Option.some.injEq]
          constructor
          · rintro rfl
            exact ⟨rfl, List.cons_ne_nil _ _⟩
          · exact fun h => h.1

variable {base64 s}

theorem decoders_ok {v : Bytes} (h : autoDetect base64 s = some v) (hne : v ≠ []) :
    decodeCiphertext base64 s "auto" = .ok v ∧ decodeBlob base64 s = .ok v :=
  ⟨(decodeCiphertext_auto_eq_ok base64 s).mpr ⟨h, hne⟩, (decodeBlob_eq_ok base64 s).mpr h⟩

theorem autoDetect_hex {text : List Char} {v : Bytes} (htrim : Text.trim s.toList = text)
    (hne : text ≠ []) (h : Hex.decodeDigits text = some v) : autoDetect base64 s = some v := by
  rw [autoDetect, tryHex_eq (htrim.symm ▸ hne), htrim, h]
  rfl

theorem autoDetect_base64 {text : List Char} {v : Bytes} (htrim : Text.trim s.toList = text)
    (hne : text ≠ []) (hhex : Hex.decodeDigits text = none)
    (h : base64.decode (String.ofList text) = some v) : autoDetect base64 s = some v := by
  rw [autoDetect, tryHex_eq (htrim.symm ▸ hne), tryB64, htrim, hhex, h]
  rfl

end Decoders

/-- A text that can be read as hexadecimal digits, too. -/
def HexOnly (text : String) : Prop :=
  text.toList.length % 2 = 0 ∧ ∀ c ∈ text.toList, Hex.isAsciiHexdigit c = true

instance (text : String) : Decidable (HexOnly text) :=
  decidable_of_iff _ (Hex.decodeDigits_isSome_iff text.toList)

theorem decoders_hex (base64 : Base64Crate) {bytes : Bytes} {digits : List Char} {s : String}
    (hne : bytes ≠ []) (hdigits : Hex.Writes digits bytes)
    (hpadded : Text.Padded digits s.toList) :
    decodeCiphertext base64 s "auto" = .ok bytes ∧ decodeBlob base64 s = .ok bytes := by
  have hdecode := hdigits.decode
  have hall := ((Hex.decodeDigits_isSome_iff digits).mp (by rw [hdecode]; rfl)).2
  have hvisible : ∀ c ∈ digits, Text.isWhitespace c = false := fun c hc =>
    Text.not_isWhitespace_of_visible (Hex.visible_of_isAsciiHexdigit (hall c hc))
  have hnil : digits ≠ [] := by
    rintro rfl
    have hlen := hdigits.length
    have := List.length_pos_iff.mpr hne
    rw [List.length_nil] at hlen
    omega
  exact decoders_ok (autoDetect_hex (Text.trim_padded hpadded hvisible) hnil hdecode) hne

theorem trim_encode (bytes : Bytes) :
    Text.trim (Base64.encode bytes).toList = (Base64.encode bytes).toList := by
  refine Text.trim_padded (Text.padded_self _) ?_
  intro c hc
  rw [Base64.encode, String.toList_ofList] at hc
  exact Text.not_isWhitespace_of_visible (Base64.visible_of_mem_encodeGroups hc)

theorem encode_ne_nil {bytes : Bytes} (hne : bytes ≠ []) : (Base64.encode bytes).toList ≠ [] := by
  rw [Base64.encode, String.toList_ofList]
  exact Base64.encodeGroups_ne_nil hne

theorem decoders_base64 (base64 : Base64Crate) {bytes : Bytes} (hne : bytes ≠ [])
    (hother : ¬ HexOnly (Base64.encode bytes)) :
    decodeCiphertext base64 (Base64.encode bytes) "auto" = .ok bytes ∧
      decodeBlob base64 (Base64.encode bytes) = .ok bytes := by
  have hhex : Hex.decodeDigits (Base64.encode bytes).toList = none := by
    rw [← Option.not_isSome_iff_eq_none, Hex.decodeDigits_isSome_iff]
    exact hother
  refine decoders_ok (autoDetect_base64 (trim_encode bytes) (encode_ne_nil hne) hhex ?_) hne
  rw [String.ofList_toList]
  exact base64.decode_encode bytes

theorem decoders_ambiguous (base64 : Base64Crate) {bytes : Bytes} (hne : bytes ≠ [])
    (hhex : HexOnly (Base64.encode bytes)) :
    ∃ v, Hex.decode (Base64.encode bytes) = some v ∧
      decodeCiphertext base64 (Base64.encode bytes) "auto" = .ok v ∧
      decodeBlob base64 (Base64.encode bytes) = .ok v := by
  obtain ⟨v, hv⟩ := Option.isSome_iff_exists.mp ((Hex.decodeDigits_isSome_iff _).mpr hhex)
  have hnil : v ≠ [] := by
    rintro rfl
    exact encode_ne_nil hne (Hex.eq_nil_of_decodeDigits hv)
  exact ⟨v, hv, decoders_ok (autoDetect_hex (trim_encode bytes) (encode_ne_nil hne) hv) hnil⟩

/-- The decoders read back hexadecimal digits in either case with white space around them, and
padded base 64 unless it is all hexadecimal digits, which is then what it is read as; and they
agree on every text. -/
theorem decoders_invert_and_agree (base64 : Base64Crate) :
    (∀ (bytes : Bytes) (digits : List Char) (s : String), bytes ≠ [] →
      Hex.Writes digits bytes → Text.Padded digits s.toList →
        decodeCiphertext base64 s "auto" = .ok bytes ∧ decodeBlob base64 s = .ok bytes) ∧
    (∀ bytes : Bytes, bytes ≠ [] →
      (¬ HexOnly (Base64.encode bytes) →
        decodeCiphertext base64 (Base64.encode bytes) "auto" = .ok bytes ∧
          decodeBlob base64 (Base64.encode bytes) = .ok bytes) ∧
      (HexOnly (Base64.encode bytes) → ∃ v, Hex.decode (Base64.encode bytes) = some v ∧
        decodeCiphertext base64 (Base64.encode bytes) "auto" = .ok v ∧
          decodeBlob base64 (Base64.encode bytes) = .ok v)) ∧
    ∀ (s : String) (v : Bytes), v ≠ [] →
      (decodeCiphertext base64 s "auto" = .ok v ↔ decodeBlob base64 s = .ok v) := by
  refine ⟨?_, ?_, ?_⟩
  · intro bytes digits s hne hdigits hpadded
    exact decoders_hex base64 hne hdigits hpadded
  · intro bytes hne
    exact ⟨decoders_base64 base64 hne, decoders_ambiguous base64 hne⟩
  · intro s v hne
    rw [decodeCiphertext_auto_eq_ok, decodeBlob_eq_ok, and_iff_left hne]

def standardBase64 : Base64Crate where
  decode := Base64.decode
  decode_encode := Base64.decode_encode

/-- Digits in both cases, `Zm9v`, and `abcd`, which is hexadecimal too. -/
theorem decoders_invert_and_agree_sample :
    (decodeCiphertext standardBase64 " 2B7e\n" "auto" = .ok [0x2b, 0x7e] ∧
      decodeBlob standardBase64 " 2B7e\n" = .ok [0x2b, 0x7e]) ∧
    (decodeCiphertext standardBase64 (Base64.encode [0x66, 0x6f, 0x6f]) "auto" =
        .ok [0x66, 0x6f, 0x6f] ∧
      decodeBlob standardBase64 (Base64.encode [0x66, 0x6f, 0x6f]) = .ok [0x66, 0x6f, 0x6f]) ∧
    (∃ v, Hex.decode (Base64.encode [0x69, 0xb7, 0x1d]) = some v ∧
      decodeCiphertext standardBase64 (Base64.encode [0x69, 0xb7, 0x1d]) "auto" = .ok v ∧
      decodeBlob standardBase64 (Base64.encode [0x69, 0xb7, 0x1d]) = .ok v) ∧
    (decodeCiphertext standardBase64 "abcd" "auto" = .ok [0xab, 0xcd] ↔
      decodeBlob standardBase64 "abcd" = .ok [0xab, 0xcd]) := by
  obtain ⟨hex, standard, agree⟩ := decoders_invert_and_agree standardBase64
  refine ⟨?_, ?_, ?_, ?_⟩
  · exact hex [0x2b, 0x7e] ['2', 'B', '7', 'e'] " 2B7e\n" (by decide) (by decide)
      ⟨[' '], ['\n'], by decide, by simp [Text.isWhitespace], by simp [Text.isWhitespace]⟩
  · exact (standard [0x66, 0x6f, 0x6f] (by decide)).1 (by decide)
  · exact (standard [0x69, 0xb7, 0x1d] (by decide)).2 (by decide)
  · exact agree "abcd" [0xab, 0xcd] (by decide)

end Memhunt
