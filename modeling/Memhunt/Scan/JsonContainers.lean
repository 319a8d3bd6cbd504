import Memhunt.Oracle
import Memhunt.Lib.JsonText

/-! The JSON oracle on whole documents: of the compact texts of objects and arrays it takes those
that begin as it expects and hold no raw control character. -/
namespace Memhunt
open Utf8 (encode fromUtf8_encode encode_ascii isControl)
open Json

theorem jsonOracle_encode (cs : List Char) :
    jsonOracle.verify (encode cs) = (jsonStart (encode cs) && cs.all isPrintable) := by
  simp only [jsonOracle, fromUtf8_encode]
  cases jsonStart (encode cs) with
  | false => rfl
  | true => rfl

section Characters

theorem isPrintable_of_plain {c : Char} (h : Plain c) : isPrintable c = true := by
  have hcontrol : isControl c = false := by
    unfold Plain at h
    simp only [isControl, Bool.or_eq_false_iff, Bool.and_eq_false_iff, decide_eq_false_iff_not]
    omega
  rw [isPrintable, hcontrol]
  rfl

/-- A control character that a JSON string may hold as it is. -/
def RawControl (c : Char) : Prop := 0x7f ≤ c.toNat ∧ c.toNat ≤ 0x9f

instance (c : Char) : Decidable (RawControl c) :=
  inferInstanceAs (Decidable (0x7f ≤ c.toNat ∧ c.toNat ≤ 0x9f))

theorem escape_printable_iff (c : Char) :
    (∀ e ∈ escape c, isPrintable e = true) ↔ ¬ RawControl c := by
  have hescaped : ∀ text : List Char, (∀ e ∈ text, Plain e) → c.toNat < 0x7f →
      ((∀ e ∈ text, isPrintable e = true) ↔ ¬ RawControl c) := fun text htext hc =>
    iff_of_true (fun e he => isPrintable_of_plain (htext e he)) fun h => absurd h.1 (by omega)
  have hdigit : ∀ d < 16, Plain (Nat.digitChar d) := by decide
  unfold escape
  split_ifs with h1 h2 h3 h4 h5 h6 h7 h8
  · exact hescaped _ (by simp [Plain]) (by simp [h1])
  · exact hescaped _ (by simp [Plain]) (by simp [h2])
  · exact hescaped _ (by simp [Plain]) (by omega)
  · exact hescaped _ (by simp [Plain]) (by simp [h4])
  · exact hescaped _ (by simp [Plain]) (by simp [h5])
  · exact hescaped _ (by simp [Plain]) (by omega)
  · exact hescaped _ (by simp [Plain]) (by simp [h7])
  · refine hescaped _ ?_ (by omega)
    have hhigh := hdigit (c.toNat / 16) (by omega)
    have hlow := hdigit (c.toNat % 16) (by omega)
    simp only [List.forall_mem_cons, hhigh, hlow]
    simp [Plain]
  · rw [List.forall_mem_singleton]
    have hcontrol : isControl c = true ↔ RawControl c := by
      simp only [isControl, RawControl, Bool.or_eq_true, Bool.and_eq_true, decide_eq_true_iff]
      omega
    simp only [isPrintable, h4, h5, h7, ← hcontrol, Bool.or_eq_true, beq_iff_eq, or_false,
      Bool.not_eq_true', Bool.not_eq_true]

end Characters

section Starts
variable (floats : UInt64 → Numeral)

def OpensAsExpected : Value → Prop
  | .null => False
  | .bool _ => False
  | .number n => (n.numeral floats).negative = false
  | _ => True

theorem jsonStart_encode {a b : Char} (ha : a.toNat < 0x80) (hb : b.toNat < 0x80)
    (rest : List Char) : jsonStart (encode (a :: b :: rest)) =
      jsonStart [UInt8.ofNat a.toNat, UInt8.ofNat b.toNat] := by
  rw [encode_ascii ha, encode_ascii hb]
  rfl

theorem jsonStart_digit {c : Char} (h : c.isDigit = true) :
    jsonStart [0x5b, UInt8.ofNat c.toNat] = true := by
  obtain ⟨hlow, hhigh⟩ := Char.isDigit_iff_toNat.mp h
  have hzero : '0'.toNat = 0x30 := rfl
  have hnine : '9'.toNat = 0x39 := rfl
  have hbyte : (UInt8.ofNat c.toNat).toNat = c.toNat := Bytes.toNat_ofNat (by omega)
  have hdigit : isAsciiDigit (UInt8.ofNat c.toNat) = true := by
    rw [isAsciiDigit, hbyte, Bool.and_eq_true, decide_eq_true_iff, decide_eq_true_iff]
    omega
  simp [jsonStart, hdigit]

theorem jsonStart_leading (v : Value) :
    jsonStart [0x5b, UInt8.ofNat (v.leading floats).toNat] = true ↔ OpensAsExpected floats v := by
  have hnull : ¬ jsonStart [0x5b, UInt8.ofNat 'n'.toNat] = true := by decide
  have htrue : ¬ jsonStart [0x5b, UInt8.ofNat 't'.toNat] = true := by decide
  have hfalse : ¬ jsonStart [0x5b, UInt8.ofNat 'f'.toNat] = true := by decide
  have hminus : ¬ jsonStart [0x5b, UInt8.ofNat '-'.toNat] = true := by decide
  have hstring : jsonStart [0x5b, UInt8.ofNat '"'.toNat] = true := by decide
  have harray : jsonStart [0x5b, UInt8.ofNat '['.toNat] = true := by decide
  have hobject : jsonStart [0x5b, UInt8.ofNat '\x7b'.toNat] = true := by decide
  cases v with
  | null => exact iff_of_false hnull id
  | bool b =>
      cases b with
      | true => exact iff_of_false htrue id
      | false => exact iff_of_false hfalse id
  | number n =>
      rw [Value.leading, OpensAsExpected]
      by_cases hneg : (n.numeral floats).negative = true
      · rw [if_pos hneg, hneg]
        exact iff_of_false hminus (by decide)
      · rw [if_neg hneg]
        exact iff_of_true (jsonStart_digit (n.numeral floats).whole.first_isDigit)
          (Bool.not_eq_true _ ▸ hneg)
  | string s => exact iff_of_true hstring trivial
  | array vs => exact iff_of_true harray trivial
  | object ms => exact iff_of_true hobject trivial

end Starts

def NonemptyContainer : Value → Prop
  | .array (_ :: _) => True
  | .object (_ :: _) => True
  | _ => False

/-- An object, or an array whose first element begins with a character that the oracle knows. -/
def KnownStart (floats : UInt64 → Numeral) : Value → Prop
  | .array (v :: _) => OpensAsExpected floats v
  | _ => True

theorem jsonStart_compact (floats : UInt64 → Numeral) {v : Value} (h : NonemptyContainer v) :
    jsonStart (encode (v.compact floats)) = true ↔ KnownStart floats v := by
  match v with
  | .array (v :: vs) =>
      obtain ⟨rest, htext⟩ := Value.compact_array floats v vs
      have hleading := Value.leading_plain floats v
      unfold Plain at hleading
      rw [htext, jsonStart_encode (by decide) (by omega), KnownStart]
      exact jsonStart_leading floats v
  | .object (m :: ms) =>
      obtain ⟨rest, htext⟩ := Value.compact_object floats m ms
      rw [htext, jsonStart_encode (by decide) (by decide)]
      exact iff_of_true (by decide) trivial

/-- The compact text of an object or an array that is not empty is accepted where its first element
begins as expected and none of its strings and keys holds a raw control character. -/
theorem json_container_accepted_iff (floats : UInt64 → Numeral) (v : Value)
    (h : NonemptyContainer v) :
    jsonOracle.verify (encode (v.compact floats)) = true ↔
      KnownStart floats v ∧ ∀ s ∈ v.strings, ∀ c ∈ s.toList, ¬ RawControl c := by
  have hchars : (v.compact floats).all isPrintable = true ↔
      ∀ s ∈ v.strings, ∀ c ∈ s.toList, ¬ RawControl c := by
    rw [List.all_eq_true, Value.forall_mem_compact fun _ => isPrintable_of_plain]
    simp only [escape_printable_iff]
  rw [jsonOracle_encode, Bool.and_eq_true, jsonStart_compact floats h, hchars]

def integersOnly : UInt64 → Numeral := fun _ => .ofInt 0

def userValue : Value :=
  .object [("user", .string "admin"), ("ids", .array [.number (.negInt (-1))])]

theorem json_container_accepted_sample :
    jsonOracle.verify (encode (userValue.compact integersOnly)) = true :=
  (json_container_accepted_iff integersOnly userValue trivial).mpr
    ⟨trivial, by simp [userValue, Value.strings, Value.memberStrings, Value.entryStrings,
      Value.elementStrings, RawControl]⟩

/-- An array of flags, one of negative numbers, and a string with the delete character. -/
theorem json_container_refused :
    (NonemptyContainer (.array [.bool true]) ∧
      jsonOracle.verify (encode ((Value.array [.bool true]).compact integersOnly)) = false) ∧
    (NonemptyContainer (.array [.number (.negInt (-1))]) ∧
      jsonOracle.verify
        (encode ((Value.array [.number (.negInt (-1))]).compact integersOnly)) = false) ∧
    (NonemptyContainer (.array [.string "\x7f"]) ∧
      jsonOracle.verify (encode ((Value.array [.string "\x7f"]).compact integersOnly)) = false) := by
  refine ⟨⟨trivial, ?_⟩, ⟨trivial, ?_⟩, trivial, ?_⟩
  · decide +kernel
  · decide +kernel
  · decide +kernel

end Memhunt
