import Memhunt.Lib.Bytes

/-! Hexadecimal text of a byte string: written in lower case, read in either. -/
namespace Hex

def digit (n : Nat) : Char := if n < 10 then Char.ofNat (0x30 + n) else Char.ofNat (0x57 + n)

def byteDigits (b : UInt8) : List Char := [digit (b.toNat / 16), digit (b.toNat % 16)]

/-- `hex::encode` -/
def encode (bytes : Bytes) : String := String.ofList (bytes.flatMap byteDigits)

example : encode [0x2b, 0x7e, 0x0f] = "2b7e0f" := by decide

theorem digit_inj : ∀ {m n : Nat}, m < 16 → n < 16 → digit m = digit n → m = n := by
  have table : ∀ m < 16, ∀ n < 16, digit m = digit n → m = n := by decide
  intro m n hm hn h
  exact table m hm n hn h

theorem byteDigits_inj {a b : UInt8} (h : byteDigits a = byteDigits b) : a = b := by
  have ha := a.toNat_lt
  have hb := b.toNat_lt
  simp only [byteDigits, List.cons.injEq, and_true] at h
  have high := digit_inj (by omega) (by omega) h.1
  have low := digit_inj (by omega) (by omega) h.2
  exact UInt8.toNat_inj.mp (by omega)

theorem flatMap_byteDigits_inj {a b : Bytes}
    (h : a.flatMap byteDigits = b.flatMap byteDigits) : a = b := by
  induction a generalizing b with
  | nil =>
      cases b with
      | nil => rfl
      | cons y b => simp [byteDigits] at h
  | cons x a ih =>
      cases b with
      | nil => simp [byteDigits] at h
      | cons y b =>
          rw [List.flatMap_cons, List.flatMap_cons] at h
          obtain ⟨head, tail⟩ := List.append_inj h rfl
          rw [byteDigits_inj head, ih tail]

theorem encode_inj {a b : Bytes} : encode a = encode b ↔ a = b := by
  constructor
  · intro h
    exact flatMap_byteDigits_inj (String.ofList_injective h)
  · rintro rfl
    rfl

def nibble (c : Char) : Option Nat :=
  if '0' ≤ c ∧ c ≤ '9' then some (c.toNat - 0x30)
  else if 'A' ≤ c ∧ c ≤ 'F' then some (c.toNat - 0x37)
  else if 'a' ≤ c ∧ c ≤ 'f' then some (c.toNat - 0x57)
  else none

def decodeDigits : List Char → Option Bytes
  | [] => some []
  | [_] => none
  | a :: b :: rest => do
      let high ← nibble a
      let low ← nibble b
      let bytes ← decodeDigits rest
      return UInt8.ofNat (16 * high + low) :: bytes

/-- `hex::decode`: an odd length or another character fails. -/
def decode (text : String) : Option Bytes := decodeDigits text.toList

theorem nibble_digit {n : Nat} (h : n < 16) : nibble (digit n) = some n := by
  have table : ∀ n < 16, nibble (digit n) = some n := by decide
  exact table n h

theorem decode_encode (bytes : Bytes) : decode (encode bytes) = some bytes := by
  rw [decode, encode, String.toList_ofList]
  induction bytes with
  | nil => rfl
  | cons b bytes ih =>
      have hb := b.toNat_lt
      have hvalue : 16 * (b.toNat / 16) + b.toNat % 16 = b.toNat := by omega
      simp only [List.flatMap_cons, byteDigits, List.cons_append, List.nil_append, decodeDigits,
        nibble_digit (show b.toNat / 16 < 16 by omega),
        nibble_digit (show b.toNat % 16 < 16 by omega), ih, Option.bind_eq_bind, Option.bind_some,
        Option.pure_def, hvalue, UInt8.ofNat_toNat]

/-- `char::is_ascii_hexdigit` -/
def isAsciiHexdigit (c : Char) : Bool :=
  ('0' ≤ c && c ≤ '9') || ('a' ≤ c && c ≤ 'f') || ('A' ≤ c && c ≤ 'F')

theorem isSome_nibble (c : Char) : (nibble c).isSome = isAsciiHexdigit c := by
  unfold nibble isAsciiHexdigit
  by_cases hdecimal : '0' ≤ c ∧ c ≤ '9'
  · simp [hdecimal]
  by_cases hupper : 'A' ≤ c ∧ c ≤ 'F'
  · simp [hdecimal, hupper]
  by_cases hlower : 'a' ≤ c ∧ c ≤ 'f'
  · simp [hdecimal, hupper, hlower]
  · rw [if_neg hdecimal, if_neg hupper, if_neg hlower]
    simp only [← Bool.decide_and, hdecimal, hupper, hlower, decide_false, Bool.or_self,
      Option.isSome_none]

theorem nibble_toLower (c : Char) : nibble c.toLower = nibble c := by
  by_cases hascii : c.toNat < 128
  · have table : ∀ n < 128, nibble (Char.ofNat n).toLower = nibble (Char.ofNat n) := by decide
    have h := table c.toNat hascii
    rwa [Char.ofNat_toNat] at h
  · have hsame : c.toLower = c := by
      refine dif_neg ?_
      rintro ⟨_, hz⟩
      have : c.toNat ≤ 90 := hz
      omega
    rw [hsame]

theorem decodeDigits_map_toLower (digits : List Char) :
    decodeDigits (digits.map Char.toLower) = decodeDigits digits := by
  fun_induction decodeDigits digits with
  | case1 => rfl
  | case2 c => rfl
  | case3 a b rest ih =>
      simp only [List.map_cons, decodeDigits, nibble_toLower, ih]

/-- The digits of a byte string, each of them in either case. -/
def Writes (digits : List Char) (bytes : Bytes) : Prop :=
  digits.map Char.toLower = (encode bytes).toList

instance (digits : List Char) (bytes : Bytes) : Decidable (Writes digits bytes) :=
  inferInstanceAs (Decidable (digits.map Char.toLower = (encode bytes).toList))

theorem Writes.decode {digits : List Char} {bytes : Bytes} (h : Writes digits bytes) :
    decodeDigits digits = some bytes := by
  rw [← decodeDigits_map_toLower, h]
  exact decode_encode bytes

theorem length_encode (bytes : Bytes) : (encode bytes).toList.length = 2 * bytes.length := by
  rw [encode, String.toList_ofList]
  induction bytes with
  | nil => rfl
  | cons b bytes ih =>
      rw [List.flatMap_cons, List.length_append, ih, List.length_cons]
      simp only [byteDigits, List.length_cons, List.length_nil]
      omega

theorem Writes.length {digits : List Char} {bytes : Bytes} (h : Writes digits bytes) :
    digits.length = 2 * bytes.length := by
  rw [← length_encode, ← h, List.length_map]

/-- What is decoded is an even number of digits, and all such texts are. -/
theorem decodeDigits_isSome_iff (text : List Char) : (decodeDigits text).isSome = true ↔
    text.length % 2 = 0 ∧ ∀ c ∈ text, isAsciiHexdigit c = true := by
  fun_induction decodeDigits text with
  | case1 => simp
  | case2 c => simp
  | case3 a b rest ih =>
      have hlen : (a :: b :: rest).length % 2 = rest.length % 2 := by
        simp only [List.length_cons]
        omega
      rw [hlen, List.forall_mem_cons, List.forall_mem_cons, ← isSome_nibble a, ← isSome_nibble b]
      cases nibble a with
      | none => simp
      | some high =>
          cases nibble b with
          | none => simp
          | some low =>
              simp only [Option.bind_eq_bind, Option.bind_some, Option.pure_def,
                Option.isSome_some, true_and, ← ih]
              cases decodeDigits rest with
              | none => rfl
              | some bytes => rfl

theorem eq_nil_of_decodeDigits {text : List Char} (h : decodeDigits text = some []) :
    text = [] := by
  fun_cases decodeDigits text with
  | case1 => rfl
  | case2 c => cases h
  | case3 a b rest => simp [decodeDigits, Option.bind_eq_some_iff] at h

theorem visible_of_isAsciiHexdigit {c : Char} (h : isAsciiHexdigit c = true) :
    0x21 ≤ c.toNat ∧ c.toNat ≤ 0x7e := by
  simp only [isAsciiHexdigit, Bool.or_eq_true, Bool.and_eq_true, decide_eq_true_eq] at h
  rcases h with (⟨hlow, hhigh⟩ | ⟨hlow, hhigh⟩) | ⟨hlow, hhigh⟩
  · have h₁ : 48 ≤ c.toNat := hlow
    have h₂ : c.toNat ≤ 57 := hhigh
    omega
  · have h₁ : 97 ≤ c.toNat := hlow
    have h₂ : c.toNat ≤ 102 := hhigh
    omega
  · have h₁ : 65 ≤ c.toNat := hlow
    have h₂ : c.toNat ≤ 70 := hhigh
    omega

end Hex
