import Memhunt.Lib.Bytes

/-! Base 64 with the standard alphabet and padding: three bytes are four characters. -/
namespace Base64

def digit (n : Nat) : Char :=
  if n < 26 then Char.ofNat (0x41 + n)
  else if n < 52 then Char.ofNat (0x47 + n)
  else if n < 62 then Char.ofNat (n - 4)
  else if n = 62 then '+'
  else '/'

def value (c : Char) : Option Nat :=
  if 'A' ≤ c ∧ c ≤ 'Z' then some (c.toNat - 0x41)
  else if 'a' ≤ c ∧ c ≤ 'z' then some (c.toNat - 0x47)
  else if '0' ≤ c ∧ c ≤ '9' then some (c.toNat + 4)
  else if c = '+' then some 62
  else if c = '/' then some 63
  else none

def encodeGroups : Bytes → List Char
  | [] => []
  | [a] => [digit (a.toNat / 4), digit (a.toNat % 4 * 16), '=', '=']
  | [a, b] =>
      [digit (a.toNat / 4), digit (a.toNat % 4 * 16 + b.toNat / 16), digit (b.toNat % 16 * 4), '=']
  | a :: b :: c :: rest =>
      digit (a.toNat / 4) :: digit (a.toNat % 4 * 16 + b.toNat / 16) ::
        digit (b.toNat % 16 * 4 + c.toNat / 64) :: digit (c.toNat % 64) :: encodeGroups rest

def encode (bytes : Bytes) : String := String.ofList (encodeGroups bytes)

/-- Padding stands in the last group alone, and the bits it leaves over are zero. -/
def decodeGroups : List Char → Option Bytes
  | [] => some []
  | w :: x :: y :: z :: rest =>
      if rest = [] ∧ y = '=' ∧ z = '=' then do
        let p ← value w
        let q ← value x
        if q % 16 = 0 then some [UInt8.ofNat (p * 4 + q / 16)] else none
      else if rest = [] ∧ z = '=' then do
        let p ← value w
        let q ← value x
        let r ← value y
        if r % 4 = 0 then
          some [UInt8.ofNat (p * 4 + q / 16), UInt8.ofNat (q % 16 * 16 + r / 4)]
        else none
      else do
        let p ← value w
        let q ← value x
        let r ← value y
        let s ← value z
        let bytes ← decodeGroups rest
        return UInt8.ofNat (p * 4 + q / 16) :: UInt8.ofNat (q % 16 * 16 + r / 4) ::
          UInt8.ofNat (r % 4 * 64 + s) :: bytes
  | _ => none

def decode (text : String) : Option Bytes := decodeGroups text.toList

example : encode [0x66, 0x6f, 0x6f, 0x62] = "Zm9vYg==" := by decide
example : decode "Zm9vYh==" = none := by decide

theorem value_digit {n : Nat} (h : n < 64) : value (digit n) = some n := by
  have table : ∀ n < 64, value (digit n) = some n := by decide
  exact table n h

theorem digit_ne_pad {n : Nat} (h : n < 64) : digit n ≠ '=' := by
  have table : ∀ n < 64, digit n ≠ '=' := by decide
  exact table n h

theorem ofNat_eq {n : Nat} {b : UInt8} (h : n = b.toNat) : UInt8.ofNat n = b := by
  rw [h, UInt8.ofNat_toNat]

theorem decodeGroups_encodeGroups (bytes : Bytes) :
    decodeGroups (encodeGroups bytes) = some bytes := by
  fun_induction encodeGroups bytes with
  | case1 => rfl
  | case2 a =>
      have ha := a.toNat_lt
      have hrest : a.toNat % 4 * 16 % 16 = 0 := Nat.mul_mod_left _ _
      have hbyte : UInt8.ofNat (a.toNat / 4 * 4 + a.toNat % 4 * 16 / 16) = a :=
        ofNat_eq (by omega)
      simp only [decodeGroups, and_self, if_true, value_digit (show a.toNat / 4 < 64 by omega),
        value_digit (show a.toNat % 4 * 16 < 64 by omega), Option.bind_eq_bind, Option.bind_some,
        hrest, hbyte]
  | case3 a b =>
      have ha := a.toNat_lt
      have hb := b.toNat_lt
      have hpad := digit_ne_pad (show b.toNat % 16 * 4 < 64 by omega)
      have hrest : b.toNat % 16 * 4 % 4 = 0 := Nat.mul_mod_left _ _
      have hfirst : UInt8.ofNat (a.toNat / 4 * 4 + (a.toNat % 4 * 16 + b.toNat / 16) / 16) = a :=
        ofNat_eq (by omega)
      have hsecond : UInt8.ofNat ((a.toNat % 4 * 16 + b.toNat / 16) % 16 * 16 +
          b.toNat % 16 * 4 / 4) = b := ofNat_eq (by omega)
      simp only [decodeGroups, hpad, and_self, and_true, and_false, if_true, if_false,
        value_digit (show a.toNat / 4 < 64 by omega),
        value_digit (show a.toNat % 4 * 16 + b.toNat / 16 < 64 by omega),
        value_digit (show b.toNat % 16 * 4 < 64 by omega), Option.bind_eq_bind, Option.bind_some,
        hrest, hfirst, hsecond]
  | case4 a b c rest ih =>
      have ha := a.toNat_lt
      have hb := b.toNat_lt
      have hc := c.toNat_lt
      have hpad := digit_ne_pad (show c.toNat % 64 < 64 by omega)
      have hfirst : UInt8.ofNat (a.toNat / 4 * 4 + (a.toNat % 4 * 16 + b.toNat / 16) / 16) = a :=
        ofNat_eq (by omega)
      have hsecond : UInt8.ofNat ((a.toNat % 4 * 16 + b.toNat / 16) % 16 * 16 +
          (b.toNat % 16 * 4 + c.toNat / 64) / 4) = b := ofNat_eq (by omega)
      have hthird : UInt8.ofNat ((b.toNat % 16 * 4 + c.toNat / 64) % 4 * 64 + c.toNat % 64) = c :=
        ofNat_eq (by omega)
      simp only [decodeGroups, hpad, and_false, if_false,
        value_digit (show a.toNat / 4 < 64 by omega),
        value_digit (show a.toNat % 4 * 16 + b.toNat / 16 < 64 by omega),
        value_digit (show b.toNat % 16 * 4 + c.toNat / 64 < 64 by omega),
        value_digit (show c.toNat % 64 < 64 by omega), Option.bind_eq_bind, Option.bind_some,
        Option.pure_def, ih, hfirst, hsecond, hthird]

theorem decode_encode (bytes : Bytes) : decode (encode bytes) = some bytes := by
  rw [decode, encode, String.toList_ofList, decodeGroups_encodeGroups]

theorem encodeGroups_ne_nil {bytes : Bytes} (h : bytes ≠ []) : encodeGroups bytes ≠ [] := by
  fun_cases encodeGroups bytes with
  | case1 => exact absurd rfl h
  | case2 a => exact List.cons_ne_nil _ _
  | case3 a b => exact List.cons_ne_nil _ _
  | case4 a b c rest => exact List.cons_ne_nil _ _

/-- The text has no white space and no control characters in it. -/
theorem visible_of_mem_encodeGroups {bytes : Bytes} {c : Char} (h : c ∈ encodeGroups bytes) :
    0x21 ≤ c.toNat ∧ c.toNat ≤ 0x7e := by
  have hdigit : ∀ n < 64, 0x21 ≤ (digit n).toNat ∧ (digit n).toNat ≤ 0x7e := by decide
  have hpad : 0x21 ≤ '='.toNat ∧ '='.toNat ≤ 0x7e := by decide
  fun_induction encodeGroups bytes with
  | case1 => cases h
  | case2 a =>
      have ha := a.toNat_lt
      simp only [List.mem_cons, List.not_mem_nil, or_false] at h
      rcases h with rfl | rfl | rfl | rfl
      · exact hdigit _ (by omega)
      · exact hdigit _ (by omega)
      · exact hpad
      · exact hpad
  | case3 a b =>
      have ha := a.toNat_lt
      have hb := b.toNat_lt
      simp only [List.mem_cons, List.not_mem_nil, or_false] at h
      rcases h with rfl | rfl | rfl | rfl
      · exact hdigit _ (by omega)
      · exact hdigit _ (by omega)
      · exact hdigit _ (by omega)
      · exact hpad
  | case4 a b d rest ih =>
      have ha := a.toNat_lt
      have hb := b.toNat_lt
      have hd := d.toNat_lt
      simp only [List.mem_cons] at h
      rcases h with rfl | rfl | rfl | rfl | h
      · exact hdigit _ (by omega)
      · exact hdigit _ (by omega)
      · exact hdigit _ (by omega)
      · exact hdigit _ (by omega)
      · exact ih h

end Base64
