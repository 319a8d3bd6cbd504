import Memhunt.Lib.Bytes

/-! Numbers in base 128, lowest digit first: seven bits a byte, and the top bit set on every byte
but the last. -/
namespace Varint

/-- The shortest encoding. -/
def encode (n : Nat) : Bytes :=
  if n < 128 then [UInt8.ofNat n] else UInt8.ofNat (n % 128 + 128) :: encode (n / 128)

def Continues (b : UInt8) : Prop := 0x80 ≤ b.toNat

instance (b : UInt8) : Decidable (Continues b) := inferInstanceAs (Decidable (0x80 ≤ b.toNat))

def digit (b : UInt8) : Nat := (b &&& 0x7f).toNat

def value : Bytes → Nat
  | [] => 0
  | b :: bs => digit b + 128 * value bs

theorem digit_eq (b : UInt8) : digit b = b.toNat % 128 := by
  have hmask : (0x7f : UInt8).toNat = 2 ^ 7 - 1 := rfl
  rw [digit, UInt8.toNat_and, hmask, Nat.and_two_pow_sub_one_eq_mod]

theorem top_bit_iff (b : UInt8) : b &&& 0x80 = 0 ↔ ¬ Continues b := by
  have table : ∀ n < 256, UInt8.ofNat n &&& 0x80 = 0 ↔ ¬ Continues (UInt8.ofNat n) := by
    decide +kernel
  have h := table b.toNat b.toNat_lt
  rwa [UInt8.ofNat_toNat] at h

theorem value_append (a b : Bytes) : value (a ++ b) = value a + 128 ^ a.length * value b := by
  induction a with
  | nil => simp [value]
  | cons x a ih =>
      rw [List.cons_append, value, value, ih, List.length_cons, Nat.pow_succ']
      ring

theorem digit_lt (b : UInt8) : digit b < 128 := by
  rw [digit_eq]
  exact Nat.mod_lt _ (by omega)

theorem value_lt (bs : Bytes) : value bs < 128 ^ bs.length := by
  induction bs with
  | nil => exact Nat.zero_lt_one
  | cons b bs ih =>
      have hdigit := digit_lt b
      rw [value, List.length_cons, Nat.pow_succ']
      omega

/-- The value of the first bytes of a list as a sum over their places. -/
theorem value_take (bs : Bytes) {n : Nat} (h : n ≤ bs.length) :
    value (bs.take n) = ∑ i ∈ Finset.range n, digit (bs.getD i 0) * 2 ^ (7 * i) := by
  induction n with
  | zero => rfl
  | succ n ih =>
      have hlt : n < bs.length := h
      have hlen : (bs.take n).length = n := List.length_take_of_le hlt.le
      rw [List.take_succ_eq_append_getElem hlt, value_append, ih hlt.le, hlen,
        Finset.sum_range_succ, List.getD_eq_getElem _ _ hlt, Nat.pow_mul]
      simp only [value]
      ring

/-- A whole encoding, not always the shortest: bytes that continue, then one that does not. -/
inductive Encoding : Bytes → Prop
  | last {b : UInt8} (h : ¬ Continues b) : Encoding [b]
  | more {b : UInt8} {bs : Bytes} (h : Continues b) (tail : Encoding bs) : Encoding (b :: bs)

theorem Encoding.split {bs : Bytes} (h : Encoding bs) :
    ∃ init last, bs = init ++ [last] ∧ (∀ b ∈ init, Continues b) ∧ ¬ Continues last := by
  induction h with
  | @last b hb => exact ⟨[], b, rfl, by simp, hb⟩
  | @more b bs hb _ ih =>
      obtain ⟨init, last, rfl, hinit, hlast⟩ := ih
      exact ⟨b :: init, last, rfl, List.forall_mem_cons.mpr ⟨hb, hinit⟩, hlast⟩

theorem encoding_append {init : Bytes} {last : UInt8} (hinit : ∀ b ∈ init, Continues b)
    (hlast : ¬ Continues last) : Encoding (init ++ [last]) := by
  induction init with
  | nil => exact .last hlast
  | cons b init ih =>
      obtain ⟨hb, htail⟩ := List.forall_mem_cons.mp hinit
      exact .more hb (ih htail)

theorem Encoding.length_pos {bs : Bytes} (h : Encoding bs) : 0 < bs.length := by
  cases h <;> exact Nat.succ_pos _

theorem encoding_encode (n : Nat) : Encoding (encode n) := by
  induction n using Nat.strongRecOn with
  | ind n ih =>
      rw [encode]
      by_cases h : n < 128
      · rw [if_pos h]
        refine .last ?_
        rw [Continues, Bytes.toNat_ofNat (by omega)]
        omega
      · rw [if_neg h]
        refine .more ?_ (ih (n / 128) (by omega))
        rw [Continues, Bytes.toNat_ofNat (by omega)]
        omega

theorem value_encode (n : Nat) : value (encode n) = n := by
  induction n using Nat.strongRecOn with
  | ind n ih =>
      rw [encode]
      by_cases h : n < 128
      · rw [if_pos h, value, value, digit_eq, Bytes.toNat_ofNat (by omega)]
        omega
      · rw [if_neg h, value, digit_eq, Bytes.toNat_ofNat (by omega),
          ih (n / 128) (by omega)]
        omega

theorem length_encode_le {k : Nat} : ∀ {n : Nat}, n < 128 ^ (k + 1) →
    (encode n).length ≤ k + 1 := by
  induction k with
  | zero =>
      intro n h
      rw [encode, if_pos (by omega), List.length_singleton]
  | succ k ih =>
      intro n h
      rw [encode]
      by_cases hsmall : n < 128
      · rw [if_pos hsmall, List.length_singleton]
        omega
      · rw [if_neg hsmall, List.length_cons]
        have hdiv : n / 128 < 128 ^ (k + 1) := by
          rw [Nat.pow_succ] at h
          exact Nat.div_lt_of_lt_mul (by omega)
        have := ih hdiv
        omega

/-- Ten bytes hold more than a word of 64 bits where the last of them is over one. -/
theorem value_lt_word_iff {init : Bytes} {last : UInt8} (hlast : ¬ Continues last)
    (hlen : init.length ≤ 9) :
    value (init ++ [last]) < 2 ^ 64 ↔ (init.length = 9 → last.toNat < 2) := by
  have hsmall : last.toNat < 128 := Nat.lt_of_not_le hlast
  have hinit := value_lt init
  rw [value_append, value, value, digit_eq, Nat.mod_eq_of_lt hsmall]
  by_cases hnine : init.length = 9
  · rw [hnine] at hinit ⊢
    constructor
    · intro hlt _
      omega
    · intro htwo
      have := htwo rfl
      omega
  · have hpow : 128 ^ init.length ≤ 128 ^ 8 := Nat.pow_le_pow_right (by omega) (by omega)
    have hmul : 128 ^ init.length * (last.toNat + 128 * 0) ≤ 128 ^ 8 * 127 :=
      Nat.mul_le_mul hpow (by omega)
    refine iff_of_true ?_ ?_
    · omega
    · intro h
      exact absurd h hnine

/-- A digit is put above the digits read so far, within a word of `w` bits. -/
theorem or_digit {a k w : Nat} (d : Nat) (ha : a < 2 ^ k) (hk : k ≤ w) :
    a ||| 2 ^ k * d % 2 ^ w = (a + 2 ^ k * d) % 2 ^ w := by
  obtain ⟨j, rfl⟩ := Nat.exists_eq_add_of_le hk
  have hhigh : 2 ^ k * d % 2 ^ (k + j) = 2 ^ k * (d % 2 ^ j) := by
    rw [Nat.pow_add, Nat.mul_mod_mul_left]
  have hlow : (a + 2 ^ k * d) % 2 ^ (k + j) = a + 2 ^ k * (d % 2 ^ j) := by
    rw [Nat.pow_add, Nat.mod_mul, Nat.add_mul_mod_self_left, Nat.mod_eq_of_lt ha,
      Nat.add_mul_div_left _ _ (Nat.two_pow_pos k), Nat.div_eq_of_lt ha, Nat.zero_add]
  rw [hhigh, hlow, Nat.or_comm, ← Nat.two_pow_add_eq_or_of_lt ha, Nat.add_comm]

end Varint
