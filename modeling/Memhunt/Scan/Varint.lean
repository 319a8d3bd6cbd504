import Memhunt.Lib.Varint
import Memhunt.Oracle

/-! What the length varint of a protobuf head is read as. -/
namespace Memhunt

theorem orDigit_toNat {value shift : UInt64} {i : Nat} (b : UInt8)
    (hvalue : value.toNat < 2 ^ (7 * i)) (hshift : shift.toNat = 7 * i) (hi : i ≤ 9) :
    (value ||| ((b &&& 0x7f).toUInt64 <<< shift)).toNat =
      (value.toNat + 2 ^ (7 * i) * Varint.digit b) % 2 ^ 64 := by
  have hmod : 7 * i % 64 = 7 * i := Nat.mod_eq_of_lt (by omega)
  rw [UInt64.toNat_or, UInt64.toNat_shiftLeft, hshift, hmod, Nat.shiftLeft_eq, Nat.mul_comm,
    UInt8.toNat_toUInt64]
  exact Varint.or_digit _ hvalue (by omega)

/-- A whole encoding of at most ten bytes is read to its last byte, modulo the word. -/
theorem readVarintFrom_encoding {bs : Bytes} (h : Varint.Encoding bs) (rest : Bytes) :
    ∀ {value shift : UInt64} {i : Nat}, value.toNat < 2 ^ (7 * i) → shift.toNat = 7 * i →
      i + bs.length ≤ 10 → ∃ v, readVarintFrom value shift i (bs ++ rest) =
        some (v, i + bs.length) ∧
        v.toNat = (value.toNat + 2 ^ (7 * i) * Varint.value bs) % 2 ^ 64 := by
  induction h with
  | @last b hb =>
      intro value shift i hvalue hshift hi
      rw [List.length_singleton] at hi
      refine ⟨value ||| ((b &&& 0x7f).toUInt64 <<< shift), ?_, ?_⟩
      · exact if_pos ((Varint.top_bit_iff b).mpr hb)
      · rw [orDigit_toNat b hvalue hshift (by omega)]
        rfl
  | @more b bs hb tail ih =>
      intro value shift i hvalue hshift hi
      have hpos := tail.length_pos
      rw [List.length_cons] at hi
      have hnext := orDigit_toNat b hvalue hshift (by omega)
      have hdigit := Varint.digit_lt b
      have hbound : (value ||| ((b &&& 0x7f).toUInt64 <<< shift)).toNat < 2 ^ (7 * (i + 1)) := by
        have hpow : 2 ^ (7 * (i + 1)) = 2 ^ (7 * i) + 2 ^ (7 * i) * 127 := by ring
        have hmul : 2 ^ (7 * i) * Varint.digit b ≤ 2 ^ (7 * i) * 127 :=
          Nat.mul_le_mul_left _ (by omega)
        have hle := Nat.mod_le (value.toNat + 2 ^ (7 * i) * Varint.digit b) (2 ^ 64)
        omega
      have hshift' : (shift + 7).toNat = 7 * (i + 1) := by
        have hseven : (7 : UInt64).toNat = 7 := rfl
        rw [UInt64.toNat_add, hshift, hseven, Nat.mul_succ]
        exact Nat.mod_eq_of_lt (by omega)
      obtain ⟨v, hread, hv⟩ := ih hbound hshift' (by omega)
      refine ⟨v, ?_, ?_⟩
      · have hcontinues : ¬ b &&& 0x80 = 0 := by
          rw [Varint.top_bit_iff]
          exact not_not_intro hb
        rw [List.cons_append, readVarintFrom, if_neg hcontinues, hread, List.length_cons,
          Nat.add_assoc, Nat.add_comm 1]
      · rw [hv, hnext, Nat.mod_add_mod]
        congr 1
        simp only [Varint.value]
        ring

theorem encoding_of_readVarintFrom {data : Bytes} : ∀ {value shift v : UInt64} {i n : Nat},
    readVarintFrom value shift i data = some (v, n) →
      ∃ bs rest, data = bs ++ rest ∧ Varint.Encoding bs ∧ n = i + bs.length := by
  induction data with
  | nil =>
      intro value shift v i n h
      cases h
  | cons b data ih =>
      intro value shift v i n h
      rw [readVarintFrom] at h
      by_cases hb : b &&& 0x80 = 0
      · rw [if_pos hb] at h
        obtain ⟨_, rfl⟩ := Prod.mk.inj (Option.some.inj h)
        exact ⟨[b], data, rfl, .last ((Varint.top_bit_iff b).mp hb), rfl⟩
      · rw [if_neg hb] at h
        obtain ⟨bs, rest, rfl, hbs, rfl⟩ := ih h
        have hcontinues : Varint.Continues b := by
          by_contra hlast
          exact hb ((Varint.top_bit_iff b).mpr hlast)
        exact ⟨b :: bs, rest, rfl, .more hcontinues hbs, by rw [List.length_cons]; omega⟩

theorem readVarint_encoding {bs : Bytes} (h : Varint.Encoding bs) (hlen : bs.length ≤ 10)
    (rest : Bytes) : ∃ v, readVarint (bs ++ rest) = some (v, bs.length) ∧
      v.toNat = Varint.value bs % 2 ^ 64 := by
  obtain ⟨v, hread, hv⟩ := @readVarintFrom_encoding bs h (rest.take (10 - bs.length)) 0 0 0
    (by decide) (by decide) (by omega)
  refine ⟨v, ?_, ?_⟩
  · rw [readVarint, List.take_append, List.take_of_length_le hlen, hread, Nat.zero_add]
  · rw [hv]
    simp

/-- What is read is the value modulo `2 ^ 64` of the encoding the bytes start with. -/
theorem readVarint_eq_some {data : Bytes} {v : UInt64} {n : Nat} :
    readVarint data = some (v, n) ↔ ∃ bs rest, data = bs ++ rest ∧ Varint.Encoding bs ∧
      bs.length = n ∧ n ≤ 10 ∧ v.toNat = Varint.value bs % 2 ^ 64 := by
  constructor
  · intro h
    obtain ⟨bs, rest, htake, hbs, hn⟩ := encoding_of_readVarintFrom h
    rw [Nat.zero_add] at hn
    have hlen : bs.length ≤ 10 := by
      have := congrArg List.length htake
      rw [List.length_take, List.length_append] at this
      omega
    have hdata : data = bs ++ (rest ++ data.drop 10) := by
      rw [← List.append_assoc, ← htake, List.take_append_drop]
    obtain ⟨v', hread, hv⟩ := readVarint_encoding hbs hlen (rest ++ data.drop 10)
    rw [← hdata, h] at hread
    obtain ⟨rfl, _⟩ := Prod.mk.inj (Option.some.inj hread)
    exact ⟨bs, _, hdata, hbs, hn.symm, hn ▸ hlen, hv⟩
  · rintro ⟨bs, rest, rfl, hbs, rfl, hlen, hv⟩
    obtain ⟨v', hread, hv'⟩ := readVarint_encoding hbs hlen rest
    rw [hread, UInt64.toNat_inj.mp (hv'.trans hv.symm)]

/-- What is read of `data` is the number that its first `n` bytes encode. -/
structure ExactVarint (data : Bytes) (v : UInt64) (n : Nat) : Prop where
  consumed : 1 ≤ n ∧ n ≤ min 10 data.length
  continues : ∀ i < n - 1, data.getD i 0 &&& 0x80 ≠ 0
  stops : data.getD (n - 1) 0 &&& 0x80 = 0
  value : v.toNat = ∑ i ∈ Finset.range n, (data.getD i 0 &&& 0x7f).toNat * 2 ^ (7 * i)

/-- Ten bytes that encode a number of more than 64 bits. -/
def TooLarge (data : Bytes) : Prop :=
  (∀ b ∈ data.take 9, b &&& 0x80 ≠ 0) ∧ ∃ last, data[9]? = some last ∧
    last &&& 0x80 = 0 ∧ 2 ≤ last.toNat

theorem value_eq_sum (bs rest : Bytes) : Varint.value bs =
    ∑ i ∈ Finset.range bs.length, ((bs ++ rest).getD i 0 &&& 0x7f).toNat * 2 ^ (7 * i) := by
  have hvalue := @Varint.value_take (bs ++ rest) bs.length (by simp)
  rwa [List.take_left] at hvalue

theorem exactVarint_iff {bs : Bytes} (h : Varint.Encoding bs) (hlen : bs.length ≤ 10)
    (rest : Bytes) {v : UInt64} (hv : v.toNat = Varint.value bs % 2 ^ 64) :
    ExactVarint (bs ++ rest) v bs.length ↔ Varint.value bs < 2 ^ 64 := by
  constructor
  · intro hexact
    rw [value_eq_sum bs rest, ← hexact.value]
    exact v.toNat_lt
  · intro hlt
    obtain ⟨init, last, rfl, hinit, hlast⟩ := h.split
    have hpred : (init ++ [last]).length - 1 = init.length := by simp
    refine ⟨⟨h.length_pos, ?_⟩, ?_, ?_, ?_⟩
    · rw [@List.length_append _ (init ++ [last])]
      omega
    · intro i hi
      rw [hpred] at hi
      have hget : (init ++ [last] ++ rest).getD i 0 = init.get ⟨i, hi⟩ := by
        rw [List.append_assoc, List.getD_eq_getElem?_getD, List.getElem?_append_left hi,
          List.getElem?_eq_getElem hi]
        rfl
      rw [hget, Ne, Varint.top_bit_iff]
      exact not_not_intro (hinit _ (List.get_mem init _))
    · rw [hpred]
      have hget : (init ++ [last] ++ rest).getD init.length 0 = last := by simp
      rw [hget, Varint.top_bit_iff]
      exact hlast
    · rw [hv, Nat.mod_eq_of_lt hlt]
      exact value_eq_sum _ rest

theorem TooLarge.encoding {data : Bytes} (h : TooLarge data) :
    ∃ bs rest, data = bs ++ rest ∧ Varint.Encoding bs ∧ bs.length ≤ 10 := by
  obtain ⟨hall, last, hget, hend, _⟩ := h
  have hlen : 9 < data.length := (List.getElem?_eq_some_iff.mp hget).1
  have hlast : ¬ Varint.Continues last := (Varint.top_bit_iff last).mp hend
  have hsplit : data = data.take 9 ++ last :: data.drop 10 := by
    rw [← (List.getElem?_eq_some_iff.mp hget).2, List.cons_getElem_drop_succ,
      List.take_append_drop]
  refine ⟨data.take 9 ++ [last], data.drop 10, ?_, Varint.encoding_append ?_ hlast, ?_⟩
  · rwa [List.append_assoc, List.singleton_append]
  · intro b hb
    by_contra hstop
    exact hall b hb ((Varint.top_bit_iff b).mpr hstop)
  · simp

theorem tooLarge_iff {bs : Bytes} (h : Varint.Encoding bs) (hlen : bs.length ≤ 10)
    (rest : Bytes) : TooLarge (bs ++ rest) ↔ ¬ Varint.value bs < 2 ^ 64 := by
  obtain ⟨init, last, rfl, hinit, hlast⟩ := h.split
  have hnine : init.length ≤ 9 := by
    rw [List.length_append, List.length_singleton] at hlen
    omega
  have hdata : init ++ [last] ++ rest = init ++ last :: rest := by
    rw [List.append_assoc, List.singleton_append]
  have hnext : (init ++ last :: rest)[init.length]? = some last := by simp
  rw [hdata, Varint.value_lt_word_iff hlast hnine]
  constructor
  · rintro ⟨hall, last', hget, hend, hlarge⟩ hsmall
    have hfull : init.length = 9 := by
      by_contra hshort
      have hmem : last ∈ (init ++ last :: rest).take 9 := by
        rw [List.take_append, List.take_of_length_le hnine,
          show 9 - init.length = 8 - init.length + 1 by omega, List.take_succ_cons]
        exact List.mem_append_right init List.mem_cons_self
      exact hall last hmem ((Varint.top_bit_iff last).mpr hlast)
    rw [← hfull, hnext] at hget
    obtain rfl := Option.some.inj hget
    have := hsmall hfull
    omega
  · intro hlarge
    obtain ⟨hfull, htwo⟩ := Classical.not_imp.mp hlarge
    refine ⟨?_, last, hfull ▸ hnext, (Varint.top_bit_iff last).mpr hlast, Nat.le_of_not_lt htwo⟩
    intro b hb
    rw [← hfull, List.take_left] at hb
    rw [Ne, Varint.top_bit_iff]
    exact not_not_intro (hinit b hb)

/-- Encodings are read back, and what is read is exact unless ten bytes encode a number of more
than 64 bits: what does not fit is then dropped. -/
theorem readVarint_exact_iff (v : UInt64) (rest data : Bytes) :
    readVarint (Varint.encode v.toNat ++ rest) = some (v, (Varint.encode v.toNat).length) ∧
    ((∀ w n, readVarint data = some (w, n) → ExactVarint data w n) ↔ ¬ TooLarge data) := by
  constructor
  · have hword : v.toNat < 128 ^ (9 + 1) := lt_trans v.toNat_lt (by norm_num)
    refine readVarint_eq_some.mpr ⟨_, rest, rfl, Varint.encoding_encode _, rfl,
      Varint.length_encode_le hword, ?_⟩
    rw [Varint.value_encode, Nat.mod_eq_of_lt v.toNat_lt]
  · constructor
    · intro hexact hlarge
      obtain ⟨bs, rest, rfl, hbs, hlen⟩ := hlarge.encoding
      obtain ⟨w, hread, hw⟩ := readVarint_encoding hbs hlen rest
      exact (tooLarge_iff hbs hlen rest).mp hlarge
        ((exactVarint_iff hbs hlen rest hw).mp (hexact w bs.length hread))
    · intro hsmall w n hread
      obtain ⟨bs, rest, rfl, hbs, rfl, hlen, hw⟩ := readVarint_eq_some.mp hread
      rw [tooLarge_iff hbs hlen rest, not_not] at hsmall
      exact (exactVarint_iff hbs hlen rest hw).mpr hsmall

/-- The encoding of `2 ^ 64 + 1` in ten bytes is read as one. -/
def wrappedLength : Bytes := [0x81, 0x80, 0x80, 0x80, 0x80, 0x80, 0x80, 0x80, 0x80, 0x02]

theorem wrapped_length_accepted :
    (readVarint wrappedLength = some (1, 10) ∧ ¬ ExactVarint wrappedLength 1 10) ∧
      ∑ i ∈ Finset.range 10, (wrappedLength.getD i 0 &&& 0x7f).toNat * 2 ^ (7 * i) = 2 ^ 64 + 1 ∧
      protobufOracle.verify (0x0a :: wrappedLength ++ [0xff]) = true := by
  have hsum : ∑ i ∈ Finset.range 10, (wrappedLength.getD i 0 &&& 0x7f).toNat * 2 ^ (7 * i) =
      2 ^ 64 + 1 := by decide +kernel
  refine ⟨⟨by decide +kernel, ?_⟩, hsum, by decide +kernel⟩
  intro hexact
  have hvalue := hexact.value
  rw [hsum] at hvalue
  exact absurd hvalue (by decide +kernel)

end Memhunt
