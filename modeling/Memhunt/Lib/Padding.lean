import Memhunt.Lib.Bytes

/-! Padding schemes and their removal. A removal is undone by the length of what was padded. -/
namespace Padding

def tail (n : Nat) : Bytes := List.replicate n (UInt8.ofNat n)

/-- Pad to whole blocks of `block` bytes, with at least one byte (PKCS#7). -/
def pkcs7 (block : Nat) (m : Bytes) : Bytes := m ++ tail (block - m.length % block)

/-- What PKCS#7 padding leaves, when the text ends in one. -/
def unpadPkcs7 (p : Bytes) : Option Bytes :=
  match p.getLast? with
  | none => none
  | some x =>
      if 0 < x.toNat ∧ x.toNat ≤ p.length ∧
          (p.drop (p.length - x.toNat)).all (· == UInt8.ofNat x.toNat) then
        some (p.take (p.length - x.toNat))
      else none

def unpadZero (p : Bytes) : Bytes := p.rdropWhile (· == 0)

@[simp] theorem length_tail (n : Nat) : (tail n).length = n := List.length_replicate

theorem getLast?_append_tail (m : Bytes) {n : Nat} (hn : 0 < n) :
    (m ++ tail n).getLast? = some (UInt8.ofNat n) := by
  rw [List.getLast?_append]
  simp [tail, List.getLast?_replicate, Nat.ne_of_gt hn]

theorem unpadPkcs7_some {p m : Bytes} (h : unpadPkcs7 p = some m) :
    ∃ n, 0 < n ∧ n < 256 ∧ p = m ++ tail n := by
  unfold unpadPkcs7 at h
  split at h
  · cases h
  rename_i x hx
  split at h
  · rename_i hpad
    obtain ⟨hpos, hle, hall⟩ := hpad
    refine ⟨x.toNat, hpos, x.toNat_lt, ?_⟩
    have htail : p.drop (p.length - x.toNat) = tail x.toNat := by
      rw [tail, List.eq_replicate_iff]
      refine ⟨by rw [List.length_drop]; omega, ?_⟩
      intro b hb
      simpa using List.all_eq_true.mp hall b hb
    rw [← Option.some.inj h, ← htail, List.take_append_drop]
  · cases h

theorem unpadPkcs7_append_tail (m : Bytes) {n : Nat} (hpos : 0 < n) (hlt : n < 256) :
    unpadPkcs7 (m ++ tail n) = some m := by
  have hn : (UInt8.ofNat n).toNat = n := by simp [Nat.mod_eq_of_lt hlt]
  have hlen : (m ++ tail n).length - n = m.length := by
    rw [List.length_append, length_tail, Nat.add_sub_cancel]
  have hall : ((m ++ tail n).drop m.length).all (· == UInt8.ofNat n) = true := by
    rw [List.drop_left]
    simp [tail]
  have hle : n ≤ (m ++ tail n).length := by
    rw [List.length_append, length_tail]
    omega
  unfold unpadPkcs7
  rw [getLast?_append_tail m hpos]
  simp only [hn, hlen]
  rw [if_pos ⟨hpos, hle, hall⟩, List.take_left]

theorem unpadPkcs7_pkcs7 (m : Bytes) {block : Nat} (hpos : 0 < block) (hlt : block < 256) :
    unpadPkcs7 (pkcs7 block m) = some m := by
  have hmod := Nat.mod_lt m.length hpos
  exact unpadPkcs7_append_tail m (by omega) (by omega)

theorem length_pkcs7 (block : Nat) (m : Bytes) :
    (pkcs7 block m).length = m.length + (block - m.length % block) := by
  rw [pkcs7, List.length_append, length_tail]

theorem dvd_length_pkcs7 (m : Bytes) {block : Nat} (hpos : 0 < block) :
    block ∣ (pkcs7 block m).length := by
  have hmod := Nat.mod_lt m.length hpos
  have hdiv := Nat.div_add_mod m.length block
  rw [length_pkcs7]
  refine ⟨m.length / block + 1, ?_⟩
  rw [Nat.mul_add, Nat.mul_one]
  omega

theorem unpadZero_append (p : Bytes) :
    p = unpadZero p ++ List.replicate (p.length - (unpadZero p).length) 0 := by
  have hsplit : unpadZero p ++ p.rtakeWhile (· == 0) = p := by
    rw [unpadZero, List.rdropWhile, List.rtakeWhile, ← List.reverse_append,
      List.takeWhile_append_dropWhile, List.reverse_reverse]
  have hlen : (p.rtakeWhile (· == 0)).length = p.length - (unpadZero p).length := by
    have := congrArg List.length hsplit
    rw [List.length_append] at this
    omega
  have hrep : p.rtakeWhile (· == 0) =
      List.replicate (p.length - (unpadZero p).length) 0 := by
    rw [List.eq_replicate_iff]
    exact ⟨hlen, fun b hb => by simpa using List.mem_rtakeWhile_imp hb⟩
  rw [← hrep, hsplit]

theorem unpadPkcs7_inj {p q m : Bytes} (hp : unpadPkcs7 p = some m) (hq : unpadPkcs7 q = some m)
    (hlen : p.length = q.length) : p = q := by
  obtain ⟨n, _, _, rfl⟩ := unpadPkcs7_some hp
  obtain ⟨k, _, _, rfl⟩ := unpadPkcs7_some hq
  have : n = k := by simpa using hlen
  rw [this]

theorem unpadZero_inj {p q : Bytes} (h : unpadZero p = unpadZero q)
    (hlen : p.length = q.length) : p = q := by
  rw [unpadZero_append p, unpadZero_append q, h, hlen]

end Padding
