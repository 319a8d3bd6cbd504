import Memhunt.Lib.Rust

/-! Byte strings, fixed-length blocks, pieces of a list and big-endian numbers. -/

abbrev Bytes := List UInt8

@[ext] structure Block (n : Nat) where
  val : Bytes
  length_val : val.length = n
  deriving DecidableEq

attribute [simp] Block.length_val

namespace Bytes
open Rust

theorem toNat_ofNat {n : Nat} (h : n < 256) : (UInt8.ofNat n).toNat = n :=
  UInt8.toNat_ofNat_of_lt' h

def xor (a b : Bytes) : Bytes := List.zipWith (· ^^^ ·) a b

@[simp] theorem length_xor (a b : Bytes) : (xor a b).length = min a.length b.length :=
  List.length_zipWith

theorem xor_append {a a' b b' : Bytes} (h : a.length = b.length) :
    xor (a ++ a') (b ++ b') = xor a b ++ xor a' b' := List.zipWith_append h

theorem xor_twice (a b : UInt8) : (a ^^^ b) ^^^ b = a := by
  rw [UInt8.xor_assoc, UInt8.xor_self, UInt8.xor_zero]

theorem xor_cancel {a b : Bytes} (h : a.length = b.length) : xor (xor a b) b = a := by
  induction a generalizing b with
  | nil => rfl
  | cons x a ih =>
      cases b with
      | nil => cases h
      | cons y b =>
          have tail := ih (Nat.succ.inj h)
          simp only [xor, List.zipWith_cons_cons] at tail ⊢
          rw [tail, xor_twice]

theorem xor_eq_left_iff {a b : Bytes} (h : a.length = b.length) :
    xor a b = a ↔ ∀ y ∈ b, y = 0 := by
  induction a generalizing b with
  | nil =>
      cases b with
      | nil => simp [xor]
      | cons y b => cases h
  | cons x a ih =>
      cases b with
      | nil => cases h
      | cons y b =>
          have tail := ih (Nat.succ.inj h)
          have head : x ^^^ y = x ↔ y = 0 := by
            constructor
            · intro e
              have := congrArg (x ^^^ ·) e
              simpa only [← UInt8.xor_assoc, UInt8.xor_self, UInt8.zero_xor] using this
            · rintro rfl
              exact UInt8.xor_zero
          simp only [xor, List.zipWith_cons_cons, List.cons.injEq, List.forall_mem_cons] at tail ⊢
          rw [head, tail]

theorem zipWith_xor_eq_left_iff {n : Nat} {ps ks : List Bytes} (hps : ∀ p ∈ ps, p.length = n)
    (hks : ∀ k ∈ ks, k.length = n) (hlen : ps.length ≤ ks.length) :
    List.zipWith xor ps ks = ps ↔ ∀ k ∈ ks.take ps.length, ∀ y ∈ k, y = 0 := by
  induction ps generalizing ks with
  | nil => simp
  | cons p ps ih =>
      cases ks with
      | nil => simp at hlen
      | cons k ks =>
          have tail := ih (fun q hq => hps q (List.mem_cons_of_mem p hq))
            (fun l hl => hks l (List.mem_cons_of_mem k hl)) (by simpa using hlen)
          have head := xor_eq_left_iff ((hps p (by simp)).trans (hks k (by simp)).symm)
          rw [List.zipWith_cons_cons, List.cons.injEq, head, tail, List.length_cons,
            List.take_succ_cons, List.forall_mem_cons]

/-- `dst[j] ^= src[j]` -/
def xorAt (src dst : Bytes) (j : Nat) : Run Bytes := do
  let d ← index dst j
  let s ← index src j
  return dst.set j (d ^^^ s)

/-- `for j in 0..count { dst[j] ^= src[j] }` -/
def xorInPlace (dst src : Bytes) (count : Nat) : Run Bytes :=
  (List.range count).foldlM (xorAt src) dst

/-- Invariant of the loop: the first `k` bytes are done and the others untouched. -/
theorem xorInPlace_firstBytes {dst src : Bytes} (k : Nat) (hd : k ≤ dst.length) (hs : k ≤ src.length) :
    xorInPlace dst src k = .ok (xor (dst.take k) (src.take k) ++ dst.drop k) := by
  induction k with
  | zero => rfl
  | succ k ih =>
      have hk := ih (by omega) (by omega)
      have hd' : dst[k]? = some dst[k] := List.getElem?_eq_getElem (by omega)
      have hs' : src[k]? = some src[k] := List.getElem?_eq_getElem (by omega)
      have hlen : (xor (dst.take k) (src.take k)).length = k := by
        simp only [length_xor, List.length_take]
        omega
      have hsplit : dst.drop k = dst[k] :: dst.drop (k + 1) := List.drop_eq_getElem_cons (by omega)
      have hget : (xor (dst.take k) (src.take k) ++ dst.drop k)[k]? = some dst[k] := by
        rw [List.getElem?_append_right (by omega), hlen, hsplit]
        simp
      have htake : xor (dst.take (k + 1)) (src.take (k + 1)) =
          xor (dst.take k) (src.take k) ++ [dst[k] ^^^ src[k]] := by
        rw [List.take_succ_eq_append_getElem (by omega), List.take_succ_eq_append_getElem (by omega),
          xor_append (by simp only [List.length_take]; omega)]
        rfl
      have hstep : xorAt src (xor (dst.take k) (src.take k) ++ dst.drop k) k =
          .ok (xor (dst.take (k + 1)) (src.take (k + 1)) ++ dst.drop (k + 1)) := by
        simp only [xorAt, index_ok hget, index_ok hs', ok_bind, pure_eq]
        rw [List.set_append_right _ _ (by omega), hlen, Nat.sub_self, hsplit, htake,
          List.set_cons_zero, List.append_assoc, List.singleton_append]
      unfold xorInPlace at hk ⊢
      simp only [List.range_succ, List.foldlM_append, hk, ok_bind, List.foldlM_cons,
        List.foldlM_nil, hstep, pure_eq]

theorem xorInPlace_ok {dst src : Bytes} {n : Nat} (hd : dst.length = n) (hs : src.length = n) :
    xorInPlace dst src n = .ok (xor dst src) := by
  rw [xorInPlace_firstBytes n (by omega) (by omega), List.take_of_length_le (by omega),
    List.take_of_length_le (by omega), List.drop_of_length_le (by omega), List.append_nil]

section Pieces
variable {α : Type}

/-- `xs[start..start + n]`, shorter where the list ends. -/
def slice (xs : List α) (start n : Nat) : List α := (xs.drop start).take n

theorem length_slice {xs : List α} {start n : Nat} (h : start + n ≤ xs.length) :
    (slice xs start n).length = n := by
  simp only [slice, List.length_take, List.length_drop]
  omega

theorem slice_append (xs : List α) (start m n : Nat) :
    slice xs start (m + n) = slice xs start m ++ slice xs (start + m) n := by
  rw [slice, slice, slice, List.take_add, List.drop_drop]

theorem slice_slice {xs : List α} {start n i m : Nat} (h : i + m ≤ n) :
    slice (slice xs start n) i m = slice xs (start + i) m := by
  rw [slice, slice, slice, List.drop_take, List.take_take, List.drop_drop,
    Nat.min_eq_left (by omega)]

/-- `xs.chunks_exact(n)`: the whole pieces of length `n`. -/
def chunksExact (n : Nat) (xs : List α) : List (List α) :=
  (List.range (xs.length / n)).map fun i => slice xs (i * n) n

/-- `xs.chunks(n)`: as above, with a shorter last piece where one is left. -/
def chunks (n : Nat) (xs : List α) : List (List α) :=
  (List.range ((xs.length + n - 1) / n)).map fun i => slice xs (i * n) n

theorem length_of_mem_chunksExact {n : Nat} {xs c : List α} (h : c ∈ chunksExact n xs) :
    c.length = n := by
  obtain ⟨i, hi, rfl⟩ := List.mem_map.mp h
  have hi' := List.mem_range.mp hi
  have hle : i * n + n ≤ xs.length := by
    have := Nat.mul_le_of_le_div _ _ _ (Nat.succ_le_of_lt hi')
    rwa [Nat.succ_mul] at this
  exact length_slice hle

theorem chunksExact_cons {n : Nat} (hn : 0 < n) {c xs : List α} (hc : c.length = n) :
    chunksExact n (c ++ xs) = c :: chunksExact n xs := by
  have hlen : (c ++ xs).length / n = xs.length / n + 1 := by
    rw [List.length_append, hc, Nat.add_comm, Nat.add_div_right _ hn]
  simp only [chunksExact, hlen, List.range_succ_eq_map, List.map_cons, List.map_map]
  congr 1
  · rw [slice, Nat.zero_mul, List.drop_zero, List.take_left' hc]
  · apply List.map_congr_left
    intro i _
    simp only [slice, Function.comp_apply, Nat.succ_eq_add_one]
    rw [Nat.add_mul, Nat.one_mul, Nat.add_comm, ← List.drop_drop, List.drop_left' hc]

theorem chunksExact_flatten {n : Nat} (hn : 0 < n) {cs : List (List α)}
    (h : ∀ c ∈ cs, c.length = n) : chunksExact n cs.flatten = cs := by
  induction cs with
  | nil => simp [chunksExact]
  | cons c cs ih =>
      rw [List.flatten_cons, chunksExact_cons hn (h c (by simp)),
        ih (fun d hd => h d (List.mem_cons_of_mem c hd))]

theorem length_flatten_of_forall {n : Nat} {cs : List (List α)} (h : ∀ c ∈ cs, c.length = n) :
    cs.flatten.length = cs.length * n := by
  induction cs with
  | nil => simp
  | cons c cs ih =>
      rw [List.flatten_cons, List.length_append, h c (by simp),
        ih (fun d hd => h d (List.mem_cons_of_mem c hd)), List.length_cons, Nat.succ_mul]
      omega

theorem flatten_take {n : Nat} {cs : List (List α)} (h : ∀ c ∈ cs, c.length = n) (k : Nat) :
    (cs.take k).flatten = cs.flatten.take (k * n) := by
  induction cs generalizing k with
  | nil => simp
  | cons c cs ih =>
      have hc := h c List.mem_cons_self
      cases k with
      | zero => simp
      | succ k =>
          have tail := ih (fun d hd => h d (List.mem_cons_of_mem c hd)) k
          rw [List.take_succ_cons, List.flatten_cons, List.flatten_cons, tail, Nat.succ_mul,
            Nat.add_comm, ← hc, List.take_length_add_append]

theorem flatten_drop_one {n : Nat} {cs : List (List α)} (hne : cs ≠ [])
    (h : ∀ c ∈ cs, c.length = n) :
    cs.flatten.drop n = (cs.drop 1).flatten ∧
      cs.flatten.length = n + (cs.drop 1).flatten.length := by
  obtain ⟨c, cs, rfl⟩ := List.exists_cons_of_ne_nil hne
  have hc := h c List.mem_cons_self
  rw [List.flatten_cons, List.drop_left' hc, List.length_append, hc]
  exact ⟨rfl, rfl⟩

theorem flatten_chunksExact {n : Nat} (hn : 0 < n) {xs : List α} (h : n ∣ xs.length) :
    (chunksExact n xs).flatten = xs := by
  obtain ⟨k, hk⟩ := h
  induction k generalizing xs with
  | zero =>
      have : xs = [] := List.length_eq_zero_iff.mp (by simpa using hk)
      subst this
      simp [chunksExact]
  | succ k ih =>
      have hlen : n ≤ xs.length := by rw [hk, Nat.mul_succ]; omega
      have hc : (xs.take n).length = n := by simp only [List.length_take]; omega
      have hd : (xs.drop n).length = n * k := by rw [List.length_drop, hk, Nat.mul_succ]; omega
      rw [← List.take_append_drop n xs, chunksExact_cons hn hc, List.flatten_cons, ih hd]

@[simp] theorem chunks_nil {n : Nat} (hn : 0 < n) : chunks n ([] : List α) = [] := by
  have : (0 + n - 1) / n = 0 := Nat.div_eq_of_lt (by omega)
  simp only [chunks, List.length_nil, this, List.range_zero, List.map_nil]

theorem chunks_cons {n : Nat} (hn : 0 < n) {xs : List α} (h : xs ≠ []) :
    chunks n xs = xs.take n :: chunks n (xs.drop n) := by
  have hpos : 0 < xs.length := List.length_pos_iff.mpr h
  have hcount : (xs.length + n - 1) / n = ((xs.drop n).length + n - 1) / n + 1 := by
    rw [List.length_drop]
    by_cases hle : n ≤ xs.length
    · rw [show xs.length + n - 1 = (xs.length - n + n - 1) + n by omega, Nat.add_div_right _ hn]
    · have hlast : xs.length - n + n - 1 < n := by omega
      rw [Nat.div_eq_of_lt hlast]
      exact Nat.div_eq_of_lt_le (by omega) (by omega)
  simp only [chunks, hcount, List.range_succ_eq_map, List.map_cons, List.map_map]
  congr 1
  · rw [slice, Nat.zero_mul, List.drop_zero]
  · apply List.map_congr_left
    intro i _
    simp only [slice, Function.comp_apply, Nat.succ_eq_add_one, List.drop_drop]
    rw [Nat.add_mul, Nat.one_mul, Nat.add_comm]

end Pieces

section BigEndian

/-- `uN::from_be_bytes` -/
def fromBE (b : Bytes) : Nat := b.foldl (fun v x => v * 256 + x.toNat) 0

/-- `uN::to_be_bytes`, the low `n` bytes of the number. -/
def toBE : Nat → Nat → Bytes
  | 0, _ => []
  | n + 1, v => toBE n (v / 256) ++ [UInt8.ofNat (v % 256)]

@[simp] theorem length_toBE (n v : Nat) : (toBE n v).length = n := by
  induction n generalizing v with
  | zero => rfl
  | succ n ih => simp only [toBE, List.length_append, ih, List.length_cons, List.length_nil]

theorem fromBE_append (a : Bytes) (x : UInt8) : fromBE (a ++ [x]) = fromBE a * 256 + x.toNat := by
  simp only [fromBE, List.foldl_append, List.foldl_cons, List.foldl_nil]

theorem fromBE_toBE (n v : Nat) : fromBE (toBE n v) = v % 256 ^ n := by
  induction n generalizing v with
  | zero => simp [toBE, fromBE, Nat.mod_one]
  | succ n ih =>
      have hlow : (UInt8.ofNat (v % 256)).toNat = v % 256 := by
        simp [Nat.mod_eq_of_lt (show v % 256 < 256 by omega)]
      rw [toBE, fromBE_append, ih, hlow, Nat.pow_succ, Nat.mul_comm (256 ^ n) 256, Nat.mod_mul]
      omega

theorem toBE_fromBE {n : Nat} {b : Bytes} (h : b.length = n) : toBE n (fromBE b) = b := by
  induction n generalizing b with
  | zero =>
      have : b = [] := List.length_eq_zero_iff.mp h
      subst this
      rfl
  | succ n ih =>
      have hne : b ≠ [] := List.ne_nil_of_length_eq_add_one h
      obtain ⟨a, x, rfl⟩ := (List.eq_nil_or_concat b).resolve_left hne
      have ha : a.length = n := by simpa using h
      rw [List.concat_eq_append]
      have hx : x.toNat < 256 := x.toNat_lt
      rw [fromBE_append, toBE]
      rw [show (fromBE a * 256 + x.toNat) / 256 = fromBE a by omega,
        show (fromBE a * 256 + x.toNat) % 256 = x.toNat by omega, ih ha, UInt8.ofNat_toNat]

theorem toBE_mod (n v : Nat) : toBE n (v % 256 ^ n) = toBE n v := by
  rw [← fromBE_toBE, toBE_fromBE (length_toBE n v)]

end BigEndian
end Bytes
