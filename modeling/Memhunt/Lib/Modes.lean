import Mathlib

/-! Modes of operation of a block cipher, over any type of blocks with a masking operation.
`V` singles out the values that are blocks; nothing is asked of the others. -/
namespace Modes

variable {β : Type}

/-- Masking undoes itself on blocks, as exclusive or does. -/
structure Masking (V : β → Prop) (mask : β → β → β) : Prop where
  closed : ∀ {a b}, V a → V b → V (mask a b)
  cancel : ∀ {a b}, V a → V b → mask (mask a b) b = a

structure Inverse (V : β → Prop) (E D : β → β) : Prop where
  maps : ∀ {b}, V b → V (E b)
  left : ∀ {b}, V b → D (E b) = b

def ecbEncrypt (E : β → β) (ps : List β) : List β := ps.map E

def ecbDecrypt (D : β → β) (cs : List β) : List β := cs.map D

def cbcEncrypt (E : β → β) (mask : β → β → β) : β → List β → List β
  | _, [] => []
  | iv, p :: ps => E (mask p iv) :: cbcEncrypt E mask (E (mask p iv)) ps

def cbcDecrypt (D : β → β) (mask : β → β → β) : β → List β → List β
  | _, [] => []
  | iv, c :: cs => mask (D c) iv :: cbcDecrypt D mask c cs

/-- The part of a CBC decryption that needs no initial value: all blocks but the first. -/
def cbcTail (D : β → β) (mask : β → β → β) : List β → List β
  | [] => []
  | c :: cs => cbcDecrypt D mask c cs

variable {V : β → Prop} {E D : β → β} {mask : β → β → β}

@[simp] theorem length_cbcEncrypt (iv : β) (ps : List β) :
    (cbcEncrypt E mask iv ps).length = ps.length := by
  induction ps generalizing iv with
  | nil => rfl
  | cons p ps ih => simp only [cbcEncrypt, List.length_cons, ih]

@[simp] theorem length_cbcDecrypt (iv : β) (cs : List β) :
    (cbcDecrypt D mask iv cs).length = cs.length := by
  induction cs generalizing iv with
  | nil => rfl
  | cons c cs ih => simp only [cbcDecrypt, List.length_cons, ih]

theorem cbcDecrypt_drop_one (iv : β) (cs : List β) :
    (cbcDecrypt D mask iv cs).drop 1 = cbcTail D mask cs := by
  cases cs with
  | nil => rfl
  | cons c cs => rfl

/-- The decryption of later blocks reads each block and the one before it, never the first `iv`. -/
theorem cbcDecrypt_eq_zipWith (iv : β) (cs : List β) :
    cbcDecrypt D mask iv cs = List.zipWith mask (cs.map D) (iv :: cs) := by
  induction cs generalizing iv with
  | nil => rfl
  | cons c cs ih => simp only [cbcDecrypt, ih, List.map_cons, List.zipWith_cons_cons]

theorem cbcTail_eq_zipWith (cs : List β) :
    cbcTail D mask cs = List.zipWith mask (cs.tail.map D) cs := by
  cases cs with
  | nil => rfl
  | cons c cs => exact cbcDecrypt_eq_zipWith c cs

theorem cbcTail_take (cs : List β) (n : Nat) :
    List.zipWith mask ((cs.tail.take n).map D) cs = (cbcTail D mask cs).take n := by
  rw [cbcTail_eq_zipWith]
  apply List.ext_getElem?
  intro i
  by_cases h : i < n
  · simp [List.getElem?_zipWith, List.getElem?_take_of_lt h]
  · simp [List.getElem?_zipWith, List.getElem?_take_eq_none (Nat.le_of_not_lt h)]

theorem cbcEncrypt_valid (hmask : Masking V mask) (hinv : Inverse V E D) {iv : β} {ps : List β}
    (hiv : V iv) (hps : ∀ p ∈ ps, V p) : ∀ c ∈ cbcEncrypt E mask iv ps, V c := by
  induction ps generalizing iv with
  | nil => simp [cbcEncrypt]
  | cons p ps ih =>
      have hp := hps p (by simp)
      have hc : V (E (mask p iv)) := hinv.maps (hmask.closed hp hiv)
      exact List.forall_mem_cons.mpr ⟨hc, ih hc (fun q hq => hps q (List.mem_cons_of_mem p hq))⟩

theorem cbcDecrypt_cbcEncrypt (hmask : Masking V mask) (hinv : Inverse V E D) {iv : β}
    {ps : List β} (hiv : V iv) (hps : ∀ p ∈ ps, V p) :
    cbcDecrypt D mask iv (cbcEncrypt E mask iv ps) = ps := by
  induction ps generalizing iv with
  | nil => rfl
  | cons p ps ih =>
      have hp := hps p (by simp)
      have hm : V (mask p iv) := hmask.closed hp hiv
      have tail := ih (hinv.maps hm) (fun q hq => hps q (List.mem_cons_of_mem p hq))
      simp only [cbcEncrypt, cbcDecrypt, tail, hinv.left hm, hmask.cancel hp hiv]

theorem cbcTail_cbcEncrypt (hmask : Masking V mask) (hinv : Inverse V E D) {iv : β}
    {ps : List β} (hiv : V iv) (hps : ∀ p ∈ ps, V p) :
    cbcTail D mask (cbcEncrypt E mask iv ps) = ps.drop 1 := by
  rw [← cbcDecrypt_drop_one iv, cbcDecrypt_cbcEncrypt hmask hinv hiv hps]

/-- The ECB reading of a CBC ciphertext: each plaintext block still masked by its predecessor. -/
theorem ecbDecrypt_cbcEncrypt (hmask : Masking V mask) (hinv : Inverse V E D) {iv : β}
    {ps : List β} (hiv : V iv) (hps : ∀ p ∈ ps, V p) :
    ecbDecrypt D (cbcEncrypt E mask iv ps) =
      List.zipWith mask ps (iv :: cbcEncrypt E mask iv ps) := by
  induction ps generalizing iv with
  | nil => rfl
  | cons p ps ih =>
      have hp := hps p (by simp)
      have hm : V (mask p iv) := hmask.closed hp hiv
      have tail := ih (hinv.maps hm) (fun q hq => hps q (List.mem_cons_of_mem p hq))
      simp only [ecbDecrypt] at tail ⊢
      simp only [cbcEncrypt, List.map_cons, tail, hinv.left hm, List.zipWith_cons_cons]

theorem ecbDecrypt_ecbEncrypt (hinv : Inverse V E D) {ps : List β} (hps : ∀ p ∈ ps, V p) :
    ecbDecrypt D (ecbEncrypt E ps) = ps := by
  rw [ecbDecrypt, ecbEncrypt, List.map_map]
  exact (List.map_congr_left (fun p hp => hinv.left (hps p hp))).trans (List.map_id' ps)

/-- Counter mode: byte `t` of the text masked with byte `t` of the keystream. -/
def counterMode (ks : Nat → β) (mask : β → β → β) (text : List β) : List β :=
  text.mapIdx fun t b => mask b (ks t)

@[simp] theorem length_counterMode (ks : Nat → β) (text : List β) :
    (counterMode ks mask text).length = text.length := List.length_mapIdx

theorem counterMode_take (ks : Nat → β) (text : List β) (n : Nat) :
    counterMode ks mask (text.take n) = (counterMode ks mask text).take n := by
  apply List.ext_getElem?
  intro i
  by_cases h : i < n
  · simp [counterMode, h]
  · simp [counterMode, h]

theorem counterMode_twice (hmask : ∀ a b, mask (mask a b) b = a) (ks : Nat → β)
    (text : List β) : counterMode ks mask (counterMode ks mask text) = text := by
  apply List.ext_getElem?
  intro i
  simp only [counterMode, List.getElem?_mapIdx, Option.map_map]
  cases text[i]? with
  | none => rfl
  | some b => simp [hmask]

def blockStream [Inhabited β] (n : Nat) (blocks : Nat → List β) (t : Nat) : β :=
  (blocks (t / n)).getD (t % n) default

/-- Counter mode goes block by block: the first block of the text, then the rest of it with the
rest of the keystream. -/
theorem counterMode_blockStream [Inhabited β] {n : Nat} (hn : 0 < n) {blocks : Nat → List β}
    (hblocks : ∀ i, (blocks i).length = n) (text : List β) :
    counterMode (blockStream n blocks) mask text =
      List.zipWith mask (text.take n) (blocks 0) ++
        counterMode (blockStream n fun i => blocks (i + 1)) mask (text.drop n) := by
  apply List.ext_getElem?
  intro t
  have hhead : (List.zipWith mask (text.take n) (blocks 0)).length = min n text.length := by
    rw [List.length_zipWith, List.length_take, hblocks]
    omega
  by_cases ht : t < text.length
  · by_cases hlt : t < n
    · have hget : (blocks 0)[t]? = some ((blocks 0).getD t default) := by
        rw [List.getD_eq_getElem?_getD, List.getElem?_eq_getElem (by rw [hblocks]; exact hlt),
          Option.getD_some]
      rw [List.getElem?_append_left (by omega), List.getElem?_zipWith, hget,
        List.getElem?_take_of_lt hlt, List.getElem?_eq_getElem ht]
      simp [counterMode, blockStream, ht, Nat.div_eq_of_lt hlt, Nat.mod_eq_of_lt hlt]
    · obtain ⟨s, rfl⟩ := Nat.exists_eq_add_of_le (Nat.le_of_not_lt hlt)
      have hs : n + s - min n text.length = s := by omega
      rw [List.getElem?_append_right (by omega), hhead, hs]
      simp [counterMode, blockStream, Nat.add_div_left, hn]
  · rw [List.getElem?_eq_none (by rw [length_counterMode]; omega), List.getElem?_eq_none (by
      rw [List.length_append, hhead, length_counterMode, List.length_drop]; omega)]

end Modes
