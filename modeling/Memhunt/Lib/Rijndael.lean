import Memhunt.Lib.Bytes
import Memhunt.Lib.Recurrence

/-! The key expansion of FIPS-197: bytes as elements of the field of 256 elements, the S-box, and
the words of the schedule. -/
namespace Rijndael
open Recurrence

section Field

/-- Times `x`, for the polynomials whose coefficients are the bits of a number below 256. -/
def xtime (a : Nat) : Nat := if a < 0x80 then 2 * a else (2 * a) ^^^ 0x11b

/-- The product with the polynomial of the low `n` bits of `b`. -/
def mulBits : Nat → Nat → Nat → Nat
  | 0, _, _ => 0
  | n + 1, a, b => (if b % 2 = 1 then a else 0) ^^^ mulBits n (xtime a) (b / 2)

def mul (a b : Nat) : Nat := mulBits 8 a b

/-- The product of the first `n` repeated squares. -/
def squares : Nat → Nat → Nat
  | 0, _ => 1
  | n + 1, a => mul (mul a a) (squares n (mul a a))

/-- The power 254, which is the inverse of every element but zero. -/
def inverse (a : Nat) : Nat := squares 7 a

def rotl (a n : UInt8) : UInt8 := (a <<< n) ||| (a >>> (8 - n))

def affine (b : UInt8) : UInt8 :=
  b ^^^ rotl b 1 ^^^ rotl b 2 ^^^ rotl b 3 ^^^ rotl b 4 ^^^ 0x63

def subByte (a : UInt8) : UInt8 := affine (UInt8.ofNat (inverse a.toNat))

theorem mul_inverse : ∀ a < 256, a ≠ 0 → mul a (inverse a) = 1 := by decide +kernel

end Field

@[ext] structure Word where
  b0 : UInt8
  b1 : UInt8
  b2 : UInt8
  b3 : UInt8
  deriving DecidableEq, Repr

instance : Inhabited Word where
  default := ⟨0, 0, 0, 0⟩

namespace Word

def bytes (w : Word) : Bytes := [w.b0, w.b1, w.b2, w.b3]

def xor (v w : Word) : Word := ⟨v.b0 ^^^ w.b0, v.b1 ^^^ w.b1, v.b2 ^^^ w.b2, v.b3 ^^^ w.b3⟩

def rot (w : Word) : Word := ⟨w.b1, w.b2, w.b3, w.b0⟩

def sub (w : Word) : Word := ⟨subByte w.b0, subByte w.b1, subByte w.b2, subByte w.b3⟩

end Word

def wordsOf : Bytes → List Word
  | a :: b :: c :: d :: rest => ⟨a, b, c, d⟩ :: wordsOf rest
  | _ => []

def bytesOf (ws : List Word) : Bytes := ws.flatMap Word.bytes

def rcon (j : Nat) : Word := ⟨UInt8.ofNat (xtime^[j - 1] 1), 0, 0, 0⟩

@[simp] theorem length_bytesOf (ws : List Word) : (bytesOf ws).length = 4 * ws.length := by
  induction ws with
  | nil => rfl
  | cons w ws ih =>
      have hone : w.bytes.length = 4 := rfl
      rw [bytesOf, List.flatMap_cons, List.length_append, ← bytesOf, ih, hone, List.length_cons,
        Nat.mul_succ, Nat.add_comm]

theorem bytesOf_append (v w : List Word) : bytesOf (v ++ w) = bytesOf v ++ bytesOf w :=
  List.flatMap_append

theorem take_bytesOf (ws : List Word) (n : Nat) :
    (bytesOf ws).take (4 * n) = bytesOf (ws.take n) := by
  by_cases h : n ≤ ws.length
  · have hlen : (bytesOf (ws.take n)).length = 4 * n := by
      rw [length_bytesOf, List.length_take_of_le h]
    conv_lhs => rw [← List.take_append_drop n ws, bytesOf_append, List.take_left' hlen]
  · have hall : ws.length ≤ n := by omega
    rw [List.take_of_length_le hall, List.take_of_length_le (by rw [length_bytesOf]; omega)]

theorem drop_bytesOf (ws : List Word) (n : Nat) :
    (bytesOf ws).drop (4 * n) = bytesOf (ws.drop n) := by
  by_cases h : n ≤ ws.length
  · have hlen : (bytesOf (ws.take n)).length = 4 * n := by
      rw [length_bytesOf, List.length_take_of_le h]
    conv_lhs => rw [← List.take_append_drop n ws, bytesOf_append, List.drop_left' hlen]
  · have hall : ws.length ≤ n := by omega
    rw [List.drop_of_length_le hall, List.drop_of_length_le (by rw [length_bytesOf]; omega)]
    rfl

theorem wordsOf_bytesOf_append (ws : List Word) (bs : Bytes) :
    wordsOf (bytesOf ws ++ bs) = ws ++ wordsOf bs := by
  induction ws with
  | nil => rfl
  | cons w ws ih =>
      have hcons : wordsOf (bytesOf (w :: ws) ++ bs) = w :: wordsOf (bytesOf ws ++ bs) := rfl
      rw [hcons, ih, List.cons_append]

theorem wordsOf_bytesOf (ws : List Word) : wordsOf (bytesOf ws) = ws := by
  have hnil : wordsOf [] = [] := rfl
  have happend := wordsOf_bytesOf_append ws []
  rwa [List.append_nil, hnil, List.append_nil] at happend

theorem bytesOf_wordsOf {n : Nat} {bs : Bytes} (h : bs.length = 4 * n) :
    bytesOf (wordsOf bs) = bs := by
  induction n generalizing bs with
  | zero =>
      have hnil : bs = [] := List.length_eq_zero_iff.mp h
      subst hnil
      rfl
  | succ n ih =>
      match bs, h with
      | a :: b :: c :: d :: rest, h =>
          have hrest : rest.length = 4 * n := by
            simp only [List.length_cons] at h
            omega
          have hcons : bytesOf (wordsOf (a :: b :: c :: d :: rest)) =
              a :: b :: c :: d :: bytesOf (wordsOf rest) := rfl
          rw [hcons, ih hrest]

theorem wordsOf_slice (ws : List Word) (i n : Nat) :
    wordsOf (Bytes.slice (bytesOf ws) (4 * i) (4 * n)) = Bytes.slice ws i n := by
  rw [Bytes.slice, drop_bytesOf, take_bytesOf, wordsOf_bytesOf, Bytes.slice]

theorem length_wordsOf {n : Nat} {bs : Bytes} (h : bs.length = 4 * n) :
    (wordsOf bs).length = n := by
  have hlen := length_bytesOf (wordsOf bs)
  rw [bytesOf_wordsOf h, h] at hlen
  omega

theorem wordsOf_append {n : Nat} {bs cs : Bytes} (h : bs.length = 4 * n) :
    wordsOf (bs ++ cs) = wordsOf bs ++ wordsOf cs := by
  rw [← wordsOf_bytesOf_append, bytesOf_wordsOf h]

/-- Word `i` of the schedule of an `nk`-word key, from the words before it. -/
def nextWord (nk : Nat) (w : List Word) : Word :=
  let i := w.length
  let temp := w.getD (i - 1) default
  let mixed :=
    if i % nk = 0 then temp.rot.sub.xor (rcon (i / nk))
    else if 6 < nk ∧ i % nk = 4 then temp.sub
    else temp
  (w.getD (i - nk) default).xor mixed

/-- What is added to the word `nk` places back, from the last word before word `i`. -/
def mix (nk i : Nat) (temp : Word) : Word :=
  if i % nk = 0 then temp.rot.sub.xor (rcon (i / nk))
  else if 6 < nk ∧ i % nk = 4 then temp.sub
  else temp

/-- A word is computed from its number and the `nk` words in front of it alone. -/
theorem nextWord_append {nk : Nat} (hnk : 0 < nk) (front : List Word) {window : List Word}
    (h : window.length = nk) :
    nextWord nk (front ++ window) =
      (window.getD 0 default).xor
        (mix nk (front.length + nk) (window.getD (nk - 1) default)) := by
  have hget : ∀ j, (front ++ window).getD (front.length + j) default = window.getD j default := by
    intro j
    rw [List.getD_append_right _ _ _ _ (Nat.le_add_right _ _), Nat.add_sub_cancel_left]
  have hlast : front.length + nk - 1 = front.length + (nk - 1) := by omega
  have hback : front.length + nk - nk = front.length + 0 := by omega
  simp only [nextWord, mix, List.length_append, h, hlast, hback, hget]

theorem Word.xor_left_cancel {u v w : Word} (h : u.xor v = u.xor w) : v = w := by
  simp only [Word.xor, Word.mk.injEq, UInt8.xor_right_inj] at h
  exact Word.ext h.1 h.2.1 h.2.2.1 h.2.2.2

/-- The round constants that go into a schedule are different from the first one. -/
theorem rcon_ne_first {j : Nat} (hlow : 2 ≤ j) (hhigh : j ≤ 10) : rcon j ≠ rcon 1 := by
  have table : ∀ j ≤ 10, 2 ≤ j → rcon j ≠ rcon 1 := by decide
  exact table j hhigh hlow

/-- The substitutions of a word with and without its rotation do not differ by the first round
constant: going around the four bytes, the first one would differ from itself. -/
theorem rot_sub_xor_rcon_ne_sub (w : Word) : w.rot.sub.xor (rcon 1) ≠ w.sub := by
  intro h
  have hfirst : rcon 1 = ⟨1, 0, 0, 0⟩ := rfl
  simp only [hfirst, Word.xor, Word.rot, Word.sub, Word.mk.injEq, UInt8.xor_zero] at h
  obtain ⟨h0, h1, h2, h3⟩ := h
  rw [← h1, ← h2, ← h3] at h0
  have hone : (1 : UInt8) = 0 := (UInt8.xor_right_inj _).mp (h0.trans UInt8.xor_zero.symm)
  cases hone

/-- The first word after the `nk` words in front of word `i` is not mixed as it would be if those
words were a key of their own. -/
theorem mix_ne_first {nk i : Nat} (hnk : 0 < nk) (hpos : 0 < i)
    (hboundary : (nk ∣ i ∧ i / nk ≤ 9) ∨ (nk = 8 ∧ i % 8 = 4)) (temp : Word) :
    mix nk nk temp ≠ mix nk (i + nk) temp := by
  have hfirst : mix nk nk temp = temp.rot.sub.xor (rcon 1) := by
    rw [mix, if_pos (Nat.mod_self nk), Nat.div_self hnk]
  rw [hfirst]
  rcases hboundary with ⟨hdvd, hround⟩ | ⟨rfl, hhalf⟩
  · have hquot : 0 < i / nk := Nat.div_pos (Nat.le_of_dvd hpos hdvd) hnk
    have hzero : (i + nk) % nk = 0 := by
      rw [Nat.add_mod_right, Nat.mod_eq_zero_of_dvd hdvd]
    rw [mix, if_pos hzero, Nat.add_div_right _ hnk]
    exact fun h => rcon_ne_first (by omega) (by omega) (Word.xor_left_cancel h).symm
  · have hmid : (i + 8) % 8 = 4 := by omega
    rw [mix, if_neg (by omega), if_pos ⟨by omega, hmid⟩]
    exact rot_sub_xor_rcon_ne_sub temp

def rounds (nk : Nat) : Nat := nk + 6

def keyExpansion (nk : Nat) (key : Bytes) : List Word :=
  grow (nextWord nk) (wordsOf key) (4 * (rounds nk + 1) - nk)

def schedule (nk : Nat) (key : Bytes) : Bytes := bytesOf (keyExpansion nk key)

section Schedule
variable {nk : Nat} {key : Bytes}

theorem length_keyExpansion (hkey : key.length = 4 * nk) :
    (keyExpansion nk key).length = 4 * (rounds nk + 1) := by
  rw [keyExpansion, length_grow, length_wordsOf hkey]
  unfold rounds
  omega

theorem take_keyExpansion {m : Nat} (hkey : key.length = 4 * nk) (hm : nk + m ≤ 4 * (rounds nk + 1)) :
    (keyExpansion nk key).take (nk + m) = grow (nextWord nk) (wordsOf key) m := by
  have htake := @take_grow Word (nextWord nk) (wordsOf key) m (4 * (rounds nk + 1) - nk - m)
  have hcount : m + (4 * (rounds nk + 1) - nk - m) = 4 * (rounds nk + 1) - nk := by omega
  rwa [hcount, length_wordsOf hkey] at htake

theorem follows_keyExpansion (hkey : key.length = 4 * nk) :
    Follows (nextWord nk) nk (keyExpansion nk key) := by
  have hall := (@eq_grow_iff Word (nextWord nk) (wordsOf key) (keyExpansion nk key) _
    length_grow).mp rfl
  rw [length_wordsOf hkey] at hall
  exact hall.2

/-- The expansion begins with the words of the key. -/
theorem keyExpansion_eq (hkey : key.length = 4 * nk) :
    keyExpansion nk key = wordsOf key ++ (keyExpansion nk key).drop nk := by
  have hstart : (keyExpansion nk key).take nk = wordsOf key :=
    take_keyExpansion (m := 0) hkey (by unfold rounds; omega)
  rw [← hstart, List.take_append_drop]

theorem schedule_eq (hkey : key.length = 4 * nk) :
    schedule nk key = key ++ bytesOf ((keyExpansion nk key).drop nk) := by
  rw [schedule, keyExpansion_eq hkey, bytesOf_append, bytesOf_wordsOf hkey, List.drop_left'
    (length_wordsOf hkey)]

/-- Words behind a key that follow one by one are the ones that its expansion has there. -/
theorem follows_key_iff {head : Bytes} {m : Nat} (hkey : key.length = 4 * nk)
    (hhead : head.length = 4 * m) (hm : nk + m ≤ 4 * (rounds nk + 1)) :
    Follows (nextWord nk) nk (wordsOf (key ++ head)) ↔
      head = bytesOf (((keyExpansion nk key).drop nk).take m) := by
  have hwords := length_wordsOf hkey
  have hlen : (wordsOf key ++ wordsOf head).length = (wordsOf key).length + m := by
    rw [List.length_append, length_wordsOf hhead]
  have hall := @eq_grow_iff Word (nextWord nk) _ _ m hlen
  rw [List.take_left, hwords] at hall
  have hexpansion : grow (nextWord nk) (wordsOf key) m =
      wordsOf key ++ ((keyExpansion nk key).drop nk).take m := by
    rw [← take_keyExpansion hkey hm, keyExpansion_eq hkey, List.take_append, hwords,
      List.take_of_length_le (by omega), Nat.add_sub_cancel_left, List.drop_left' hwords]
  rw [wordsOf_append hkey, ← hall.trans (and_iff_right rfl), hexpansion, List.append_cancel_left_eq]
  constructor
  · intro h
    rw [← h, bytesOf_wordsOf hhead]
  · intro h
    rw [h, wordsOf_bytesOf]

end Schedule

/-- The last word of the published expansion of a 256-bit key. -/
example : (keyExpansion 8
    [0x60, 0x3d, 0xeb, 0x10, 0x15, 0xca, 0x71, 0xbe, 0x2b, 0x73, 0xae, 0xf0, 0x85, 0x7d, 0x77, 0x81,
      0x1f, 0x35, 0x2c, 0x07, 0x3b, 0x61, 0x08, 0xd7, 0x2d, 0x98, 0x10, 0xa3, 0x09, 0x14, 0xdf,
      0xf4])[59]? = some ⟨0x70, 0x6c, 0x63, 0x1e⟩ := by decide +kernel

end Rijndael
