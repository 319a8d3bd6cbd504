import Memhunt.Lib.Bytes

/-! The key expansion of SM4 (GB/T 32907): the S-box from the field of 256 elements, and the words
of the recurrence, the round keys from the fourth one on. -/
namespace Sm4

section Field

/-- Times `x`, for the polynomials whose coefficients are the bits of a number below 256. -/
def xtime (a : Nat) : Nat := if a < 0x80 then 2 * a else (2 * a) ^^^ 0x1f5

def mulBits : Nat → Nat → Nat → Nat
  | 0, _, _ => 0
  | n + 1, a, b => (if b % 2 = 1 then a else 0) ^^^ mulBits n (xtime a) (b / 2)

def mul (a b : Nat) : Nat := mulBits 8 a b

/-- The product of the first `n` repeated squares. -/
def squares : Nat → Nat → Nat
  | 0, _ => 1
  | n + 1, a => mul (mul a a) (squares n (mul a a))

def inverse (a : Nat) : Nat := squares 7 a

theorem mul_inverse : ∀ a < 256, a ≠ 0 → mul a (inverse a) = 1 := by decide +kernel

def rotl (a n : UInt8) : UInt8 := (a <<< n) ||| (a >>> (8 - n))

def affine (b : UInt8) : UInt8 :=
  b ^^^ rotl b 1 ^^^ rotl b 3 ^^^ rotl b 6 ^^^ rotl b 7 ^^^ 0xd3

def sbox (b : UInt8) : UInt8 := affine (UInt8.ofNat (inverse (affine b).toNat))

end Field

def wordOf (bytes : Bytes) : UInt32 := UInt32.ofNat (Bytes.fromBE bytes)

def tau (a : UInt32) : UInt32 := wordOf ((Bytes.toBE 4 a.toNat).map sbox)

def rotateLeft (a : UInt32) (n : Nat) : UInt32 := .ofBitVec (a.toBitVec.rotateLeft n)

/-- The mixing of the key expansion; the one of the rounds has other rotations. -/
def tPrime (a : UInt32) : UInt32 := tau a ^^^ rotateLeft (tau a) 13 ^^^ rotateLeft (tau a) 23

def fk : Nat → UInt32
  | 0 => 0xa3b1bac6
  | 1 => 0x56aa3350
  | 2 => 0x677d9197
  | _ => 0xb27022dc

/-- Byte `j` of constant `i` is seven times `4 i + j`. -/
def ck (i : Nat) : UInt32 :=
  wordOf ((List.range 4).map fun j => UInt8.ofNat ((4 * i + j) * 7 % 256))

/-- Word `i` of the expansion of the master key words. -/
def keyWord (mk : Nat → UInt32) : Nat → UInt32
  | 0 => mk 0 ^^^ fk 0
  | 1 => mk 1 ^^^ fk 1
  | 2 => mk 2 ^^^ fk 2
  | 3 => mk 3 ^^^ fk 3
  | i + 4 =>
      keyWord mk i ^^^ tPrime (keyWord mk (i + 1) ^^^ keyWord mk (i + 2) ^^^ keyWord mk (i + 3) ^^^
        ck i)

def masterKey (key : Bytes) (i : Nat) : UInt32 := wordOf (Bytes.slice key (4 * i) 4)

def roundKey (key : Bytes) (i : Nat) : UInt32 := keyWord (masterKey key) (i + 4)

/-- The first round key of the published example. -/
example : roundKey [0x01, 0x23, 0x45, 0x67, 0x89, 0xab, 0xcd, 0xef, 0xfe, 0xdc, 0xba, 0x98, 0x76,
    0x54, 0x32, 0x10] 0 = 0xf12186f9 := by decide +kernel

end Sm4
