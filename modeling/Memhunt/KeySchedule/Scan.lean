import Memhunt.Lib.Hex
import Memhunt.Lib.Rijndael
import Memhunt.Lib.Windows
import Memhunt.Report

/-! Key schedules found by their structure alone, with no ciphertext: a key and, behind it, the
words that its expansion begins with. -/
namespace Memhunt
open Rust
open Rijndael (Word)

set_option maxRecDepth 2000 in
def sboxTable : Vector UInt8 256 :=
  #v[0x63, 0x7c, 0x77, 0x7b, 0xf2, 0x6b, 0x6f, 0xc5, 0x30, 0x01, 0x67, 0x2b, 0xfe, 0xd7, 0xab, 0x76,
    0xca, 0x82, 0xc9, 0x7d, 0xfa, 0x59, 0x47, 0xf0, 0xad, 0xd4, 0xa2, 0xaf, 0x9c, 0xa4, 0x72, 0xc0,
    0xb7, 0xfd, 0x93, 0x26, 0x36, 0x3f, 0xf7, 0xcc, 0x34, 0xa5, 0xe5, 0xf1, 0x71, 0xd8, 0x31, 0x15,
    0x04, 0xc7, 0x23, 0xc3, 0x18, 0x96, 0x05, 0x9a, 0x07, 0x12, 0x80, 0xe2, 0xeb, 0x27, 0xb2, 0x75,
    0x09, 0x83, 0x2c, 0x1a, 0x1b, 0x6e, 0x5a, 0xa0, 0x52, 0x3b, 0xd6, 0xb3, 0x29, 0xe3, 0x2f, 0x84,
    0x53, 0xd1, 0x00, 0xed, 0x20, 0xfc, 0xb1, 0x5b, 0x6a, 0xcb, 0xbe, 0x39, 0x4a, 0x4c, 0x58, 0xcf,
    0xd0, 0xef, 0xaa, 0xfb, 0x43, 0x4d, 0x33, 0x85, 0x45, 0xf9, 0x02, 0x7f, 0x50, 0x3c, 0x9f, 0xa8,
    0x51, 0xa3, 0x40, 0x8f, 0x92, 0x9d, 0x38, 0xf5, 0xbc, 0xb6, 0xda, 0x21, 0x10, 0xff, 0xf3, 0xd2,
    0xcd, 0x0c, 0x13, 0xec, 0x5f, 0x97, 0x44, 0x17, 0xc4, 0xa7, 0x7e, 0x3d, 0x64, 0x5d, 0x19, 0x73,
    0x60, 0x81, 0x4f, 0xdc, 0x22, 0x2a, 0x90, 0x88, 0x46, 0xee, 0xb8, 0x14, 0xde, 0x5e, 0x0b, 0xdb,
    0xe0, 0x32, 0x3a, 0x0a, 0x49, 0x06, 0x24, 0x5c, 0xc2, 0xd3, 0xac, 0x62, 0x91, 0x95, 0xe4, 0x79,
    0xe7, 0xc8, 0x37, 0x6d, 0x8d, 0xd5, 0x4e, 0xa9, 0x6c, 0x56, 0xf4, 0xea, 0x65, 0x7a, 0xae, 0x08,
    0xba, 0x78, 0x25, 0x2e, 0x1c, 0xa6, 0xb4, 0xc6, 0xe8, 0xdd, 0x74, 0x1f, 0x4b, 0xbd, 0x8b, 0x8a,
    0x70, 0x3e, 0xb5, 0x66, 0x48, 0x03, 0xf6, 0x0e, 0x61, 0x35, 0x57, 0xb9, 0x86, 0xc1, 0x1d, 0x9e,
    0xe1, 0xf8, 0x98, 0x11, 0x69, 0xd9, 0x8e, 0x94, 0x9b, 0x1e, 0x87, 0xe9, 0xce, 0x55, 0x28, 0xdf,
    0x8c, 0xa1, 0x89, 0x0d, 0xbf, 0xe6, 0x42, 0x68, 0x41, 0x99, 0x2d, 0x0f, 0xb0, 0x54, 0xbb, 0x16]

def rconTable : Vector UInt8 11 :=
  #v[0x01, 0x02, 0x04, 0x08, 0x10, 0x20, 0x40, 0x80, 0x1b, 0x36, 0x6c]

structure KeyScheduleHit where
  algo : String
  offset : Nat
  keyHex : String
  wordsValidated : Nat
  deriving DecidableEq, Repr

structure KeyScheduleResult where
  hits : List KeyScheduleHit
  stats : ScanStats
  deriving DecidableEq, Repr

def sbox (b : UInt8) : UInt8 := sboxTable.get ⟨b.toNat, b.toNat_lt⟩

def subWord (w : Word) : Word := ⟨sbox w.b0, sbox w.b1, sbox w.b2, sbox w.b3⟩

def xor4 (a b : Word) : Word := ⟨a.b0 ^^^ b.b0, a.b1 ^^^ b.b1, a.b2 ^^^ b.b2, a.b3 ^^^ b.b3⟩

def rconAt (i : Nat) : UInt8 := rconTable.get ⟨min i 10, by omega⟩

/-- The word at `i`, computed from the words that precede it. -/
def expandWord (words : List Word) (i nk : Nat) : Run Word := do
  let prev ← index words (i - 1)
  let temp :=
    if nk ∣ i then
      let subbed := subWord ⟨prev.b1, prev.b2, prev.b3, prev.b0⟩
      ⟨subbed.b0 ^^^ rconAt (i / nk - 1), subbed.b1, subbed.b2, subbed.b3⟩
    else if nk = 8 ∧ i % 8 = 4 then subWord prev
    else prev
  let earlier ← index words (i - nk)
  return xor4 earlier temp

def readWord (dump : Bytes) (o : Nat) : Run Word := do
  let b0 ← index dump o
  let b1 ← index dump (o + 1)
  let b2 ← index dump (o + 2)
  let b3 ← index dump (o + 3)
  return ⟨b0, b1, b2, b3⟩

/-- Each word of the list is the one expanded from the words in front of it. -/
def wordsFollow (words : List Word) (nk : Nat) : List Nat → Run Bool
  | [] => .ok true
  | i :: rest => do
      let expanded ← expandWord words i nk
      let word ← index words i
      if expanded ≠ word then return false else wordsFollow words nk rest

def scheduleHeadValid (dump : Bytes) (offset nk : Nat) : Run (Option Nat) :=
  let nWords := nk + 4
  if dump.length < offset + nWords * 4 then .ok none
  else do
    let words ← (List.range nWords).mapM fun i => readWord dump (offset + i * 4)
    let valid ← wordsFollow words nk (List.range' nk (nWords - nk))
    return if valid then some 4 else none

/-- The body of the loop over the key sizes: its hits, and the windows tried. -/
def scanKeySize (dump : Bytes) (nk : Nat) (algo : String) : Run (List KeyScheduleHit × Nat) :=
  let window := (nk + 4) * 4
  if dump.length < window then .ok ([], 0)
  else
    Windows.visit false window dump fun win offset => do
      match ← scheduleHeadValid dump offset nk with
      | none => return none
      | some validated =>
          let key ← sliceTo win (nk * 4)
          return some { algo, offset, keyHex := Hex.encode key, wordsValidated := validated + nk }

section Sm4

set_option maxRecDepth 2000 in
def sm4SboxTable : Vector UInt8 256 :=
  #v[0xd6, 0x90, 0xe9, 0xfe, 0xcc, 0xe1, 0x3d, 0xb7, 0x16, 0xb6, 0x14, 0xc2, 0x28, 0xfb, 0x2c, 0x05,
    0x2b, 0x67, 0x9a, 0x76, 0x2a, 0xbe, 0x04, 0xc3, 0xaa, 0x44, 0x13, 0x26, 0x49, 0x86, 0x06, 0x99,
    0x9c, 0x42, 0x50, 0xf4, 0x91, 0xef, 0x98, 0x7a, 0x33, 0x54, 0x0b, 0x43, 0xed, 0xcf, 0xac, 0x62,
    0xe4, 0xb3, 0x1c, 0xa9, 0xc9, 0x08, 0xe8, 0x95, 0x80, 0xdf, 0x94, 0xfa, 0x75, 0x8f, 0x3f, 0xa6,
    0x47, 0x07, 0xa7, 0xfc, 0xf3, 0x73, 0x17, 0xba, 0x83, 0x59, 0x3c, 0x19, 0xe6, 0x85, 0x4f, 0xa8,
    0x68, 0x6b, 0x81, 0xb2, 0x71, 0x64, 0xda, 0x8b, 0xf8, 0xeb, 0x0f, 0x4b, 0x70, 0x56, 0x9d, 0x35,
    0x1e, 0x24, 0x0e, 0x5e, 0x63, 0x58, 0xd1, 0xa2, 0x25, 0x22, 0x7c, 0x3b, 0x01, 0x21, 0x78, 0x87,
    0xd4, 0x00, 0x46, 0x57, 0x9f, 0xd3, 0x27, 0x52, 0x4c, 0x36, 0x02, 0xe7, 0xa0, 0xc4, 0xc8, 0x9e,
    0xea, 0xbf, 0x8a, 0xd2, 0x40, 0xc7, 0x38, 0xb5, 0xa3, 0xf7, 0xf2, 0xce, 0xf9, 0x61, 0x15, 0xa1,
    0xe0, 0xae, 0x5d, 0xa4, 0x9b, 0x34, 0x1a, 0x55, 0xad, 0x93, 0x32, 0x30, 0xf5, 0x8c, 0xb1, 0xe3,
    0x1d, 0xf6, 0xe2, 0x2e, 0x82, 0x66, 0xca, 0x60, 0xc0, 0x29, 0x23, 0xab, 0x0d, 0x53, 0x4e, 0x6f,
    0xd5, 0xdb, 0x37, 0x45, 0xde, 0xfd, 0x8e, 0x2f, 0x03, 0xff, 0x6a, 0x72, 0x6d, 0x6c, 0x5b, 0x51,
    0x8d, 0x1b, 0xaf, 0x92, 0xbb, 0xdd, 0xbc, 0x7f, 0x11, 0xd9, 0x5c, 0x41, 0x1f, 0x10, 0x5a, 0xd8,
    0x0a, 0xc1, 0x31, 0x88, 0xa5, 0xcd, 0x7b, 0xbd, 0x2d, 0x74, 0xd0, 0x12, 0xb8, 0xe5, 0xb4, 0xb0,
    0x89, 0x69, 0x97, 0x4a, 0x0c, 0x96, 0x77, 0x7e, 0x65, 0xb9, 0xf1, 0x09, 0xc5, 0x6e, 0xc6, 0x84,
    0x18, 0xf0, 0x7d, 0xec, 0x3a, 0xdc, 0x4d, 0x20, 0x79, 0xee, 0x5f, 0x3e, 0xd7, 0xcb, 0x39, 0x48]

def sm4Fk : Vector UInt32 4 :=
  #v[0xa3b1bac6, 0x56aa3350, 0x677d9197, 0xb27022dc]

def sm4Ck : Vector UInt32 32 :=
  #v[0x00070e15, 0x1c232a31, 0x383f464d, 0x545b6269, 0x70777e85, 0x8c939aa1, 0xa8afb6bd, 0xc4cbd2d9,
    0xe0e7eef5, 0xfc030a11, 0x181f262d, 0x343b4249, 0x50575e65, 0x6c737a81, 0x888f969d, 0xa4abb2b9,
    0xc0c7ced5, 0xdce3eaf1, 0xf8ff060d, 0x141b2229, 0x30373e45, 0x4c535a61, 0x686f767d, 0x848b9299,
    0xa0a7aeb5, 0xbcc3cad1, 0xd8dfe6ed, 0xf4fb0209, 0x10171e25, 0x2c333a41, 0x484f565d, 0x646b7279]

def sm4Sbox (b : UInt8) : UInt8 := sm4SboxTable.get ⟨b.toNat, b.toNat_lt⟩

def sm4Tau (a : UInt32) : UInt32 :=
  UInt32.ofNat (Bytes.fromBE ((Bytes.toBE 4 a.toNat).map sm4Sbox))

def rotateLeft (a : UInt32) (n : Nat) : UInt32 := .ofBitVec (a.toBitVec.rotateLeft n)

def sm4TPrime (a : UInt32) : UInt32 :=
  let b := sm4Tau a
  b ^^^ rotateLeft b 13 ^^^ rotateLeft b 23

def sm4Input (k : Vector UInt32 4) : Fin 4 → UInt32
  | 0 => k[1] ^^^ k[2] ^^^ k[3] ^^^ sm4Ck[0]
  | 1 => k[2] ^^^ k[3] ^^^ k[0] ^^^ sm4Ck[1]
  | 2 => k[3] ^^^ k[0] ^^^ k[1] ^^^ sm4Ck[2]
  | 3 => k[0] ^^^ k[1] ^^^ k[2] ^^^ sm4Ck[3]

/-- `k[j] ^= sm4_t_prime(input)` -/
def sm4Update (k : Vector UInt32 4) (j : Fin 4) : Vector UInt32 4 :=
  k.set j (k[j] ^^^ sm4TPrime (sm4Input k j))

/-- The four words after the updates, from those of the master key. -/
def sm4RoundKeys (mk : Vector UInt32 4) : Vector UInt32 4 :=
  (List.finRange 4).foldl sm4Update
    #v[mk[0] ^^^ sm4Fk[0], mk[1] ^^^ sm4Fk[1], mk[2] ^^^ sm4Fk[2], mk[3] ^^^ sm4Fk[3]]

def beWord (key : Bytes) (i : Nat) : UInt32 := UInt32.ofNat (Bytes.fromBE (Bytes.slice key i 4))

/-- The first round key of a 16-byte master key, as it is stored. -/
def rk0Bytes (key : Bytes) : Bytes :=
  let k := sm4RoundKeys #v[beWord key 0, beWord key 4, beWord key 8, beWord key 12]
  Bytes.toBE 4 k[0].toNat

def sm4ScheduleHeadValid (dump : Bytes) (offset : Nat) : Run (Option Nat) :=
  if dump.length < offset + 20 then .ok none
  else do
    let key ← sliceRange dump offset (offset + 16)
    let actual ← sliceRange dump (offset + 16) (offset + 20)
    return if actual = rk0Bytes key then some 1 else none

def scanSm4Schedules (dump : Bytes) : Run (List KeyScheduleHit × Nat) :=
  if dump.length < 20 then .ok ([], 0)
  else
    Windows.visit false 20 dump fun _ offset => do
      match ← sm4ScheduleHeadValid dump offset with
      | none => return none
      | some validated =>
          let key ← sliceRange dump offset (offset + 16)
          return some
            { algo := "sm4", offset, keyHex := Hex.encode key, wordsValidated := validated }

end Sm4

/-- Scan a dump for key schedules. -/
def scanKeySchedules (dump : Bytes) : Run KeyScheduleResult := do
  let found ← [(4, "aes-128"), (6, "aes-192"), (8, "aes-256")].mapM fun (nk, algo) =>
    scanKeySize dump nk algo
  let (sm4, tried) ← scanSm4Schedules dump
  return {
    hits := found.flatMap Prod.fst ++ sm4
    stats := {
      dumpSize := dump.length
      candidatesTried := (found.map Prod.snd).sum + tried } }

end Memhunt
