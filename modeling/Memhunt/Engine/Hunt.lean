import Memhunt.Engine.Config
import Memhunt.Engine.Finalize
import Memhunt.Engine.Stream
import Memhunt.Lib.Windows

/-! The block-mode hunt: each key window is tried as ECB, then as CBC, and after a CBC match the
dump is searched for the IV. -/
namespace Memhunt
open Rust

def ivCandidatesMax : Nat := 8

structure IvRawCandidate where
  offset : Nat
  iv : Bytes
  b0 : Bytes
  name : String
  confidence : Confidence
  plaus : Nat

structure IvHit where
  offset : Nat
  iv : Bytes
  first : Bytes
  name : String
  confidence : Confidence

/-- Confidence descending, block-0 plausibility descending, offset ascending. -/
def IvRawCandidate.before (a b : IvRawCandidate) : Prop :=
  b.confidence.rank < a.confidence.rank ∨ (b.confidence.rank = a.confidence.rank ∧
    (b.plaus < a.plaus ∨ (b.plaus = a.plaus ∧ a.offset ≤ b.offset)))

instance : DecidableRel IvRawCandidate.before := fun a b =>
  inferInstanceAs (Decidable (b.confidence.rank < a.confidence.rank ∨
    (b.confidence.rank = a.confidence.rank ∧
      (b.plaus < a.plaus ∨ (b.plaus = a.plaus ∧ a.offset ≤ b.offset)))))

def IvRawCandidate.hit (c : IvRawCandidate) : IvHit :=
  { offset := c.offset, iv := c.iv, first := c.b0, name := c.name, confidence := c.confidence }

def findIvWindow (dec0 tail : Bytes) (block : Nat) (oracles : List Oracle) (iv : Bytes)
    (offset : Nat) : Run (Option IvRawCandidate) := do
  let dec0 ← sliceTo dec0 block
  let b0 := Bytes.xor dec0 iv
  match bestMatch oracles (b0 ++ tail) with
  | none => return none
  | some (name, confidence) =>
      let plaus ← block0Plausibility b0
      return some { offset, iv, b0, name, confidence, plaus }

def findIv (dump dec0 tail : Bytes) (block : Nat) (oracles : List Oracle) : Run (List IvHit) := do
  let (candidates, _) ← Windows.visit false block dump (findIvWindow dec0 tail block oracles)
  let ranked := candidates.insertionSort IvRawCandidate.before
  return (ranked.take ivCandidatesMax).map IvRawCandidate.hit

/-- `for b in &mut head { if !cipher.decrypt_with_key(key, b) { return None; } }` -/
def decryptBlocks (cipher : BlockCipher) (key : Bytes) (head : List Bytes) :
    Option (List Bytes) :=
  head.mapM fun b =>
    match cipher.decryptWithKey key b with
    | (true, b) => some b
    | (false, _) => none

/-- The same loop where the flag is not looked at. -/
def decryptBlocksUnchecked (cipher : BlockCipher) (key : Bytes) (blocks : List Bytes) :
    List Bytes :=
  blocks.map fun b => (cipher.decryptWithKey key b).2

/-- XOR each decrypted block `i` with ciphertext block `i`, the one before its own. -/
def xorPrevious (blocks : List Bytes) (block : Nat) (decrypted : List Bytes) :
    Run (List Bytes) :=
  decrypted.zipIdx.mapM fun (b, i) => do
    let prev ← index blocks i
    Bytes.xorInPlace b prev block

/-- What the oracles may judge for CBC; nothing where the source returns without a verdict. -/
def cbcHead (cipher : BlockCipher) (key : Bytes) (blocks : List Bytes) (block : Nat)
    (fixedIv : Option Bytes) : Run (Option Bytes) := do
  let cbcVerifiable := (blocks.drop 1).take verifyBlocks
  if !cbcVerifiable.isEmpty then
    match decryptBlocks cipher key cbcVerifiable with
    | none => return none
    | some head =>
        let head ← xorPrevious blocks block head
        return some head.flatten
  else
    match fixedIv with
    | some iv =>
        -- a single block: the only case in which block 0 is judged
        let b0 ← index blocks 0
        match cipher.decryptWithKey key b0 with
        | (false, _) => return none
        | (true, b0) =>
            let b0 ← Bytes.xorInPlace b0 iv block
            return some b0
    | none => return none

structure Block0 where
  ivHex : Option String
  ivOffset : Option Nat
  headBlock : Bytes
  ivCandidates : List IvCandidate

def IvHit.candidate (c : IvHit) : IvCandidate :=
  { ivHex := Hex.encode c.iv, ivOffset := c.offset, confidence := c.confidence,
    block0Utf8 := Utf8.toUtf8 c.first, block0Hex := Hex.encode c.first, matchedBy := c.name }

def unknownBlock0 (block : Nat) : Bytes := List.replicate block 0x3f

def resolveBlock0 (dump : Bytes) (cipher : BlockCipher) (key : Bytes) (blocks : List Bytes)
    (block : Nat) (oracles : List Oracle) (config : ScanConfig) (fixedIv : Option Bytes)
    (verifiedTail : Bytes) : Run Block0 :=
  match fixedIv with
  | some iv => do
      let b0 ← index blocks 0
      let b0 ← Bytes.xorInPlace (cipher.decryptWithKey key b0).2 iv block
      return { ivHex := some (Hex.encode iv), ivOffset := none, headBlock := b0,
               ivCandidates := [] }
  | none =>
      if config.scanIv && block ≤ dump.length then do
        let b0 ← index blocks 0
        let cands ← findIv dump (cipher.decryptWithKey key b0).2 verifiedTail block oracles
        let ivCandidates := cands.map IvHit.candidate
        match cands with
        | best :: _ =>
            return { ivHex := some (Hex.encode best.iv), ivOffset := some best.offset,
                     headBlock := best.first, ivCandidates }
        | [] =>
            return { ivHex := none, ivOffset := none, headBlock := unknownBlock0 block,
                     ivCandidates }
      else
        return { ivHex := none, ivOffset := none, headBlock := unknownBlock0 block,
                 ivCandidates := [] }

/-- One key window of `hunt`. -/
def huntWindow (dump : Bytes) (blocks : List Bytes) (block : Nat) (cipher : BlockCipher)
    (oracles : List Oracle) (config : ScanConfig) (algo : String) (fixedIv : Option Bytes)
    (key : Bytes) (offset : Nat) : Run (Option Hit) := do
  match decryptBlocks cipher key (blocks.take verifyBlocks) with
  | none => return none
  | some head =>
      match bestMatch oracles head.flatten with
      | some (name, conf) =>
          -- an accepted ECB reading ends the window: the CBC reading is not looked at
          let pt := (decryptBlocksUnchecked cipher key blocks).flatten
          let hit ← finalizeHit algo .ecb key offset none none [] pt name conf
          return some hit
      | none =>
          match ← cbcHead cipher key blocks block fixedIv with
          | none => return none
          | some cbcHead =>
              match bestMatch oracles cbcHead with
              | none => return none
              | some (name, conf) =>
                  let tail ← xorPrevious blocks block
                    (decryptBlocksUnchecked cipher key (blocks.drop 1))
                  let verifiedTail := (tail.take verifyBlocks).flatten
                  let b0 ← resolveBlock0 dump cipher key blocks block oracles config fixedIv
                    verifiedTail
                  let pt := b0.headBlock ++ tail.flatten
                  let hit ← finalizeHit algo .cbc key offset b0.ivHex b0.ivOffset
                    b0.ivCandidates pt name conf
                  return some hit

def hunt (dump : Bytes) (blocks : List Bytes) (block : Nat) (cipher : BlockCipher)
    (oracles : List Oracle) (config : ScanConfig) (algo : String) (fixedIv : Option Bytes)
    (stop : Bool) : Run (List Hit × Nat) :=
  Windows.visit stop cipher.keyLen dump
    (huntWindow dump blocks block cipher oracles config algo fixedIv)

end Memhunt
