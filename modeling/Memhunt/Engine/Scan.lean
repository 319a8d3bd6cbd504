import Memhunt.Engine.Hunt
import Memhunt.Engine.Stream

/-! The scan: validate the request, hunt with each listed cipher in turn, gather the hits. -/
namespace Memhunt
open Rust

section Cipher
variable (crates : Crates) (dump ciphertext : Bytes) (oracles : List Oracle) (config : ScanConfig)

def matchIv (fixedIv : Option Bytes) (algo : String) (block : Nat) : Run (Option Bytes) :=
  match fixedIv with
  | none => .ok none
  | some iv =>
      if iv.length != block then
        fail ("fixed IV length " ++ toString iv.length ++ " does not match " ++ algo ++
          " block size " ++ toString block)
      else .ok (some iv)

/-- The body of the loop over the ciphers: its hits and how many windows it tried. A block cipher
whose key is longer than the dump is skipped. -/
def scanCipher (choice : CipherChoice) : Run (Option (List Hit × Nat)) := do
  let algo := choice.label
  let stop := false
  if choice.isStreamCipher then
    if ciphertext.isEmpty then fail "ciphertext is empty"
    else
      let adapter ← choice.streamAdapter crates
      let found ← huntStreamCipher crates dump ciphertext adapter oracles config algo stop
      return some found
  else
    let cipher ← choice.adapter crates
    let block := cipher.blockLen
    let keyLen := cipher.keyLen
    -- the dump is looked at before the ciphertext and the IV are
    if dump.length < keyLen then return none
    else if config.mode = .block then
      let blocks ← splitBlocks ciphertext block
      let iv ← matchIv config.fixedIv algo block
      let found ← hunt dump blocks block cipher oracles config algo iv stop
      return some found
    else if ciphertext.isEmpty then fail "ciphertext is empty"
    else
      let found ← huntStream crates dump ciphertext block cipher oracles config algo stop
      return some found

def scanLoop : List CipherChoice → List Hit → Nat → Run (List Hit × Nat)
  | [], allHits, tried => .ok (allHits, tried)
  | choice :: rest, allHits, tried => do
      match ← scanCipher crates dump ciphertext oracles config choice with
      | none => scanLoop rest allHits tried
      | some (hits, n) =>
          if 0 < config.maxHits ∧ config.maxHits ≤ (allHits ++ hits).length then
            return ((allHits ++ hits).take config.maxHits, tried + n)
          else scanLoop rest (allHits ++ hits) (tried + n)

/-- Scan a dump for keys that decrypt `ciphertext` into oracle-valid plaintext. -/
def scan : Run ScanResult := do
  validateConfig config
  if (config.mode != .gcm || config.tag.isNone) && oracles.isEmpty then
    fail "no oracle specified"
  else
    let (allHits, tried) ← scanLoop crates dump ciphertext oracles config config.ciphers [] 0
    return { hits := allHits, stats := { dumpSize := dump.length, candidatesTried := tried } }

end Cipher

/-- The exit code of the command: 0 with hits, 1 without, 2 on an error, 101 when it panics. -/
def exitCode : Run ScanResult → Nat
  | .ok result => if result.hits.length = 0 then 1 else 0
  | .error (.err _) => 2
  | .error (.panic _) => 101

end Memhunt
