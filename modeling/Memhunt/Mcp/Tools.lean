import Memhunt.Cli
import Memhunt.Lib.Json

/-! The hash tool of the server: its argument checks in front of the same searches. -/
namespace Memhunt
open Rust
open Json (Value)

def argStr (args : Value) (name : String) : Option String := (args.get name).bind Value.asStr

def argU64 (args : Value) (name : String) : Option Nat := (args.get name).bind Value.asU64

/-- The tool up to the JSON of its result. -/
def toolHashScan (crates : HashCrates) (files : Files) (args : Value) : Run HashScanResult := do
  let dumpPath ← required (argStr args "dump_path") "dump_path is required"
  let mode ← required (argStr args "mode") "mode is required (preimage | hmac_key)"
  let digestS ← required (argStr args "digest") "digest is required"
  let digest ← decodeDigest digestS
  let dump ← readDump files dumpPath
  let minLen := (argU64 args "min_len").getD 8
  let maxLen := (argU64 args "max_len").getD 128
  if minLen < 1 ∨ maxLen < minLen then fail "max_len must be >= min_len >= 1"
  else
    let config : HashScanConfig :=
      { lengths := { min := minLen, max := maxLen }
        maxHits := (argU64 args "max_hits").getD 0 }
    if mode = "preimage" then
      let algos ← match argStr args "algos" with
        | some s => HashAlgoSpec.parse s
        | none => .ok [.md5, .sha1, .sha256, .sm3]
      scanPreimages crates dump digest algos config
    else if mode = "hmac_key" then
      let algoS ← required (argStr args "algos")
        "algos is required for hmac_key mode (one of md5|sha1|sha256|sm3)"
      match ← HashAlgoSpec.parse algoS with
      | [algo] =>
          let message ← required (argStr args "message") "message is required for hmac_key mode"
          scanHmacKeys crates dump algo (utf8Bytes message) digest config
      | _ => fail "hmac_key mode takes exactly one algo"
    else fail (unknownMode mode)

/-- Decode hex or base64 ciphertext/digest input. -/
def decodeBlob (base64 : Base64Crate) (s : String) : Run Bytes :=
  let t := Text.trim s.toList
  let standard := required (base64.decode (String.ofList t)) "could not decode input as hex or base64"
  if t.all Hex.isAsciiHexdigit && (Utf8.encode t).length % 2 == 0 && !t.isEmpty then
    match Hex.decode (String.ofList t) with
    | some v => .ok v
    | none => standard
  else standard

end Memhunt
