import Memhunt.Lib.Base64
import Memhunt.Lib.Json
import Memhunt.Lib.Utf8
import Memhunt.Hash.Scan

/-! The hash command of the command line, as the function of its arguments that it is before
anything is printed, the decoder of the target, and the crates of both front ends. -/
namespace Memhunt
open Rust
open Json (Value)

def required {α : Type} (arg : Option α) (message : String) : Run α :=
  match arg with
  | some value => .ok value
  | none => fail message

theorem required_eq_ok {α : Type} {arg : Option α} {message : String} {v : α} :
    required arg message = .ok v ↔ arg = some v := by
  cases arg with
  | none => exact iff_of_false (fail_ne_ok message v) (by simp)
  | some a => simp [required]

/-- Files by their paths: what reading one gives, or the text of the error. -/
abbrev Files := String → Except String Bytes

structure HashArgs where
  dumpPath : String
  mode : String
  digest : String
  algos : String
  message : Option String
  minLen : Nat
  maxLen : Nat
  deriving DecidableEq, Repr

def utf8Bytes (s : String) : Bytes := s.toUTF8.data.toList

theorem utf8Bytes_eq (s : String) : utf8Bytes s = s.toList.flatMap String.utf8EncodeChar := by
  have h : s.toUTF8 = (s.toList.flatMap String.utf8EncodeChar).toByteArray :=
    (String.utf8Encode_toList (b := s)).symm
  rw [utf8Bytes, h, List.toList_data_toByteArray]

def unknownMode (other : String) : String := "unknown mode '" ++ other ++ "' (preimage | hmac_key)"

def decodeDigest (digest : String) : Run Bytes :=
  match Hex.decode digest with
  | some bytes => .ok bytes
  | none => fail "digest must be hex"

def readDump (files : Files) (dumpPath : String) : Run Bytes :=
  match files dumpPath with
  | .ok dump => .ok dump
  | .error e => fail ("read " ++ dumpPath ++ ": " ++ e)

def runHash (crates : HashCrates) (files : Files) (args : HashArgs) : Run HashScanResult := do
  let digestBytes ← decodeDigest args.digest
  let dumpBytes ← readDump files args.dumpPath
  let config : HashScanConfig :=
    { lengths := { min := args.minLen, max := args.maxLen }, maxHits := 0 }
  if args.mode = "preimage" then
    let algos ← HashAlgoSpec.parse args.algos
    scanPreimages crates dumpBytes digestBytes algos config
  else if args.mode = "hmac_key" then
    let algoList ← HashAlgoSpec.parse args.algos
    match algoList.head? with
    | none => fail "no hash algo specified"
    | some algo =>
        match args.message with
        | none => fail "--message is required for hmac_key mode"
        | some msg => scanHmacKeys crates dumpBytes algo (utf8Bytes msg) digestBytes config
  else fail (unknownMode args.mode)

/-- The exit code of the hash command, as that of a scan. -/
def hashExitCode : Run HashScanResult → Nat
  | .ok result => if result.hits.length = 0 then 1 else 0
  | .error (.err _) => 2
  | .error (.panic _) => 101

/-- The base64 crate with its standard engine: what the encoding writes is read back. -/
structure Base64Crate where
  decode : String → Option Bytes
  decode_encode : ∀ bytes, decode (Base64.encode bytes) = some bytes

/-- The JSON crate: how it reads a text, and how it writes, compactly and on one line. A value of its
own is written as a text; a record goes straight to a writer, its members in the order they have. -/
structure JsonCrate where
  fromStr : String → Except String Value
  toText : Value → String
  toWriter : Value → String
  toText_oneLine : ∀ v, '\n' ∉ (toText v).toList

def tryHex (s : String) : Option Bytes :=
  let t := Text.trim s.toList
  if (Utf8.encode t).length % 2 == 0 && !t.isEmpty && t.all Hex.isAsciiHexdigit then
    Hex.decode (String.ofList t)
  else none

def tryB64 (base64 : Base64Crate) (s : String) : Option Bytes :=
  base64.decode (String.ofList (Text.trim s.toList))

def decodeCiphertext (base64 : Base64Crate) (target encoding : String) : Run Bytes := do
  let decoded ←
    if encoding = "hex" then required (tryHex target) "target is not valid hex"
    else if encoding = "base64" then
      required (tryB64 base64 target) "target is not valid base64"
    else if encoding = "utf8" then .ok (utf8Bytes target)
    else if encoding = "auto" then
      required (tryHex target <|> tryB64 base64 target)
        "could not auto-detect target as hex or base64; use --encoding"
    else fail ("unknown encoding '" ++ encoding ++ "'")
  if decoded.isEmpty then fail "ciphertext is empty" else return decoded

end Memhunt
