import Memhunt.Lib.Hex
import Memhunt.Lib.Text
import Memhunt.Lib.Vec
import Memhunt.Lib.Windows
import Memhunt.Report

/-! Hash and HMAC matching: dump windows whose digest is the target, and dump windows that are the
key of a target MAC over a known message. -/
namespace Memhunt
open Rust

/-- A hash crate: a digest and a MAC of fixed length. HMAC takes keys of every length. -/
structure DigestCrate (outputLen : Nat) where
  digest : Bytes → Block outputLen
  hmac : (key message : Bytes) → Block outputLen

structure HashCrates where
  md5 : DigestCrate 16
  sha1 : DigestCrate 20
  sha256 : DigestCrate 32
  sm3 : DigestCrate 32

/-- `out.copy_from_slice(src)`: the buffer afterwards. -/
def copyFromSlice (out src : Bytes) : Run Bytes :=
  if out.length = src.length then .ok src else crash .sliceLength

/-- The trait object. Both calls write into a buffer and return it as left. -/
structure Hasher where
  name : String
  outputLen : Nat
  hashInto : (data out : Bytes) → Run Bytes
  hmacInto : (key data out : Bytes) → Run Bytes

def hasherImpl {outputLen : Nat} (C : DigestCrate outputLen) (label : String) : Hasher where
  name := label
  outputLen := outputLen
  hashInto data out := copyFromSlice out (C.digest data).val
  hmacInto key data out := copyFromSlice out (C.hmac key data).val

inductive HashAlgoSpec where
  | md5
  | sha1
  | sha256
  | sm3
  deriving DecidableEq, Repr

namespace HashAlgoSpec

def parsePart : String → Run HashAlgoSpec
  | "md5" => .ok md5
  | "sha1" => .ok sha1
  | "sha256" => .ok sha256
  | "sm3" => .ok sm3
  | other => fail ("unknown hash algo '" ++ other ++ "' (md5 | sha1 | sha256 | sm3)")

def parse (spec : String) : Run (List HashAlgoSpec) := do
  let algos ← (Text.words spec).mapM fun part => parsePart (String.ofList part)
  if algos.isEmpty then fail "no hash algo specified" else return algos

def label : HashAlgoSpec → String
  | md5 => "md5"
  | sha1 => "sha1"
  | sha256 => "sha256"
  | sm3 => "sm3"

def hasher (crates : HashCrates) : HashAlgoSpec → Hasher
  | md5 => hasherImpl crates.md5 "md5"
  | sha1 => hasherImpl crates.sha1 "sha1"
  | sha256 => hasherImpl crates.sha256 "sha256"
  | sm3 => hasherImpl crates.sm3 "sm3"

end HashAlgoSpec

structure HashHit where
  algo : String
  kind : String
  offset : Nat
  length : Nat
  matchHex : String
  deriving DecidableEq, Repr

structure HashScanResult where
  hits : List HashHit
  stats : ScanStats
  deriving DecidableEq, Repr

structure LengthRange where
  min : Nat
  max : Nat
  deriving DecidableEq, Repr

instance : Inhabited LengthRange where
  default := { min := 8, max := 128 }

def LengthRange.count (range : LengthRange) : Nat := range.max + 1 - range.min

/-- `min..=max` -/
def LengthRange.lengths (range : LengthRange) : List Nat := List.range' range.min range.count

structure HashScanConfig where
  lengths : LengthRange
  maxHits : Nat
  deriving DecidableEq, Repr

instance : Inhabited HashScanConfig where
  default := { lengths := default, maxHits := 0 }

/-- The windows of one length, with one buffer for all of them. -/
def matchWindows (into : (window out : Bytes) → Run Bytes) (target : Bytes)
    (hit : Bytes → Nat → HashHit) : List (Bytes × Nat) → (out : Bytes) → Run (List HashHit)
  | [], _ => .ok []
  | (window, offset) :: rest, out => do
      let out ← into window out
      let found ← matchWindows into target hit rest out
      if out = target then return hit window offset :: found else return found

/-- One length: what matches, and how many windows were tried. -/
def scanLength (into : (window out : Bytes) → Run Bytes) (outputLen : Nat) (target : Bytes)
    (hit : Bytes → Nat → HashHit) (dump : Bytes) (len : Nat) : Run (List HashHit × Nat) := do
  let out := List.replicate outputLen 0
  let candidates ← Windows.windowsOf len dump
  let found ← matchWindows into target hit candidates.zipIdx out
  return (found, candidates.length)

def scanLengths (lengths : List Nat) (scan : Nat → Run (List HashHit × Nat)) :
    Run (List HashHit × Nat) := do
  let found ← lengths.mapM scan
  return (found.flatMap Prod.fst, (found.map Prod.snd).sum)

section Searches
variable (crates : HashCrates) (dump : Bytes)

/-- The body of the loop over the algorithms. -/
def preimagesOf (targetDigest : Bytes) (config : HashScanConfig) (algo : HashAlgoSpec) :
    Run (List HashHit × Nat) :=
  let hasher := algo.hasher crates
  if targetDigest.length ≠ hasher.outputLen then
    fail ("target digest length " ++ toString targetDigest.length ++ " does not match " ++
      hasher.name ++ " output length " ++ toString hasher.outputLen)
  else
    scanLengths config.lengths.lengths fun len =>
      scanLength hasher.hashInto hasher.outputLen targetDigest (fun window offset =>
        { algo := hasher.name, kind := "preimage", offset, length := len,
          matchHex := Hex.encode window }) dump len

def preimageLoop (targetDigest : Bytes) (config : HashScanConfig) :
    List HashAlgoSpec → List HashHit → Nat → Run (List HashHit × Nat)
  | [], hits, tried => .ok (hits, tried)
  | algo :: algos, hits, tried => do
      let (found, n) ← preimagesOf crates dump targetDigest config algo
      if 0 < config.maxHits ∧ config.maxHits ≤ (hits ++ found).length then
        return ((hits ++ found).take config.maxHits, tried + n)
      else preimageLoop targetDigest config algos (hits ++ found) (tried + n)

/-- Find dump windows whose digest equals `targetDigest`. -/
def scanPreimages (targetDigest : Bytes) (algos : List HashAlgoSpec) (config : HashScanConfig) :
    Run HashScanResult :=
  if targetDigest.isEmpty then fail "target digest is empty"
  else do
    let (hits, tried) ← preimageLoop crates dump targetDigest config algos [] 0
    return { hits, stats := { dumpSize := dump.length, candidatesTried := tried } }

def pushMissing (lengths : Vec Nat 8) (fixed : Nat) : Run (Vec Nat 8) :=
  if lengths.items.contains fixed then .ok lengths else lengths.push fixed

/-- The range, and the common key lengths that are not in it. They are gathered in a `Vec` of words of
eight bytes, where the preimage search goes through the range itself. -/
def keyLengths (range : LengthRange) : Run (List Nat) := do
  let lengths ← Vec.collectRange 8 range.min range.count
  let lengths ← [16, 24, 32, 64].foldlM pushMissing lengths
  return lengths.items

/-- Find dump windows that, as HMAC keys over `knownMessage`, produce the target MAC. -/
def scanHmacKeys (digestAlgo : HashAlgoSpec) (knownMessage targetMac : Bytes)
    (config : HashScanConfig) : Run HashScanResult :=
  let hasher := digestAlgo.hasher crates
  if targetMac.length ≠ hasher.outputLen then
    fail ("target MAC length " ++ toString targetMac.length ++ " does not match " ++
      hasher.name ++ " output length " ++ toString hasher.outputLen)
  else do
    let lengths ← keyLengths config.lengths
    let (hits, tried) ← scanLengths lengths fun len =>
      scanLength (fun window out => hasher.hmacInto window knownMessage out) hasher.outputLen
        targetMac (fun window offset =>
          { algo := hasher.name, kind := "hmac_key", offset, length := len,
            matchHex := Hex.encode window }) dump len
    return { hits, stats := { dumpSize := dump.length, candidatesTried := tried } }

end Searches

end Memhunt
