import Memhunt.Lib.Bytes

/-! What a scan reports. Hex and decoded fields are text, as the program prints them; the two
clock-dependent statistics are left out. -/
namespace Memhunt

inductive Confidence where
  | low
  | medium
  | high
  deriving DecidableEq, Repr

def Confidence.rank : Confidence → Nat
  | .low => 0
  | .medium => 1
  | .high => 2

inductive Mode where
  | ecb
  | cbc
  | ctr
  | gcm
  | stream
  deriving DecidableEq, Repr

structure IvCandidate where
  ivHex : String
  ivOffset : Nat
  confidence : Confidence
  matchedBy : String
  block0Utf8 : Option String
  block0Hex : String
  deriving DecidableEq, Repr

structure Hit where
  algo : String
  mode : Mode
  keyHex : String
  keyOffset : Nat
  ivHex : Option String
  ivOffset : Option Nat
  nonceHex : Option String
  padding : Option String
  plaintextUtf8 : Option String
  plaintextHex : String
  matchedBy : String
  confidence : Confidence
  ivCandidates : List IvCandidate
  deriving DecidableEq, Repr

structure ScanStats where
  dumpSize : Nat
  candidatesTried : Nat
  deriving DecidableEq, Repr

structure ScanResult where
  hits : List Hit
  stats : ScanStats
  deriving DecidableEq, Repr

end Memhunt
