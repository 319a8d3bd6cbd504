import Memhunt.Cli.Output
import Memhunt.Lib.Lossy

/-! Hits as the lines that a person reads. Long texts are cut to a preview. -/
namespace Memhunt

def preview (n : Nat) (s : String) : String := String.ofList (s.toList.take n)

def Confidence.debug : Confidence → String
  | .low => "Low"
  | .medium => "Medium"
  | .high => "High"

def ivLine (hit : Hit) : List String :=
  match hit.ivHex with
  | none => []
  | some iv =>
      let off := match hit.ivOffset with
        | some o => "@" ++ toString o
        | none => "fixed"
      ["       iv =" ++ off ++ " " ++ iv]

def nonceLine (hit : Hit) : List String :=
  match hit.nonceHex with
  | none => []
  | some nonce => ["       nonce =" ++ nonce]

def candidateLine (c : IvCandidate) (i : Nat) : String :=
  let shown := match c.block0Utf8 with
    | some s => preview 40 s
    | none => "(non-utf8)"
  "       iv-candidate[" ++ toString i ++ "] @" ++ toString c.ivOffset ++ " " ++
    c.confidence.debug ++ " matched_by=" ++ c.matchedBy ++ " block0=" ++ shown

def paddingLine (hit : Hit) : List String :=
  match hit.padding with
  | none => []
  | some pad => ["       padding: " ++ pad]

def plaintextLine (hit : Hit) : String :=
  match hit.plaintextUtf8 with
  | some s => "       plaintext: " ++ preview 120 s
  | none => "       plaintext(hex): " ++ preview 96 hit.plaintextHex

def printHuman (hit : Hit) : List String :=
  ["[" ++ hit.confidence.label ++ "] " ++ hit.algo ++ " " ++ hit.mode.label ++ " key=@" ++
      toString hit.keyOffset ++ " " ++ hit.keyHex] ++
    ivLine hit ++ nonceLine hit ++
    (hit.ivCandidates.zipIdx.map fun (c, i) => candidateLine c i) ++
    paddingLine hit ++ [plaintextLine hit, ""]

def printKeySchedule (hit : KeyScheduleHit) : List String :=
  ["[high] " ++ hit.algo ++ " key-schedule @" ++ toString hit.offset ++ " key=" ++ hit.keyHex,
    "       words_validated: " ++ toString hit.wordsValidated, ""]

def printHash (hit : HashHit) : List String :=
  let shown := (Utf8.lossy ((Hex.decode hit.matchHex).getD [])).take 80
  ["[high] " ++ hit.algo ++ " " ++ hit.kind ++ " @" ++ toString hit.offset ++ " len=" ++
      toString hit.length ++ " " ++ hit.matchHex,
    "       data: " ++ String.ofList shown, ""]

end Memhunt
