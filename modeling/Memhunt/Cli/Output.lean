import Memhunt.Cli
import Memhunt.KeySchedule.Scan
import Memhunt.Lib.JsonRead
import Memhunt.Lib.Lines
import Memhunt.Lib.Utf8

/-! Hits as JSON, one on a line, and what a reader of the lines makes of them. -/
namespace Memhunt
open Json (Value)

section Serialize

/-- A `usize`. -/
def natural (n : Nat) : Value := .number (.posInt (UInt64.ofNat n))

/-- An `Option`, null without a value. -/
def optional {α : Type} (f : α → Value) : Option α → Value
  | none => .null
  | some a => f a

def Confidence.label : Confidence → String
  | .low => "low"
  | .medium => "medium"
  | .high => "high"

def Mode.label : Mode → String
  | .ecb => "ecb"
  | .cbc => "cbc"
  | .ctr => "ctr"
  | .gcm => "gcm"
  | .stream => "stream"

def IvCandidate.toJson (c : IvCandidate) : Value :=
  .object [("iv_hex", .string c.ivHex), ("iv_offset", natural c.ivOffset),
    ("confidence", .string c.confidence.label), ("matched_by", .string c.matchedBy),
    ("block0_utf8", optional .string c.block0Utf8), ("block0_hex", .string c.block0Hex)]

def Hit.toJson (h : Hit) : Value :=
  .object [("algo", .string h.algo), ("mode", .string h.mode.label), ("key_hex", .string h.keyHex),
    ("key_offset", natural h.keyOffset), ("iv_hex", optional .string h.ivHex),
    ("iv_offset", optional natural h.ivOffset), ("nonce_hex", optional .string h.nonceHex),
    ("padding", optional .string h.padding), ("plaintext_utf8", optional .string h.plaintextUtf8),
    ("plaintext_hex", .string h.plaintextHex), ("matched_by", .string h.matchedBy),
    ("confidence", .string h.confidence.label),
    ("iv_candidates", .array (h.ivCandidates.map IvCandidate.toJson))]

def HashHit.toJson (h : HashHit) : Value :=
  .object [("algo", .string h.algo), ("kind", .string h.kind), ("offset", natural h.offset),
    ("length", natural h.length), ("match_hex", .string h.matchHex)]

def KeyScheduleHit.toJson (h : KeyScheduleHit) : Value :=
  .object [("algo", .string h.algo), ("offset", natural h.offset), ("key_hex", .string h.keyHex),
    ("words_validated", natural h.wordsValidated)]

end Serialize

section Read

/-- A member of an object, read with `f`. -/
def member {α : Type} (f : Value → Option α) (v : Value) (key : String) : Option α :=
  (v.get key).bind f

/-- A value that may be null. -/
def nullable {α : Type} (f : Value → Option α) : Value → Option (Option α)
  | .null => some none
  | v => (f v).map some

def listed {α : Type} (f : Value → Option α) : Value → Option (List α)
  | .array vs => vs.mapM f
  | _ => none

def Confidence.ofLabel : String → Option Confidence
  | "low" => some .low
  | "medium" => some .medium
  | "high" => some .high
  | _ => none

def Mode.ofLabel : String → Option Mode
  | "ecb" => some .ecb
  | "cbc" => some .cbc
  | "ctr" => some .ctr
  | "gcm" => some .gcm
  | "stream" => some .stream
  | _ => none

def IvCandidate.ofJson (v : Value) : Option IvCandidate := do
  let ivHex ← member Value.asStr v "iv_hex"
  let ivOffset ← member Value.asU64 v "iv_offset"
  let confidence ← (member Value.asStr v "confidence").bind Confidence.ofLabel
  let matchedBy ← member Value.asStr v "matched_by"
  let block0Utf8 ← member (nullable Value.asStr) v "block0_utf8"
  let block0Hex ← member Value.asStr v "block0_hex"
  return { ivHex, ivOffset, confidence, matchedBy, block0Utf8, block0Hex }

def Hit.ofJson (v : Value) : Option Hit := do
  let algo ← member Value.asStr v "algo"
  let mode ← (member Value.asStr v "mode").bind Mode.ofLabel
  let keyHex ← member Value.asStr v "key_hex"
  let keyOffset ← member Value.asU64 v "key_offset"
  let ivHex ← member (nullable Value.asStr) v "iv_hex"
  let ivOffset ← member (nullable Value.asU64) v "iv_offset"
  let nonceHex ← member (nullable Value.asStr) v "nonce_hex"
  let padding ← member (nullable Value.asStr) v "padding"
  let plaintextUtf8 ← member (nullable Value.asStr) v "plaintext_utf8"
  let plaintextHex ← member Value.asStr v "plaintext_hex"
  let matchedBy ← member Value.asStr v "matched_by"
  let confidence ← (member Value.asStr v "confidence").bind Confidence.ofLabel
  let ivCandidates ← member (listed IvCandidate.ofJson) v "iv_candidates"
  return { algo, mode, keyHex, keyOffset, ivHex, ivOffset, nonceHex, padding, plaintextUtf8,
           plaintextHex, matchedBy, confidence, ivCandidates }

def HashHit.ofJson (v : Value) : Option HashHit := do
  let algo ← member Value.asStr v "algo"
  let kind ← member Value.asStr v "kind"
  let offset ← member Value.asU64 v "offset"
  let length ← member Value.asU64 v "length"
  let matchHex ← member Value.asStr v "match_hex"
  return { algo, kind, offset, length, matchHex }

def KeyScheduleHit.ofJson (v : Value) : Option KeyScheduleHit := do
  let algo ← member Value.asStr v "algo"
  let offset ← member Value.asU64 v "offset"
  let keyHex ← member Value.asStr v "key_hex"
  let wordsValidated ← member Value.asU64 v "words_validated"
  return { algo, offset, keyHex, wordsValidated }

end Read

section Sizes

/-- The offsets are machine words. -/
def IvCandidate.Sized (c : IvCandidate) : Prop := c.ivOffset < 2 ^ 64

structure Hit.Sized (h : Hit) : Prop where
  key : h.keyOffset < 2 ^ 64
  iv : ∀ o ∈ h.ivOffset, o < 2 ^ 64
  candidates : ∀ c ∈ h.ivCandidates, c.Sized

structure HashHit.Sized (h : HashHit) : Prop where
  offset : h.offset < 2 ^ 64
  length : h.length < 2 ^ 64

structure KeyScheduleHit.Sized (h : KeyScheduleHit) : Prop where
  offset : h.offset < 2 ^ 64
  words : h.wordsValidated < 2 ^ 64

end Sizes

section RoundTrip

theorem asU64_natural {n : Nat} (h : n < 2 ^ 64) : (natural n).asU64 = some n := by
  simp only [natural, Value.asU64, UInt64.toNat_ofNat', Nat.mod_eq_of_lt h]

@[simp] theorem Confidence.ofLabel_label (c : Confidence) :
    Confidence.ofLabel c.label = some c := by
  cases c <;> rfl

@[simp] theorem Mode.ofLabel_label (m : Mode) : Mode.ofLabel m.label = some m := by
  cases m <;> rfl

theorem nullable_optional {α : Type} {f : Value → Option α} {g : α → Value} (a : Option α)
    (hnull : ∀ x ∈ a, g x ≠ .null) (hfg : ∀ x ∈ a, f (g x) = some x) :
    nullable f (optional g a) = some a := by
  cases a with
  | none => rfl
  | some x =>
      have hx := hfg x rfl
      simp only [optional, nullable]
      split
      · rename_i h
        exact absurd h (hnull x rfl)
      · rw [hx, Option.map_some]

theorem nullable_string (a : Option String) :
    nullable Value.asStr (optional .string a) = some a :=
  nullable_optional a (fun _ _ h => nomatch h) (fun _ _ => rfl)

theorem nullable_natural (a : Option Nat) (h : ∀ n ∈ a, n < 2 ^ 64) :
    nullable Value.asU64 (optional natural a) = some a :=
  nullable_optional a (fun _ _ h => nomatch h) (fun n hn => asU64_natural (h n hn))

theorem listed_map {α : Type} {f : Value → Option α} {g : α → Value} {as : List α}
    (h : ∀ a ∈ as, f (g a) = some a) : listed f (.array (as.map g)) = some as := by
  rw [listed, List.mapM_map]
  have hmap := Rust.mapM_some (f := f ∘ g) (g := id) h
  rwa [List.map_id] at hmap

theorem IvCandidate.ofJson_toJson {c : IvCandidate} (h : c.Sized) :
    IvCandidate.ofJson c.toJson = some c := by
  simp [IvCandidate.ofJson, IvCandidate.toJson, member, Value.get, List.lookup, Value.asStr,
    asU64_natural h, nullable_string]

theorem Hit.ofJson_toJson {h : Hit} (hs : h.Sized) : Hit.ofJson h.toJson = some h := by
  have hcands : listed IvCandidate.ofJson (.array (h.ivCandidates.map IvCandidate.toJson)) =
      some h.ivCandidates :=
    listed_map fun c hc => IvCandidate.ofJson_toJson (hs.candidates c hc)
  simp [Hit.ofJson, Hit.toJson, member, Value.get, List.lookup, Value.asStr, asU64_natural hs.key,
    nullable_string, nullable_natural h.ivOffset hs.iv, hcands]

theorem HashHit.ofJson_toJson {h : HashHit} (hs : h.Sized) : HashHit.ofJson h.toJson = some h := by
  simp [HashHit.ofJson, HashHit.toJson, member, Value.get, List.lookup, Value.asStr,
    asU64_natural hs.offset, asU64_natural hs.length]

theorem KeyScheduleHit.ofJson_toJson {h : KeyScheduleHit} (hs : h.Sized) :
    KeyScheduleHit.ofJson h.toJson = some h := by
  simp [KeyScheduleHit.ofJson, KeyScheduleHit.toJson, member, Value.get, List.lookup, Value.asStr,
    asU64_natural hs.offset, asU64_natural hs.words]

theorem integralElements_iff {vs : List Value} :
    Value.integralElements vs = true ↔ ∀ v ∈ vs, v.integral = true := by
  induction vs with
  | nil => simp [Value.integralElements]
  | cons v vs ih => simp [Value.integralElements, ih]

theorem integral_optional_string (a : Option String) : (optional .string a).integral = true := by
  cases a <;> rfl

theorem integral_optional_natural (a : Option Nat) : (optional natural a).integral = true := by
  cases a <;> rfl

theorem IvCandidate.integral_toJson (c : IvCandidate) : c.toJson.integral = true := by
  simp [IvCandidate.toJson, Value.integral, Value.integralMembers, Value.integralEntry, natural,
    Json.Number.integral, integral_optional_string]

theorem Hit.integral_toJson (h : Hit) : h.toJson.integral = true := by
  have hcands : Value.integralElements (h.ivCandidates.map IvCandidate.toJson) = true := by
    rw [integralElements_iff]
    intro v hv
    obtain ⟨c, _, rfl⟩ := List.mem_map.mp hv
    exact c.integral_toJson
  simp [Hit.toJson, Value.integral, Value.integralMembers, Value.integralEntry, natural,
    Json.Number.integral, integral_optional_string, integral_optional_natural, hcands]

theorem HashHit.integral_toJson (h : HashHit) : h.toJson.integral = true := by
  simp [HashHit.toJson, Value.integral, Value.integralMembers, Value.integralEntry, natural,
    Json.Number.integral]

theorem KeyScheduleHit.integral_toJson (h : KeyScheduleHit) : h.toJson.integral = true := by
  simp [KeyScheduleHit.toJson, Value.integral, Value.integralMembers, Value.integralEntry, natural,
    Json.Number.integral]

end RoundTrip

section Lines
variable {serde : JsonCrate} {floats : UInt64 → Json.Numeral}

/-- The crate writes records without white space, their members in the order they have. -/
def JsonCrate.WritesRecords (serde : JsonCrate) (floats : UInt64 → Json.Numeral) : Prop :=
  ∀ v, (serde.toWriter v).toList = v.compact floats

/-- `to_writer` and `writeln!`, for each hit. -/
def jsonLines (serde : JsonCrate) (values : List Value) : Bytes :=
  values.flatMap fun v => utf8Bytes (serde.toWriter v) ++ [0x0a]

/-- One line without its end as a JSON value. -/
def readJsonLine (line : Bytes) : Option Value :=
  (Utf8.fromUtf8 line.dropLast).bind Json.read

/-- What a consumer that takes the output line by line reads in it. -/
def readJsonLines {α : Type} (f : Value → Option α) (out : Bytes) : Option (List α) :=
  (Lines.split 0x0a out).mapM fun line => (readJsonLine line).bind f

theorem newline_not_mem_encode {cs : List Char} (h : '\n' ∉ cs) :
    (0x0a : UInt8) ∉ Utf8.encode cs := by
  rw [Utf8.encode, List.mem_flatMap]
  rintro ⟨c, hc, hmem⟩
  have hvalue := Utf8.ascii_of_mem_encode hmem (by decide)
  have hnewline : c = '\n' := Char.ext (UInt32.toNat_inj.mp hvalue)
  exact h (hnewline ▸ hc)

theorem JsonCrate.WritesRecords.utf8Bytes_toWriter (h : serde.WritesRecords floats) (v : Value) :
    utf8Bytes (serde.toWriter v) = Utf8.encode (v.compact floats) := by
  rw [utf8Bytes_eq, h v, Utf8.encode]

theorem readJsonLine_toWriter (hrecords : serde.WritesRecords floats) {v : Value}
    (hv : v.integral = true) : readJsonLine (utf8Bytes (serde.toWriter v) ++ [0x0a]) = some v := by
  rw [readJsonLine, List.dropLast_concat, hrecords.utf8Bytes_toWriter, Utf8.fromUtf8_encode,
    Option.bind_some, Value.read_compact _ hv]

/-- Values that are written line by line are read line by line, each as what it was. -/
theorem readJsonLines_jsonLines {α : Type} {f : Value → Option α} {g : α → Value} {as : List α}
    (hrecords : serde.WritesRecords floats) (hg : ∀ a ∈ as, (g a).integral = true)
    (hfg : ∀ a ∈ as, f (g a) = some a) :
    readJsonLines f (jsonLines serde (as.map g)) = some as := by
  have hnone : ∀ line ∈ (as.map g).map fun v => utf8Bytes (serde.toWriter v),
      (0x0a : UInt8) ∉ line := by
    intro line hline
    obtain ⟨v, _, rfl⟩ := List.mem_map.mp hline
    rw [hrecords.utf8Bytes_toWriter]
    exact newline_not_mem_encode (Json.newline_not_mem_compact _ v)
  have hsplit := Lines.split_lines hnone
  rw [List.flatMap_map] at hsplit
  have hread : ∀ a ∈ as,
      (readJsonLine (utf8Bytes (serde.toWriter (g a)) ++ [0x0a])).bind f = some a := by
    intro a ha
    rw [readJsonLine_toWriter hrecords (hg a ha), Option.bind_some, hfg a ha]
  rw [readJsonLines, jsonLines, hsplit, List.map_map, List.map_map, List.mapM_map]
  have hall := Rust.mapM_some hread
  rwa [List.map_id'] at hall

end Lines

end Memhunt
