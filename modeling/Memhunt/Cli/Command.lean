import Memhunt.Cli.Human
import Memhunt.Engine.CipherList
import Memhunt.Engine.Scan
import Memhunt.OracleSpec

/-! The commands as processes, on the arguments that `main` passes on: what stands on standard output
when they end, and the exit code. -/
namespace Memhunt
open Rust
open Json (Value)

structure ScanArgs where
  dumpPath : String
  target : String
  encoding : String
  oracle : String
  cipher : String
  maxHits : Nat
  iv : Option String
  nonce : Option String
  tag : Option String
  aad : Option String
  noIvScan : Bool
  deriving DecidableEq, Repr

/-- What the command line parser hands over of a text for which the comma is declared a delimiter: it
cuts the text at the commas, and the field takes the first value. -/
def firstValue (text : String) : String := String.ofList (text.toList.takeWhile (· ≠ ','))

/-- The arguments of `run_scan` where these are the options as typed. -/
def ScanArgs.handed (options : ScanArgs) : ScanArgs :=
  { options with cipher := firstValue options.cipher }

def decodeHexArg (value : Option String) (message : String) : Run (Option Bytes) :=
  match value with
  | none => .ok none
  | some s =>
      match Hex.decode s with
      | some bytes => .ok (some bytes)
      | none => fail message

/-- `run_scan` up to the output. -/
def runScan (crates : Crates) (base64 : Base64Crate) (files : Files) (args : ScanArgs) :
    Run ScanResult := do
  let ciphertext ← decodeCiphertext base64 args.target args.encoding
  let oracles ← parseSpec args.oracle
  let selection ← CipherChoice.parseList args.cipher
  let fixedIv ← decodeHexArg args.iv "invalid --iv hex"
  let nonce ← decodeHexArg args.nonce "invalid --nonce hex"
  let tag ← decodeHexArg args.tag "invalid --tag hex"
  let aad ← decodeHexArg args.aad "invalid --aad hex"
  let config : ScanConfig :=
    { ciphers := selection.ciphers, mode := selection.mode, maxHits := args.maxHits,
      scanIv := !args.noIvScan, fixedIv, nonce, tag, aad }
  let dumpBytes ← readDump files args.dumpPath
  scan crates dumpBytes ciphertext oracles config

def runKeySchedules (files : Files) (dumpPath : String) : Run KeyScheduleResult := do
  let dumpBytes ← readDump files dumpPath
  scanKeySchedules dumpBytes

section Emit
variable (serde : JsonCrate) (room : Nat) (broken : String)

/-- `write_all` on an output that takes `room` bytes and no more: what it then holds, and whether it
took the whole. -/
def writeAll (written bytes : Bytes) : Bytes × Bool :=
  ((written ++ bytes).take room, decide ((written ++ bytes).length ≤ room))

def writeLines (written : Bytes) (lines : List String) : Bytes :=
  lines.foldl (fun written line => (writeAll room written (utf8Bytes line ++ [0x0a])).1) written

variable {α : Type} (json : Bool) (toJson : α → Value) (human : α → List String)

/-- The loop over the hits: a hit that cannot be written ends it, unless it is for a person. -/
def emit : List α → Bytes → Bytes × Run Unit
  | [], written => (written, .ok ())
  | hit :: hits, written =>
      if json then
        match writeAll room written (utf8Bytes (serde.toWriter (toJson hit))) with
        | (written, false) => (written, fail broken)
        | (written, true) =>
            match writeAll room written [0x0a] with
            | (written, false) => (written, fail broken)
            | (written, true) => emit hits written
      else emit hits (writeLines room written (human hit))

end Emit

structure Process where
  stdout : Bytes
  code : Nat
  deriving DecidableEq, Repr

/-- The exit code for the number of hits. -/
def codeOf : Run Nat → Nat
  | .ok n => if n = 0 then 1 else 0
  | .error (.err _) => 2
  | .error (.panic _) => 101

def outputOf {α : Type} (serde : JsonCrate) (room : Nat) (broken : String) (json : Bool)
    (toJson : α → Value) (human : α → List String) (search : Run (List α)) : Process :=
  match search with
  | .error s => { stdout := [], code := codeOf (.error s) }
  | .ok hits =>
      let (stdout, result) := emit serde room broken json toJson human hits []
      { stdout, code := codeOf (result.map fun _ => hits.length) }

section Commands
variable (serde : JsonCrate) (room : Nat) (broken : String) (json : Bool)

def scanCommand (crates : Crates) (base64 : Base64Crate) (files : Files) (args : ScanArgs) :
    Process :=
  outputOf serde room broken json Hit.toJson printHuman
    ((runScan crates base64 files args).map ScanResult.hits)

def keySchedulesCommand (files : Files) (dumpPath : String) : Process :=
  outputOf serde room broken json KeyScheduleHit.toJson printKeySchedule
    ((runKeySchedules files dumpPath).map KeyScheduleResult.hits)

def hashCommand (crates : HashCrates) (files : Files) (args : HashArgs) : Process :=
  outputOf serde room broken json HashHit.toJson printHash
    ((runHash crates files args).map HashScanResult.hits)

end Commands

section Emit
variable {serde : JsonCrate} {room : Nat} {broken : String} {α : Type} {toJson : α → Value}
  {human : α → List String}

/-- As JSON the output ends within the line of the first hit that does not fit. -/
theorem emit_json (hits : List α) {written : Bytes} (hroom : written.length ≤ room) :
    emit serde room broken true toJson human hits written =
      ((written ++ jsonLines serde (hits.map toJson)).take room,
        if (written ++ jsonLines serde (hits.map toJson)).length ≤ room then .ok ()
        else fail broken) := by
  induction hits generalizing written with
  | nil =>
      have hnil : written ++ jsonLines serde (([] : List α).map toJson) = written := List.append_nil _
      rw [emit, hnil, List.take_of_length_le hroom, if_pos hroom]
  | cons hit hits ih =>
      have hlines : jsonLines serde ((hit :: hits).map toJson) =
          utf8Bytes (serde.toWriter (toJson hit)) ++ [0x0a] ++
            jsonLines serde (hits.map toJson) := by
        rw [List.map_cons, jsonLines, List.flatMap_cons, ← jsonLines]
      rw [emit, if_pos rfl, hlines]
      generalize utf8Bytes (serde.toWriter (toJson hit)) = text
      by_cases htext : (written ++ text).length ≤ room
      · have hfirst : writeAll room written text = (written ++ text, true) := by
          rw [writeAll, List.take_of_length_le htext, decide_eq_true htext]
        rw [hfirst]
        by_cases hline : (written ++ text ++ [0x0a]).length ≤ room
        · have hsecond : writeAll room (written ++ text) [0x0a] =
              (written ++ text ++ [0x0a], true) := by
            rw [writeAll, List.take_of_length_le hline, decide_eq_true hline]
          dsimp only
          rw [hsecond]
          dsimp only
          rw [ih hline]
          simp only [List.append_assoc]
        · have hsecond : writeAll room (written ++ text) [0x0a] =
              ((written ++ text ++ [0x0a]).take room, false) := by
            rw [writeAll, decide_eq_false hline]
          have hlong : ¬ (written ++ (text ++ [0x0a] ++ jsonLines serde (hits.map toJson))).length ≤
              room := by
            simp only [List.length_append] at hline ⊢
            omega
          simp only [hsecond, if_neg hlong]
          rw [← List.append_assoc, ← List.append_assoc,
            List.take_append_of_le_length (Nat.le_of_not_le hline)]
      · have hfirst : writeAll room written text = ((written ++ text).take room, false) := by
          rw [writeAll, decide_eq_false htext]
        have hlong : ¬ (written ++ (text ++ [0x0a] ++ jsonLines serde (hits.map toJson))).length ≤
            room := by
          simp only [List.length_append] at htext ⊢
          omega
        simp only [hfirst, if_neg hlong]
        rw [List.append_assoc, ← List.append_assoc,
          List.take_append_of_le_length (Nat.le_of_not_le htext)]

/-- For a person the output ends where it is full, and nobody is told. -/
theorem emit_human (hits : List α) (written : Bytes) :
    (emit serde room broken false toJson human hits written).2 = .ok () := by
  induction hits generalizing written with
  | nil => rfl
  | cons hit hits ih =>
      rw [emit, if_neg Bool.false_ne_true]
      exact ih _

end Emit

/-- What a process that prints JSON tells of a search: a code of 0 certifies that the whole report
stands in the output, and a reader of its lines gets the hits back. The same search printed for a
person has the code of the search alone. -/
structure Certifies {α : Type} (serde : JsonCrate) (room : Nat) (toJson : α → Value)
    (read : Value → Option α) (search : Run (List α)) (asJson forPerson : Process) : Prop where
  found : asJson.code = 0 ↔ ∃ hits, search = .ok hits ∧ hits ≠ [] ∧
    (jsonLines serde (hits.map toJson)).length ≤ room
  readBack : asJson.code = 0 → ∃ hits, search = .ok hits ∧
    readJsonLines read asJson.stdout = some hits
  nothing : asJson.code = 1 ↔ search = .ok []
  panicked : asJson.code = 101 ↔ Panics search
  cut : ∀ hits, search = .ok hits → asJson.stdout <+: jsonLines serde (hits.map toJson)
  silent : (∀ hits, search ≠ .ok hits) → asJson.stdout = []
  person : forPerson.code = codeOf (search.map List.length)

section Certifies
variable {serde : JsonCrate} {floats : UInt64 → Json.Numeral} {room : Nat} {broken : String}
  {α : Type} {toJson : α → Value} {human : α → List String} {read : Value → Option α}

theorem outputOf_ok {search : Run (List α)} {hits : List α} (h : search = .ok hits) :
    outputOf serde room broken true toJson human search =
      { stdout := (jsonLines serde (hits.map toJson)).take room
        code := if (jsonLines serde (hits.map toJson)).length ≤ room then
          if hits.length = 0 then 1 else 0 else 2 } := by
  have hemit := @emit_json serde room broken α toJson human hits [] (Nat.zero_le room)
  rw [List.nil_append] at hemit
  rw [h, outputOf, hemit]
  by_cases hroom : (jsonLines serde (hits.map toJson)).length ≤ room
  · simp only [if_pos hroom]
    rfl
  · simp only [if_neg hroom]
    rfl

theorem code_person {search : Run (List α)} :
    (outputOf serde room broken false toJson human search).code = codeOf (search.map List.length) := by
  cases search with
  | error s => rfl
  | ok hits =>
      have hemit := @emit_human serde room broken α toJson human hits []
      rw [outputOf]
      simp only [hemit]
      rfl

theorem certifies_error (s : Stop) :
    Certifies serde room toJson read (.error s : Run (List α))
      (outputOf serde room broken true toJson human (.error s))
      (outputOf serde room broken false toJson human (.error s)) := by
  cases s with
  | err m =>
      exact { found := by simp [outputOf, codeOf], readBack := by simp [outputOf, codeOf],
              nothing := by simp [outputOf, codeOf], panicked := by simp [outputOf, codeOf, Panics],
              cut := by simp, silent := fun _ => rfl, person := code_person }
  | panic site =>
      exact { found := by simp [outputOf, codeOf], readBack := by simp [outputOf, codeOf],
              nothing := by simp [outputOf, codeOf], panicked := by simp [outputOf, codeOf, Panics],
              cut := by simp, silent := fun _ => rfl, person := code_person }

theorem certifies_ok {hits : List α} (hrecords : serde.WritesRecords floats)
    (hintegral : ∀ a, (toJson a).integral = true)
    (hread : ∀ a ∈ hits, read (toJson a) = some a) :
    Certifies serde room toJson read (.ok hits)
      (outputOf serde room broken true toJson human (.ok hits))
      (outputOf serde room broken false toJson human (.ok hits)) := by
  have houtput := @outputOf_ok serde room broken α toJson human (.ok hits) hits rfl
  have hback := readJsonLines_jsonLines hrecords (fun a _ => hintegral a) hread
  rw [houtput]
  by_cases hroom : (jsonLines serde (hits.map toJson)).length ≤ room
  · have hnone : (if hits.length = 0 then 1 else 0) = 0 ↔ hits ≠ [] := by
      cases hits <;> simp
    have hsome : (if hits.length = 0 then 1 else 0) = 1 ↔ hits = [] := by
      cases hits <;> simp
    simp only [if_pos hroom, List.take_of_length_le hroom]
    refine { found := ?_, readBack := ?_, nothing := ?_, panicked := ?_, cut := ?_, silent := ?_,
             person := code_person }
    · simp only [hnone, Except.ok.injEq, exists_eq_left', hroom, and_true]
    · exact fun _ => ⟨hits, rfl, hback⟩
    · simp only [hsome, Except.ok.injEq]
    · refine iff_of_false ?_ (not_panics_ok hits)
      cases hits <;> simp
    · rintro hits' heq
      obtain rfl := Except.ok.inj heq
      exact List.prefix_rfl
    · exact fun hno => absurd rfl (hno hits)
  · have hne : hits ≠ [] := by
      rintro rfl
      exact hroom (Nat.zero_le room)
    simp only [if_neg hroom]
    refine { found := ?_, readBack := ?_, nothing := ?_, panicked := ?_, cut := ?_, silent := ?_,
             person := code_person }
    · simp [hroom]
    · simp
    · simp [hne]
    · simp [not_panics_ok]
    · rintro hits' heq
      obtain rfl := Except.ok.inj heq
      exact List.take_prefix _ _
    · exact fun hno => absurd rfl (hno hits)

theorem certifies_outputOf {search : Run (List α)} (hrecords : serde.WritesRecords floats)
    (hintegral : ∀ a, (toJson a).integral = true)
    (hread : ∀ hits, search = .ok hits → ∀ a ∈ hits, read (toJson a) = some a) :
    Certifies serde room toJson read search (outputOf serde room broken true toJson human search)
      (outputOf serde room broken false toJson human search) := by
  cases search with
  | error s => exact certifies_error s
  | ok hits => exact certifies_ok hrecords hintegral (hread hits rfl)

end Certifies

end Memhunt
