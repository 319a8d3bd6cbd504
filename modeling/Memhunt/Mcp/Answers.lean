import Memhunt.Lib.JsonSorted
import Memhunt.Mcp.ScanTools
import Memhunt.Mcp.Session

/-! Tool calls in whole sessions: what a client reads in the response line is what the search behind
the tool found, or why there was none. -/
namespace Memhunt
open Rust
open Json (Value)

/-- The statistics that come from the clock. -/
structure Clock where
  durationMs : UInt64
  candidatesPerSec : UInt64
  deriving DecidableEq, Repr

section ToValue
variable (clock : Clock)

def ScanStats.toJson (s : ScanStats) : Value :=
  .object [("dump_size", natural s.dumpSize), ("candidates_tried", natural s.candidatesTried),
    ("duration_ms", .number (.posInt clock.durationMs)),
    ("candidates_per_sec", .number (.posInt clock.candidatesPerSec))]

/-- The three results are hits with statistics. -/
def resultJson {α : Type} (toJson : α → Value) (hits : List α) (stats : ScanStats) : Value :=
  .object [("hits", .array (hits.map toJson)), ("stats", stats.toJson clock)]

def ScanResult.toJson (r : ScanResult) : Value := resultJson clock Hit.toJson r.hits r.stats

def KeyScheduleResult.toJson (r : KeyScheduleResult) : Value :=
  resultJson clock KeyScheduleHit.toJson r.hits r.stats

def HashScanResult.toJson (r : HashScanResult) : Value :=
  resultJson clock HashHit.toJson r.hits r.stats

end ToValue

/-- What the tools find when they are called: the crates, the file system and the clock. -/
structure Machine where
  crates : Crates
  hashes : HashCrates
  base64 : Base64Crate
  files : Files
  clock : Clock

/-- A tool that ends answers with its result or with its error. One that panics answers nothing, so
nothing is said of it. -/
inductive Ends {α : Type} (toValue : α → Value) : Run α → Except String Value → Prop where
  | ok (r : α) : Ends toValue (.ok r) (.ok (toValue r))
  | err (message : String) : Ends toValue (fail message) (.error message)
  | panic (site : Panic) (answer : Except String Value) : Ends toValue (crash site) answer

structure Machine.Implements (m : Machine) (tools : Tools) : Prop where
  scan : ∀ args, Ends (ScanResult.toJson m.clock) (toolScan m.crates m.base64 m.files args)
    (tools.scan args)
  keySchedules : ∀ args, Ends (KeyScheduleResult.toJson m.clock) (toolKeySchedules m.files args)
    (tools.keySchedules args)
  hashScan : ∀ args, Ends (HashScanResult.toJson m.clock) (toolHashScan m.hashes m.files args)
    (tools.hashScan args)

/-- The crate writes values without white space and keeps objects in the order of their keys. -/
def JsonCrate.Compact (json : JsonCrate) (floats : UInt64 → Json.Numeral) : Prop :=
  ∀ v, (json.toText v).toList = v.sorted.compact floats

def toolNames : List String := ["memhunt_scan", "memhunt_key_schedules", "memhunt_hash_scan"]

structure Call where
  id : Value
  name : String
  args : Value

/-- The line is a request to call a tool. -/
structure Calls (json : JsonCrate) (line : Bytes) (call : Call) : Prop where
  visible : ¬ Blank line
  reads : ∃ req params, Reads json line req ∧ req.get "id" = some call.id ∧
    req.get "method" = some (.string "tools/call") ∧ req.get "params" = some params ∧
    params.get "name" = some (.string call.name) ∧
    (params.get "arguments").getD (.object []) = call.args

/-- The call asks for nothing that a search cannot hold: its ciphertext is no longer than the keystream
of the stream ciphers, and there is room for the lengths of a key search. -/
structure Machine.Bears (m : Machine) (call : Call) : Prop where
  keystream : ∀ text ciphertext, argStr call.args "ciphertext" = some text →
    decodeBlob m.base64 text = .ok ciphertext →
      ciphertext.length ≤ m.crates.chacha20.limit ∧ ciphertext.length ≤ m.crates.xchacha20.limit
  lengths : argStr call.args "mode" = some "hmac_key" → (toolLengths call.args).Room

section Client

def asBool : Value → Option Bool
  | .bool b => some b
  | _ => none

def firstElement : Value → Option Value
  | .array (v :: _) => some v
  | _ => none

def readOutcome {α : Type} (f : Value → Option α) (isError : Bool) (text : String) :
    Option (Except String (List α)) :=
  if isError then some (.error text)
  else (Json.read text.toList).bind fun v => (member (listed f) v "hits").map .ok

/-- A line of output as a client takes it: the id, and the hits or the text of an error. -/
def readAnswer {α : Type} (f : Value → Option α) (line : Bytes) :
    Option (Value × Except String (List α)) := do
  let resp ← readJsonLine line
  let id ← resp.get "id"
  let result ← resp.get "result"
  let block ← member firstElement result "content"
  let text ← member Value.asStr block "text"
  let isError ← member asBool result "isError"
  let outcome ← readOutcome f isError text
  return (id, outcome)

end Client

/-- A search that ended, and how. -/
def ended {α : Type} : Except String α → Run α
  | .ok a => .ok a
  | .error message => fail message

/-- The client reads under the id of the call how the search ended. -/
def Tells {α : Type} (f : Value → Option α) (search : Run (List α)) (call : Call) (line : Bytes) :
    Prop :=
  ∃ outcome, search = ended outcome ∧ readAnswer f line = some (call.id.sorted, outcome)

/-- The line answers the call on this machine. -/
structure Machine.Serves (m : Machine) (call : Call) (line : Bytes) : Prop where
  scan : call.name = "memhunt_scan" → Tells Hit.ofJson
    ((toolScan m.crates m.base64 m.files call.args).map ScanResult.hits) call line
  keySchedules : call.name = "memhunt_key_schedules" → Tells KeyScheduleHit.ofJson
    ((toolKeySchedules m.files call.args).map KeyScheduleResult.hits) call line
  hashScan : call.name = "memhunt_hash_scan" → Tells HashHit.ofJson
    ((toolHashScan m.hashes m.files call.args).map HashScanResult.hits) call line

section Reading

/-- A reader that does not look at the order of the members. -/
def Unordered {α : Type} (f : Value → Option α) : Prop := ∀ v : Value, f v.sorted = f v

theorem unordered_asStr : Unordered Value.asStr := Value.asStr_sorted

theorem unordered_asU64 : Unordered Value.asU64 := Value.asU64_sorted

theorem unordered_asBool : Unordered asBool := by
  intro v
  cases v <;> rfl

theorem Unordered.member {α : Type} {f : Value → Option α} (hf : Unordered f) (v : Value)
    (key : String) : Memhunt.member f v.sorted key = Memhunt.member f v key := by
  rw [Memhunt.member, Memhunt.member, Value.get_sorted]
  cases v.get key with
  | none => rfl
  | some w => exact hf w

theorem Unordered.nullable {α : Type} {f : Value → Option α} (hf : Unordered f) :
    Unordered (nullable f) := by
  intro v
  cases v with
  | null => rfl
  | bool b => exact congrArg (Option.map some) (hf (.bool b))
  | number n => exact congrArg (Option.map some) (hf (.number n))
  | string s => exact congrArg (Option.map some) (hf (.string s))
  | array vs => exact congrArg (Option.map some) (hf (.array vs))
  | object ms => exact congrArg (Option.map some) (hf (.object ms))

theorem Unordered.listed {α : Type} {f : Value → Option α} (hf : Unordered f) :
    Unordered (listed f) := by
  intro v
  cases v with
  | array vs =>
      have hall : (vs.map Value.sorted).mapM f = vs.mapM f := by
        rw [List.mapM_map]
        exact congrArg (vs.mapM ·) (funext hf)
      rw [Value.sorted, Value.sortedElements_eq]
      exact hall
  | _ => rfl

theorem unordered_ivCandidate : Unordered IvCandidate.ofJson := by
  intro v
  simp only [IvCandidate.ofJson, unordered_asStr.member, unordered_asU64.member,
    unordered_asStr.nullable.member]

theorem unordered_hit : Unordered Hit.ofJson := by
  intro v
  simp only [Hit.ofJson, unordered_asStr.member, unordered_asU64.member,
    unordered_asStr.nullable.member, unordered_asU64.nullable.member,
    unordered_ivCandidate.listed.member]

theorem unordered_keyScheduleHit : Unordered KeyScheduleHit.ofJson := by
  intro v
  simp only [KeyScheduleHit.ofJson, unordered_asStr.member, unordered_asU64.member]

theorem unordered_hashHit : Unordered HashHit.ofJson := by
  intro v
  simp only [HashHit.ofJson, unordered_asStr.member, unordered_asU64.member]

end Reading

section Writing
variable {json : JsonCrate} {floats : UInt64 → Json.Numeral} {α : Type} {f : Value → Option α}

theorem read_toText (hcompact : json.Compact floats) {v : Value} (hv : v.integral = true) :
    Json.read (json.toText v).toList = some v.sorted := by
  rw [hcompact v]
  exact Value.read_compact floats (Value.integral_sorted v hv)

theorem readJsonLine_responseLine (hcompact : json.Compact floats) {v : Value}
    (hv : v.integral = true) : readJsonLine (responseLine json v) = some v.sorted := by
  rw [readJsonLine, responseLine, List.dropLast_concat, utf8Bytes_eq, ← Utf8.encode,
    Utf8.fromUtf8_encode, Option.bind_some, read_toText hcompact hv]

theorem integral_resultJson {toJson : α → Value} (hintegral : ∀ a, (toJson a).integral = true)
    (clock : Clock) (hits : List α) (stats : ScanStats) :
    (resultJson clock toJson hits stats).integral = true := by
  have hhits : Value.integralElements (hits.map toJson) = true := by
    rw [integralElements_iff]
    intro v hv
    obtain ⟨a, _, rfl⟩ := List.mem_map.mp hv
    exact hintegral a
  simp [resultJson, ScanStats.toJson, Value.integral, Value.integralMembers, Value.integralEntry,
    natural, Json.Number.integral, hhits]

/-- The text of a result is read as its hits. -/
theorem readOutcome_resultJson (hcompact : json.Compact floats) (hf : Unordered f)
    {toJson : α → Value} (hintegral : ∀ a, (toJson a).integral = true) (clock : Clock)
    {hits : List α} (hback : ∀ a ∈ hits, f (toJson a) = some a) (stats : ScanStats) :
    readOutcome f false (json.toText (resultJson clock toJson hits stats)) = some (.ok hits) := by
  have hread := read_toText hcompact (integral_resultJson hintegral clock hits stats)
  have hmember : member (listed f) (resultJson clock toJson hits stats) "hits" = some hits :=
    listed_map hback
  rw [readOutcome, if_neg Bool.false_ne_true, hread, Option.bind_some, hf.listed.member, hmember,
    Option.map_some]

/-- A response is read as what was put into it. -/
theorem readAnswer_toolContent (hcompact : json.Compact floats) {id : Value}
    (hid : id.integral = true) (text : String) (isError : Bool) :
    readAnswer f (responseLine json (resultResponse id (toolContent text isError))) =
      (readOutcome f isError text).map fun outcome => (id.sorted, outcome) := by
  have hresp : (resultResponse id (toolContent text isError)).integral = true := by
    simp [resultResponse, toolContent, Value.integral, Value.integralMembers, Value.integralEntry,
      Value.integralElements, hid]
  have hid' : (resultResponse id (toolContent text isError)).sorted.get "id" = some id.sorted := by
    rw [Value.get_sorted]
    rfl
  have hresult : (resultResponse id (toolContent text isError)).sorted.get "result" =
      some (toolContent text isError).sorted := by
    rw [Value.get_sorted]
    rfl
  have hblock : member firstElement (toolContent text isError).sorted "content" =
      some (Value.object [("type", .string "text"), ("text", .string text)]).sorted := by
    rw [member, Value.get_sorted]
    rfl
  have htext : member Value.asStr
      (Value.object [("type", .string "text"), ("text", .string text)]).sorted "text" =
        some text := by
    rw [unordered_asStr.member]
    rfl
  have herror : member asBool (toolContent text isError).sorted "isError" = some isError := by
    rw [unordered_asBool.member]
    rfl
  rw [readAnswer, readJsonLine_responseLine hcompact hresp]
  simp only [Option.bind_eq_bind, Option.bind_some, hid', hresult, hblock, htext, herror]
  cases readOutcome f isError text <;> rfl

end Writing

section Calling
variable {json : JsonCrate} {floats : UInt64 → Json.Numeral} {tools : Tools} {line : Bytes}
  {call : Call}

def contentOf (json : JsonCrate) : Except String Value → Value
  | .ok result => toolContent (json.toText result) false
  | .error message => toolContent message true

/-- A line is one call at most. -/
theorem Calls.unique {other : Call} (h : Calls json line call) (h' : Calls json line other) :
    call = other := by
  obtain ⟨req, params, ⟨text, htext, hread⟩, hid, _, hparams, hname, hargs⟩ := h.reads
  obtain ⟨req', params', ⟨text', htext', hread'⟩, hid', _, hparams', hname', hargs'⟩ := h'.reads
  obtain rfl := Option.some.inj (htext.symm.trans htext')
  obtain rfl := Except.ok.inj (hread.symm.trans hread')
  obtain rfl := Option.some.inj (hparams.symm.trans hparams')
  obtain ⟨id, name, args⟩ := call
  obtain ⟨id', name', args'⟩ := other
  obtain rfl := Option.some.inj (hid.symm.trans hid')
  obtain rfl := Value.string.inj (Option.some.inj (hname.symm.trans hname'))
  obtain rfl := hargs.symm.trans hargs'
  rfl

theorem named_of_mem_toolNames {name : String} (h : name ∈ toolNames) :
    ∃ tool, tools.named name = some tool := by
  simp only [toolNames, List.mem_cons, List.not_mem_nil, or_false] at h
  rcases h with rfl | rfl | rfl
  · exact ⟨tools.scan, rfl⟩
  · exact ⟨tools.keySchedules, rfl⟩
  · exact ⟨tools.hashScan, rfl⟩

theorem replyTo_call (h : Calls json line call) {tool : Value → Except String Value}
    (htool : tools.named call.name = some tool) :
    replyTo json tools line = some (resultResponse call.id (contentOf json (tool call.args))) := by
  obtain ⟨req, params, ⟨text, htext, hread⟩, hid, hmethod, hparams, hname, hargs⟩ := h.reads
  have hvisible : ¬ (Text.trim text).isEmpty = true := fun hempty =>
    h.visible ⟨text, htext, List.isEmpty_iff.mp hempty⟩
  have hasked : (params.get "name").bind Value.asStr = some call.name := by
    rw [hname]
    rfl
  have hdispatch : dispatch json tools "tools/call" params =
      .ok (contentOf json (tool call.args)) := by
    simp only [dispatch, callTool, hasked, htool, hargs]
    cases tool call.args <;> rfl
  have hcalled : ((req.get "method").bind Value.asStr).getD "" = "tools/call" := by
    rw [hmethod]
    rfl
  simp only [replyTo, htext, if_neg hvisible, respond, hread, hid, hcalled, hparams,
    Option.getD_some, hdispatch]

/-- The reply to a call of a tool tells how its search ended. -/
theorem tells_of_ends {β α : Type} {toJson : α → Value} {f : Value → Option α}
    (hcompact : json.Compact floats) (hid : call.id.integral = true) (hf : Unordered f)
    (hintegral : ∀ a, (toJson a).integral = true) {clock : Clock} {hits : β → List α}
    {stats : β → ScanStats} {search : Run β} {answer : Except String Value}
    (hends : Ends (fun r => resultJson clock toJson (hits r) (stats r)) search answer)
    (hcalm : ¬ Panics search) (hback : ∀ r, search = .ok r → ∀ a ∈ hits r, f (toJson a) = some a) :
    Tells f (search.map hits) call
      (responseLine json (resultResponse call.id (contentOf json answer))) := by
  cases hends with
  | ok r =>
      refine ⟨.ok (hits r), rfl, ?_⟩
      rw [contentOf, readAnswer_toolContent hcompact hid,
        readOutcome_resultJson hcompact hf hintegral clock (hback r rfl) (stats r), Option.map_some]
  | err message =>
      refine ⟨.error message, rfl, ?_⟩
      rw [contentOf, readAnswer_toolContent hcompact hid]
      rfl
  | panic site => exact absurd ⟨site, rfl⟩ hcalm

end Calling

section Searches
variable {m : Machine} {call : Call}

theorem toolScan_not_panics (hbears : m.Bears call) :
    ¬ Panics (toolScan m.crates m.base64 m.files call.args) := by
  intro h
  obtain ⟨dumpPath, _, h⟩ := ok_of_panics_bind h (required_not_panics _ _)
  obtain ⟨text, htext, h⟩ := ok_of_panics_bind h (required_not_panics _ _)
  obtain ⟨dump, _, h⟩ := ok_of_panics_bind h (readDump_not_panics _ _)
  obtain ⟨ciphertext, hciphertext, h⟩ := ok_of_panics_bind h (decodeBlob_not_panics _ _)
  rw [parseArg_eq, parseArg_eq] at h
  obtain ⟨selection, _, h⟩ := ok_of_panics_bind h (CipherChoice.parseList_not_panics _)
  obtain ⟨oracles, _, h⟩ := ok_of_panics_bind h (parseSpec_not_panics _)
  obtain ⟨fixedIv, _, h⟩ := ok_of_panics_bind h (decodeHexArg_not_panics _ _)
  obtain ⟨nonce, _, h⟩ := ok_of_panics_bind h (decodeHexArg_not_panics _ _)
  obtain ⟨tag, _, h⟩ := ok_of_panics_bind h (decodeHexArg_not_panics _ _)
  obtain ⟨aad, _, h⟩ := ok_of_panics_bind h (decodeHexArg_not_panics _ _)
  obtain ⟨c, _, _, hstream, hlong⟩ := exhausted_of_scan_panics h
  obtain ⟨hchacha, hxchacha⟩ := hbears.keystream text ciphertext (required_eq_ok.mp htext) hciphertext
  have hlimit : ciphertext.length ≤ c.keystreamLimit m.crates := by
    cases c <;> first | exact hchacha | exact hxchacha
  omega

theorem toolKeySchedules_not_panics (files : Files) (args : Value) :
    ¬ Panics (toolKeySchedules files args) := by
  refine not_panics_bind (required_not_panics _ _) fun dumpPath => ?_
  refine not_panics_bind (readDump_not_panics _ _) fun dump => ?_
  obtain ⟨r, hr, _⟩ := scanKeySchedules_ok dump
  rw [hr]
  exact not_panics_ok r

theorem sized_of_toolScan {r : ScanResult}
    (hsize : ∀ path dump, m.files path = .ok dump → dump.length < 2 ^ 64)
    (h : toolScan m.crates m.base64 m.files call.args = .ok r) : ∀ hit ∈ r.hits, hit.Sized := by
  obtain ⟨dumpPath, _, h⟩ := bind_ok h
  obtain ⟨text, _, h⟩ := bind_ok h
  obtain ⟨dump, hdump, h⟩ := bind_ok h
  obtain ⟨ciphertext, _, h⟩ := bind_ok h
  obtain ⟨selection, _, h⟩ := bind_ok h
  obtain ⟨oracles, _, h⟩ := bind_ok h
  obtain ⟨fixedIv, _, h⟩ := bind_ok h
  obtain ⟨nonce, _, h⟩ := bind_ok h
  obtain ⟨tag, _, h⟩ := bind_ok h
  obtain ⟨aad, _, h⟩ := bind_ok h
  exact sized_of_scan (hsize dumpPath dump (file_of_readDump hdump)) h

theorem sized_of_toolKeySchedules {r : KeyScheduleResult}
    (hsize : ∀ path dump, m.files path = .ok dump → dump.length < 2 ^ 64)
    (h : toolKeySchedules m.files call.args = .ok r) : ∀ hit ∈ r.hits, hit.Sized := by
  obtain ⟨dumpPath, _, h⟩ := bind_ok h
  obtain ⟨dump, hdump, h⟩ := bind_ok h
  exact sized_of_scanKeySchedules (hsize dumpPath dump (file_of_readDump hdump)) h

theorem sized_of_toolHashScan {r : HashScanResult}
    (hsize : ∀ path dump, m.files path = .ok dump → dump.length < 2 ^ 64)
    (h : toolHashScan m.hashes m.files call.args = .ok r) : ∀ hit ∈ r.hits, hit.Sized := by
  obtain ⟨dumpPath, _, h⟩ := bind_ok h
  obtain ⟨mode, _, h⟩ := bind_ok h
  obtain ⟨digestS, _, h⟩ := bind_ok h
  obtain ⟨digest, _, h⟩ := bind_ok h
  obtain ⟨dump, hdump, h⟩ := bind_ok h
  have hlen := hsize dumpPath dump (file_of_readDump hdump)
  dsimp only at h
  split at h
  · cases h
  · split at h
    · split at h
      · obtain ⟨algos, _, h⟩ := bind_ok h
        exact sized_of_scanPreimages hlen h
      · obtain ⟨algos, _, h⟩ := bind_ok h
        exact sized_of_scanPreimages hlen h
    · split at h
      · obtain ⟨algoS, _, h⟩ := bind_ok h
        obtain ⟨algos, _, h⟩ := bind_ok h
        split at h
        · obtain ⟨message, _, h⟩ := bind_ok h
          exact sized_of_scanHmacKeys hlen h
        · cases h
      · cases h

end Searches

/-- Every reply to a call tells how its search ended, whichever tool it is for. -/
theorem serves_of_implements {json : JsonCrate} {floats : UInt64 → Json.Numeral} {tools : Tools}
    {line : Bytes} {m : Machine} {call : Call} (hcompact : json.Compact floats)
    (himpl : m.Implements tools)
    (hsize : ∀ path dump, m.files path = .ok dump → dump.length < 2 ^ 64)
    (hcall : Calls json line call) (hid : call.id.integral = true) (hbears : m.Bears call)
    (hname : call.name ∈ toolNames) :
    ∃ resp, replyTo json tools line = some resp ∧ m.Serves call (responseLine json resp) := by
  obtain ⟨tool, htool⟩ := @named_of_mem_toolNames tools call.name hname
  refine ⟨_, replyTo_call hcall htool, ?_, ?_, ?_⟩
  · intro h
    rw [h] at htool
    obtain rfl := Option.some.inj htool
    exact tells_of_ends hcompact hid unordered_hit Hit.integral_toJson (himpl.scan call.args)
      (toolScan_not_panics hbears)
      fun r hr hit hmem => Hit.ofJson_toJson (sized_of_toolScan hsize hr hit hmem)
  · intro h
    rw [h] at htool
    obtain rfl := Option.some.inj htool
    exact tells_of_ends hcompact hid unordered_keyScheduleHit KeyScheduleHit.integral_toJson
      (himpl.keySchedules call.args) (toolKeySchedules_not_panics m.files call.args)
      fun r hr hit hmem => KeyScheduleHit.ofJson_toJson (sized_of_toolKeySchedules hsize hr hit hmem)
  · intro h
    rw [h] at htool
    obtain rfl := Option.some.inj htool
    exact tells_of_ends hcompact hid unordered_hashHit HashHit.integral_toJson
      (himpl.hashScan call.args) (toolHashScan_not_panics hbears.lengths)
      fun r hr hit hmem => HashHit.ofJson_toJson (sized_of_toolHashScan hsize hr hit hmem)

/-- A session that answers its calls: each with a line of its own, in the order of the calls, and all
of them where the output takes what is written. -/
def AnswersCalls (json : JsonCrate) (machine : Nat → Machine) (tools : Nat → Tools)
    (writes : Nat → Bool) (stdin : Bytes) : Prop :=
  let output := Lines.split 0x0a (serveStdio json tools writes stdin).written
  ∃ replies : List (Option Bytes),
    List.Forall₂ (fun served reply => ∀ call, Calls json served.1 call →
        call.id.integral = true → call.name ∈ toolNames →
          ∃ line ∈ reply, (machine served.2).Serves call line)
      (Lines.split 0x0a stdin).zipIdx replies ∧
    output <+: replies.reduceOption ∧
    ((∀ k < replies.reduceOption.length, writes k = true) → output = replies.reduceOption)

/-- Whatever else stands on the input, and whatever the files are at the time of each call, a client
reads for each call what the search found, or the message of its error. -/
theorem session_answers_calls (json : JsonCrate) (floats : UInt64 → Json.Numeral)
    (machine : Nat → Machine) (tools : Nat → Tools) (writes : Nat → Bool) (stdin : Bytes)
    (hcompact : json.Compact floats) (himpl : ∀ n, (machine n).Implements (tools n))
    (hsize : ∀ n path dump, (machine n).files path = .ok dump → dump.length < 2 ^ 64)
    (htext : ∀ line ∈ Lines.split 0x0a stdin, ∃ text, Utf8.fromUtf8 line = some text)
    (hbears : ∀ served ∈ (Lines.split 0x0a stdin).zipIdx, ∀ call,
      Calls json served.1 call → (machine served.2).Bears call) :
    AnswersCalls json machine tools writes stdin := by
  refine ⟨(repliesFrom json tools 0 (Lines.split 0x0a stdin)).map (Option.map (responseLine json)),
    ?_, ?_⟩
  · rw [repliesFrom, List.map_map, List.forall₂_map_right_iff, List.forall₂_same]
    rintro ⟨line, i⟩ hmem call hcall hid hname
    obtain ⟨resp, hresp, hserves⟩ := serves_of_implements hcompact (himpl i) (hsize i) hcall hid
      (hbears (line, i) hmem call hcall) hname
    refine ⟨responseLine json resp, ?_, hserves⟩
    simp only [Function.comp_apply, hresp, Option.map_some, Option.mem_def]
  · rw [serveStdio, serveLoop_eq_deliver htext, List.reduceOption_map]
    generalize (repliesFrom json tools 0 (Lines.split 0x0a stdin)).reduceOption = rs
    rcases @deliver_cases writes 0 (rs.map (responseLine json)) with
      ⟨_, hall⟩ | ⟨_, k, hk, hfail, hwritten⟩
    · rw [hall, split_responseLines]
      exact ⟨List.prefix_rfl, fun _ => rfl⟩
    · rw [Nat.zero_add] at hfail
      rw [hwritten, ← List.map_take, split_responseLines, List.map_take]
      refine ⟨List.take_prefix k _, fun hwrites => ?_⟩
      rw [hwrites k hk] at hfail
      cases hfail

section Sample

def answered {α : Type} (toValue : α → Value) : Run α → Except String Value
  | .ok r => .ok (toValue r)
  | .error (.err message) => .error message
  | .error (.panic _) => .error ""

def Machine.tools (m : Machine) : Tools where
  scan args := answered (ScanResult.toJson m.clock) (toolScan m.crates m.base64 m.files args)
  keySchedules args := answered (KeyScheduleResult.toJson m.clock) (toolKeySchedules m.files args)
  hashScan args := answered (HashScanResult.toJson m.clock) (toolHashScan m.hashes m.files args)

theorem ends_answered {α : Type} (toValue : α → Value) (r : Run α) :
    Ends toValue r (answered toValue r) := by
  rcases r with s | a
  · cases s with
    | err message => exact .err message
    | panic site => exact .panic site _
  · exact .ok a

theorem Machine.implements_tools (m : Machine) : m.Implements m.tools where
  scan _ := ends_answered _ _
  keySchedules _ := ends_answered _ _
  hashScan _ := ends_answered _ _

def sampleMachine : Machine where
  crates := sampleCrates
  hashes := sampleHashes
  base64 := standardBase64
  files := oneFile
  clock := { durationMs := 1, candidatesPerSec := 1000 }

def callRequest : Value :=
  .object [("jsonrpc", .string "2.0"), ("id", .number (.posInt 1)),
    ("method", .string "tools/call"),
    ("params", .object [("name", .string "memhunt_scan"), ("arguments", oneFileRequest "aes-128")])]

def sampleCall : Call where
  id := .number (.posInt 1)
  name := "memhunt_scan"
  args := (oneFileRequest "aes-128").sorted

theorem visible_callRequest :
    ∀ c ∈ callRequest.sorted.compact fun _ => .ofInt 0, Text.isWhitespace c = false := by
  have hall : ((callRequest.sorted.compact fun _ => .ofInt 0).all fun c =>
      !Text.isWhitespace c) = true := by
    decide +kernel
  simpa using hall

theorem read_callRequest : Utf8.fromUtf8 (responseLine compactJson callRequest) =
      some ((callRequest.sorted.compact fun _ => .ofInt 0) ++ ['\n']) ∧
    Text.trim ((callRequest.sorted.compact fun _ => .ofInt 0) ++ ['\n']) =
      callRequest.sorted.compact fun _ => .ofInt 0 := by
  constructor
  · have hline : responseLine compactJson callRequest =
        Utf8.encode ((callRequest.sorted.compact fun _ => .ofInt 0) ++ ['\n']) := by
      rw [responseLine, utf8Bytes_eq, compactJson, String.toList_ofList, Utf8.encode,
        List.flatMap_append]
      rfl
    rw [hline, Utf8.fromUtf8_encode]
  · exact Text.trim_padded ⟨[], ['\n'], rfl, by simp, by simp [Text.isWhitespace]⟩ visible_callRequest

theorem calls_callRequest : Calls compactJson (responseLine compactJson callRequest) sampleCall := by
  obtain ⟨htext, htrim⟩ := read_callRequest
  have hread : Json.read (callRequest.sorted.compact fun _ => .ofInt 0) = some callRequest.sorted :=
    Value.read_compact _ (by decide +kernel)
  constructor
  case visible =>
    rintro ⟨text, h, hblank⟩
    obtain rfl := Option.some.inj (h.symm.trans htext)
    rw [htrim] at hblank
    rw [hblank] at hread
    cases hread
  case reads =>
    have hget := Value.get_sorted callRequest
    refine ⟨callRequest.sorted, _, ⟨_, htext, ?_⟩, (hget "id").trans rfl, (hget "method").trans rfl,
      (hget "params").trans rfl, ?_, ?_⟩
    · simp only [compactJson, htrim, String.toList_ofList, hread]
    · exact (Value.get_sorted _ "name").trans rfl
    · rw [Value.get_sorted]
      rfl

/-- One call on a session of its own, answered. -/
theorem session_answers_calls_sample : ∃ line, sampleMachine.Serves sampleCall line ∧
    Lines.split 0x0a (serveStdio compactJson (fun _ => sampleMachine.tools) (fun _ => true)
      (responseLine compactJson callRequest)).written = [line] := by
  have hsplit : Lines.split 0x0a (responseLine compactJson callRequest) =
      [responseLine compactJson callRequest] := by
    have := @split_responseLines compactJson [callRequest]
    rwa [List.map_singleton, List.flatten_singleton] at this
  have hdecode : decodeBlob standardBase64 sampleArgs.target = .ok sampleCiphertext := by
    decide +kernel
  have hbears : ∀ call, Calls compactJson (responseLine compactJson callRequest) call →
      sampleMachine.Bears call := by
    intro call hcall
    obtain rfl := hcall.unique calls_callRequest
    refine ⟨fun text ciphertext htext hciphertext => ?_, fun hmode => ?_⟩
    · have htarget : argStr sampleCall.args "ciphertext" = some sampleArgs.target := by
        rw [argStr, sampleCall, Value.get_sorted]
        rfl
      obtain rfl := Option.some.inj (htext.symm.trans htarget)
      obtain rfl := Except.ok.inj (hciphertext.symm.trans hdecode)
      decide
    · have hnone : argStr sampleCall.args "mode" = none := by
        rw [argStr, sampleCall, Value.get_sorted]
        rfl
      rw [hmode] at hnone
      cases hnone
  obtain ⟨replies, hall, _, hfull⟩ := session_answers_calls compactJson (fun _ => .ofInt 0)
    (fun _ => sampleMachine) (fun _ => sampleMachine.tools) (fun _ => true)
    (responseLine compactJson callRequest)
    (fun v => String.toList_ofList) (fun _ => sampleMachine.implements_tools)
    (fun _ => length_oneFile)
    (by
      rw [hsplit, List.forall_mem_singleton]
      exact ⟨_, read_callRequest.1⟩)
    (by
      rw [hsplit, List.zipIdx_singleton, List.forall_mem_singleton]
      exact hbears)
  rw [hsplit, List.zipIdx_singleton] at hall
  obtain ⟨reply, _, hreply, hnil, rfl⟩ := List.forall₂_cons_left_iff.mp hall
  obtain rfl := List.forall₂_nil_left_iff.mp hnil
  obtain ⟨line, hline, hserves⟩ := hreply sampleCall calls_callRequest rfl (by decide)
  obtain rfl := hline
  exact ⟨line, hserves, hfull fun _ _ => rfl⟩

end Sample

end Memhunt
