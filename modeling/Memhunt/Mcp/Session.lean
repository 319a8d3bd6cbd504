import Memhunt.Mcp.Server

/-! Whole sessions of the server: what each line of input is owed, and that the loop pays it. -/
namespace Memhunt
open Json (Value)

/-- Nothing but white space. -/
def Blank (line : Bytes) : Prop := ∃ text, Utf8.fromUtf8 line = some text ∧ Text.trim text = []

/-- The line is the text of a JSON value. -/
def Reads (json : JsonCrate) (line : Bytes) (v : Value) : Prop :=
  ∃ text, Utf8.fromUtf8 line = some text ∧ json.fromStr (String.ofList (Text.trim text)) = .ok v

structure IsParseError (resp : Value) : Prop where
  id : resp.get "id" = some .null
  result : resp.get "result" = none
  error : ∃ e, resp.get "error" = some e ∧ e.get "code" = some (.number (.negInt (-32700)))

/-- The reply to a request carries its id, and a result or an error but not both; where a known tool
fails it is a result that says so. -/
structure Replies (tools : Tools) (req id resp : Value) : Prop where
  id : resp.get "id" = some id
  outcome : (resp.get "result").isSome = !(resp.get "error").isSome
  failingTool : ∀ params name tool message, req.get "method" = some (.string "tools/call") →
    req.get "params" = some params → params.get "name" = some (.string name) →
    tools.named name = some tool →
    tool ((params.get "arguments").getD (.object [])) = .error message →
    ∃ result, resp.get "result" = some result ∧ result.get "isError" = some (.bool true)

/-- What a line is owed: nothing, or one response. -/
inductive Answers (json : JsonCrate) (tools : Tools) (line : Bytes) : Option Value → Prop where
  | blank : Blank line → Answers json tools line none
  | unparseable {resp} : ¬ Blank line → (∀ v, ¬ Reads json line v) → IsParseError resp →
      Answers json tools line (some resp)
  | request {req id resp} : ¬ Blank line → Reads json line req → req.get "id" = some id →
      Replies tools req id resp → Answers json tools line (some resp)
  | unasked {req} : ¬ Blank line → Reads json line req → req.get "id" = none →
      Answers json tools line none

/-- A session that serves all of its input: every line gets what it is owed, each response on a line
of its own and in order, and the only error is a response that could not be written. -/
def Survives (json : JsonCrate) (tools : Nat → Tools) (writes : Nat → Bool) (stdin : Bytes) : Prop :=
  let session := serveStdio json tools writes stdin
  ∃ responses, List.Forall₂ (fun served resp => Answers json (tools served.2) served.1 resp)
      (Lines.split 0x0a stdin).zipIdx responses ∧
    let lines := responses.reduceOption.map (responseLine json)
    ((∀ k < lines.length, writes k = true) →
      session.result = .ok () ∧ Lines.split 0x0a session.written = lines) ∧
    ∀ e, session.result = .error e → e = .writeFailed ∧
      ∃ k < lines.length, writes k = false ∧ Lines.split 0x0a session.written = lines.take k

section Responses
variable {json : JsonCrate} {tools : Tools}

theorem isParseError_errorResponse (message : String) :
    IsParseError (errorResponse .null (-32700) message) where
  id := rfl
  result := rfl
  error := ⟨_, rfl, rfl⟩

theorem dispatch_failingTool {params : Value} {name message : String}
    {tool : Value → Except String Value} (hname : params.get "name" = some (.string name))
    (htool : tools.named name = some tool)
    (hfails : tool ((params.get "arguments").getD (.object [])) = .error message) :
    dispatch json tools "tools/call" params = .ok (toolContent message true) := by
  have hasStr : (params.get "name").bind Value.asStr = some name := by
    rw [hname]
    rfl
  simp only [dispatch, callTool, hasStr, htool, hfails]

/-- What one line gets, as a function of the line. -/
def replyTo (json : JsonCrate) (tools : Tools) (line : Bytes) : Option Value :=
  match Utf8.fromUtf8 line with
  | none => none
  | some text => if (Text.trim text).isEmpty then none else respond json tools (Text.trim text)

theorem replies_request {req id resp : Value} {method : String} {params : Value}
    (hmethod : method = ((req.get "method").bind Value.asStr).getD "")
    (hparams : params = (req.get "params").getD (.object []))
    (hresp : resp = match dispatch json tools method params with
      | .ok result => resultResponse id result
      | .error msg => errorResponse id (-32602) msg) : Replies tools req id resp := by
  constructor
  case id =>
    rw [hresp]
    cases dispatch json tools method params with
    | ok result => rfl
    | error msg => rfl
  case outcome =>
    rw [hresp]
    cases dispatch json tools method params with
    | ok result => rfl
    | error msg => rfl
  case failingTool =>
    intro ps name tool message hm hps hname htool hfails
    have hcall : method = "tools/call" := by
      rw [hmethod, hm]
      rfl
    have hparams' : params = ps := by
      rw [hparams, hps]
      rfl
    rw [hcall, hparams', dispatch_failingTool hname htool hfails] at hresp
    rw [hresp]
    exact ⟨_, rfl, rfl⟩

theorem answers_respond {line : Bytes} {text : List Char} (h : Utf8.fromUtf8 line = some text)
    (hblank : ¬ Blank line) : Answers json tools line (respond json tools (Text.trim text)) := by
  rw [respond]
  cases hparse : json.fromStr (String.ofList (Text.trim text)) with
  | error e =>
      refine .unparseable hblank ?_ (isParseError_errorResponse _)
      rintro v ⟨t, ht, hv⟩
      obtain rfl := Option.some.inj (ht.symm.trans h)
      rw [hparse] at hv
      cases hv
  | ok req =>
      have hreads : Reads json line req := ⟨text, h, hparse⟩
      cases hid : req.get "id" with
      | none =>
          simp only [hid]
          exact .unasked hblank hreads hid
      | some id =>
          simp only [hid]
          have hreplies : ∀ resp, (resp = match dispatch json tools
              (((req.get "method").bind Value.asStr).getD "")
              ((req.get "params").getD (.object [])) with
            | .ok result => resultResponse id result
            | .error msg => errorResponse id (-32602) msg) → Replies tools req id resp :=
            fun resp => replies_request rfl rfl
          cases hdispatch : dispatch json tools (((req.get "method").bind Value.asStr).getD "")
            ((req.get "params").getD (.object [])) with
          | ok result => exact .request hblank hreads hid (hreplies _ (by rw [hdispatch]))
          | error msg => exact .request hblank hreads hid (hreplies _ (by rw [hdispatch]))

theorem answers_replyTo {line : Bytes} {text : List Char} (h : Utf8.fromUtf8 line = some text) :
    Answers json tools line (replyTo json tools line) := by
  by_cases htrim : Text.trim text = []
  · have hnone : replyTo json tools line = none := by
      simp only [replyTo, h, htrim, List.isEmpty_nil, if_true]
    rw [hnone]
    exact .blank ⟨text, h, htrim⟩
  · have hrespond : replyTo json tools line = respond json tools (Text.trim text) := by
      simp only [replyTo, h, List.isEmpty_iff, htrim, if_false]
    rw [hrespond]
    refine answers_respond h ?_
    rintro ⟨t, ht, hempty⟩
    obtain rfl := Option.some.inj (ht.symm.trans h)
    exact htrim hempty

/-- A response has one end of line, its last byte. -/
theorem newline_not_mem (v : Value) : (0x0a : UInt8) ∉ utf8Bytes (json.toText v) := by
  rw [utf8Bytes_eq, List.mem_flatMap]
  rintro ⟨c, hc, hmem⟩
  have hvalue := Utf8.ascii_of_mem_encode hmem (by decide)
  have hnewline : c = '\n' := Char.ext (UInt32.toNat_inj.mp hvalue)
  exact json.toText_oneLine v (hnewline ▸ hc)

theorem split_responseLines (rs : List Value) :
    Lines.split 0x0a (rs.map (responseLine json)).flatten = rs.map (responseLine json) := by
  have hnone : ∀ line ∈ rs.map fun v => utf8Bytes (json.toText v), (0x0a : UInt8) ∉ line := by
    intro line hline
    obtain ⟨v, _, rfl⟩ := List.mem_map.mp hline
    exact newline_not_mem v
  have hlines := Lines.split_lines hnone
  rwa [List.flatMap_map, List.map_map, List.flatMap_def] at hlines

end Responses

section Delivery
variable {writes : Nat → Bool}

/-- Write the lines one after the other, up to the first that cannot be written. -/
def deliver (writes : Nat → Bool) : Nat → List Bytes → Session
  | _, [] => { written := [], result := .ok () }
  | sent, line :: rest =>
      if writes sent then
        { deliver writes (sent + 1) rest with
          written := line ++ (deliver writes (sent + 1) rest).written }
      else { written := [], result := .error .writeFailed }

theorem deliver_cases (sent : Nat) (lines : List Bytes) :
    ((deliver writes sent lines).result = .ok () ∧
      (deliver writes sent lines).written = lines.flatten) ∨
    ((deliver writes sent lines).result = .error .writeFailed ∧
      ∃ k < lines.length, writes (sent + k) = false ∧
        (deliver writes sent lines).written = (lines.take k).flatten) := by
  induction lines generalizing sent with
  | nil => exact .inl ⟨rfl, rfl⟩
  | cons line rest ih =>
      rw [deliver]
      by_cases hw : writes sent = true
      · rw [if_pos hw]
        rcases ih (sent + 1) with ⟨hok, hall⟩ | ⟨herr, k, hk, hfail, hwritten⟩
        · refine .inl ⟨hok, ?_⟩
          rw [hall, List.flatten_cons]
        · refine .inr ⟨herr, k + 1, Nat.succ_lt_succ hk, ?_, ?_⟩
          · rwa [Nat.add_right_comm, Nat.add_assoc] at hfail
          · rw [hwritten, List.take_succ_cons, List.flatten_cons]
      · rw [if_neg hw]
        have hfail : writes sent = false := Bool.eq_false_iff.mpr hw
        exact .inr ⟨rfl, 0, Nat.succ_pos _, hfail, rfl⟩

end Delivery

section Loop
variable {json : JsonCrate} {tools : Nat → Tools} {writes : Nat → Bool}

/-- What the lines get, the first of them being line `read`. -/
def repliesFrom (json : JsonCrate) (tools : Nat → Tools) (read : Nat) (lines : List Bytes) :
    List (Option Value) :=
  (lines.zipIdx read).map fun served => replyTo json (tools served.2) served.1

theorem repliesFrom_cons (read : Nat) (line : Bytes) (rest : List Bytes) :
    repliesFrom json tools read (line :: rest) =
      replyTo json (tools read) line :: repliesFrom json tools (read + 1) rest := by
  rw [repliesFrom, List.zipIdx_cons, List.map_cons, repliesFrom]

/-- A line that is text is served the same whatever the buffer held before it. -/
theorem serveLoop_cons {line : Bytes} {text : List Char} (h : Utf8.fromUtf8 line = some text)
    (rest : List Bytes) (buffer : List Char) (read sent : Nat) :
    serveLoop json tools writes (line :: rest) buffer read sent =
      match replyTo json (tools read) line with
      | none => serveLoop json tools writes rest text (read + 1) sent
      | some resp =>
          if writes sent then
            { serveLoop json tools writes rest text (read + 1) (sent + 1) with
              written := responseLine json resp ++
                (serveLoop json tools writes rest text (read + 1) (sent + 1)).written }
          else { written := [], result := .error .writeFailed } := by
  have hread : readLine (buffer.take 0) line = some text := by
    rw [readLine, h]
    rfl
  rw [serveLoop, hread, replyTo, h]
  dsimp only
  by_cases htrim : (Text.trim text).isEmpty = true
  · rw [if_pos htrim, if_pos htrim]
  · cases respond json (tools read) (Text.trim text) with
    | none => simp only [if_neg htrim]
    | some resp => simp only [if_neg htrim]

/-- The loop delivers the replies of its lines. -/
theorem serveLoop_eq_deliver {lines : List Bytes}
    (h : ∀ line ∈ lines, ∃ text, Utf8.fromUtf8 line = some text) (buffer : List Char)
    (read sent : Nat) :
    serveLoop json tools writes lines buffer read sent =
      deliver writes sent
        ((repliesFrom json tools read lines).reduceOption.map (responseLine json)) := by
  induction lines generalizing buffer read sent with
  | nil => rfl
  | cons line rest ih =>
      obtain ⟨⟨text, htext⟩, hrest⟩ := List.forall_mem_cons.mp h
      rw [serveLoop_cons htext, repliesFrom_cons]
      cases replyTo json (tools read) line with
      | none => exact ih hrest text (read + 1) sent
      | some resp =>
          rw [List.reduceOption_cons_of_some, List.map_cons, deliver]
          rw [← ih hrest text (read + 1) (sent + 1)]

/-- A line that is not text ends the session, however well the writes go. -/
theorem serveLoop_invalid {lines : List Bytes} (hwrites : ∀ k, writes k = true)
    (h : ∃ line ∈ lines, Utf8.fromUtf8 line = none) (buffer : List Char) (read sent : Nat) :
    (serveLoop json tools writes lines buffer read sent).result = .error .invalidData := by
  induction lines generalizing buffer read sent with
  | nil =>
      obtain ⟨line, hline, _⟩ := h
      cases hline
  | cons line rest ih =>
      cases htext : Utf8.fromUtf8 line with
      | none =>
          have hread : readLine (buffer.take 0) line = none := by
            rw [readLine, htext]
            rfl
          rw [serveLoop, hread]
      | some text =>
          have hrest : ∃ line ∈ rest, Utf8.fromUtf8 line = none := by
            obtain ⟨bad, hbad, hnone⟩ := h
            rcases List.mem_cons.mp hbad with rfl | hbad
            · rw [htext] at hnone
              cases hnone
            · exact ⟨bad, hbad, hnone⟩
          rw [serveLoop_cons htext]
          cases replyTo json (tools read) line with
          | none => exact ih hrest text (read + 1) sent
          | some resp =>
              simp only [hwrites sent, if_true]
              exact ih hrest text (read + 1) (sent + 1)

theorem answers_repliesFrom {lines : List Bytes}
    (h : ∀ line ∈ lines, ∃ text, Utf8.fromUtf8 line = some text) (read : Nat) :
    List.Forall₂ (fun served resp => Answers json (tools served.2) served.1 resp)
      (lines.zipIdx read) (repliesFrom json tools read lines) := by
  rw [repliesFrom, List.forall₂_map_right_iff, List.forall₂_same]
  rintro ⟨line, i⟩ hmem
  obtain ⟨text, htext⟩ := h line (List.fst_mem_of_mem_zipIdx hmem)
  exact answers_replyTo htext

end Loop

def pingText : String := "\x7b\"jsonrpc\":\"2.0\",\"id\":1,\"method\":\"ping\"\x7d"

def pongText : String := "\x7b\"id\":1,\"jsonrpc\":\"2.0\",\"result\":\x7b\x7d\x7d"

/-- A crate that reads one request and writes the response to it. -/
def pingJson : JsonCrate where
  fromStr text :=
    if text = pingText then
      .ok (.object [("jsonrpc", .string "2.0"), ("id", .number (.posInt 1)),
        ("method", .string "ping")])
    else .error "expected value at line 1 column 1"
  toText
    | .object [("jsonrpc", _), ("id", .number (.posInt 1)), ("result", .object [])] => pongText
    | _ => "null"
  toWriter _ := "null"
  toText_oneLine := by
    intro v
    split
    · decide
    · decide

/-- Tools none of which has a file to read. -/
def noTools : Nat → Tools := fun _ =>
  { scan := fun _ => .error "dump_path is required"
    keySchedules := fun _ => .error "dump_path is required"
    hashScan := fun _ => .error "dump_path is required" }

example : (serveStdio pingJson noTools (fun _ => true) (utf8Bytes pingText ++ [0x0a])).written =
    utf8Bytes pongText ++ [0x0a] := by decide +kernel

/-- A byte that is no text, on a line of its own, and a request behind it. -/
def brokenStdin : Bytes := [0xff, 0x0a] ++ utf8Bytes pingText ++ [0x0a]

end Memhunt
