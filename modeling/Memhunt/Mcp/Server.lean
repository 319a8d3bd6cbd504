import Memhunt.Cli
import Memhunt.Lib.Json
import Memhunt.Lib.Lines
import Memhunt.Lib.Utf8

/-! The server loop: requests line by line from standard input, a response line for each that asks
for one. -/
namespace Memhunt
open Json (Value)

/-- The tools as they answer at one moment; what they read may have changed before the next. -/
structure Tools where
  scan : Value → Except String Value
  keySchedules : Value → Except String Value
  hashScan : Value → Except String Value

def serverName : String := "memhunt"

def serverVersion : String := "0.3.0"

def protocolVersion : String := "2025-06-18"

section Schema

def described (type description : String) : Value :=
  .object [("type", .string type), ("description", .string description)]

def lengthProperty : Value :=
  .object [("type", .string "integer"), ("minimum", .number (.posInt 1))]

def inputSchema (properties : List (String × Value)) (required : List String) : Value :=
  .object [("type", .string "object"), ("properties", .object properties),
    ("required", .array (required.map Value.string))]

def toolSchema (name description : String) (schema : Value) : Value :=
  .object [("name", .string name), ("description", .string description), ("inputSchema", schema)]

def scanProperties : List (String × Value) :=
  [("dump_path", described "string" "Path to the raw memory dump."),
    ("ciphertext", described "string" "Target ciphertext (hex or base64)."),
    ("ciphers", described "string" ("Comma list: aes-128, aes-192, aes-256, des, 3des, sm4, " ++
      "aes (=all sizes), all, or AES tokens with -ctr/-gcm suffix. Default aes.")),
    ("oracles", described "string"
      "Comma list: utf8, json, gzip, protobuf, known:<fragment>. Default utf8,json."),
    ("max_hits", described "integer" "Stop after N hits (0 = unlimited)."),
    ("iv", described "string" "Fixed IV (hex) for CBC; enables single-block ciphertext scans."),
    ("nonce", described "string"
      "CTR 16-byte initial counter block or GCM 12-byte nonce (hex). Required for CTR/GCM."),
    ("tag", described "string"
      "GCM 16-byte authentication tag (hex). Enables deterministic key verification."),
    ("aad", described "string" "GCM additional authenticated data (hex)."),
    ("threads", described "integer" "Worker threads (default all cores).")]

def hashProperties : List (String × Value) :=
  [("dump_path", .object [("type", .string "string")]),
    ("mode", .object [("type", .string "string"),
      ("enum", .array [.string "preimage", .string "hmac_key"]),
      ("description", .string "preimage or hmac_key.")]),
    ("digest", described "string" "Target digest/MAC (hex)."),
    ("algos", described "string" ("Comma list: md5, sha1, sha256, sm3. Default " ++
      "md5,sha1,sha256,sm3 (preimage) / required for hmac_key.")),
    ("message", described "string" "Known message (utf8) for hmac_key mode."),
    ("min_len", lengthProperty),
    ("max_len", lengthProperty)]

def toolsSchema : Value :=
  .array [
    toolSchema "memhunt_scan" ("Hunt block-cipher keys in a memory dump given a known " ++
      "ciphertext. Supports ECB/CBC for AES, DES, 3DES, and SM4, plus AES-CTR/GCM with an " ++
      "explicit nonce. GCM with a tag is verified deterministically without an oracle.")
      (inputSchema scanProperties ["dump_path", "ciphertext"]),
    toolSchema "memhunt_key_schedules" ("Detect expanded AES key schedules in a memory dump " ++
      "with NO ciphertext required. Finds windows whose first words expand forward (FIPS-197 " ++
      "key schedule) to the words that follow them — e.g. an OpenSSL AES_KEY struct resident " ++
      "in memory.")
      (inputSchema [("dump_path", .object [("type", .string "string")])] ["dump_path"]),
    toolSchema "memhunt_hash_scan" ("Hunt hashes in a memory dump: (a) preimage search — find " ++
      "windows whose md5/sha1/sha256/sm3 digest equals a known target; (b) HMAC-key search — " ++
      "find windows that, as HMAC keys over a known message, produce a known MAC.")
      (inputSchema hashProperties ["dump_path", "mode", "digest"])]

end Schema

section Requests
variable (json : JsonCrate) (tools : Tools)

def Tools.named : String → Option (Value → Except String Value)
  | "memhunt_scan" => some tools.scan
  | "memhunt_key_schedules" => some tools.keySchedules
  | "memhunt_hash_scan" => some tools.hashScan
  | _ => none

def toolContent (text : String) (isError : Bool) : Value :=
  .object [("content", .array [.object [("type", .string "text"), ("text", .string text)]]),
    ("isError", .bool isError)]

def callTool (params : Value) : Except String Value :=
  match (params.get "name").bind Value.asStr with
  | none => .error "tools/call requires name"
  | some name =>
      let args := (params.get "arguments").getD (.object [])
      match tools.named name with
      | none => .error ("unknown tool '" ++ name ++ "'")
      | some tool =>
          match tool args with
          | .ok result => .ok (toolContent (json.toText result) false)
          | .error message => .ok (toolContent message true)

def dispatch (method : String) (params : Value) : Except String Value :=
  match method with
  | "initialize" => .ok (.object [
      ("protocolVersion", .string protocolVersion),
      ("capabilities", .object [("tools", .object [])]),
      ("serverInfo", .object [("name", .string serverName), ("version", .string serverVersion)])])
  | "ping" => .ok (.object [])
  | "tools/list" => .ok (.object [("tools", toolsSchema)])
  | "tools/call" => callTool json tools params
  | other => .error ("unknown method '" ++ other ++ "'")

def errorResponse (id : Value) (code : Int64) (message : String) : Value :=
  .object [("jsonrpc", .string "2.0"), ("id", id),
    ("error", .object [("code", .number (.negInt code)), ("message", .string message)])]

def resultResponse (id result : Value) : Value :=
  .object [("jsonrpc", .string "2.0"), ("id", id), ("result", result)]

/-- What is written for a line that is not blank, if anything. -/
def respond (trimmed : List Char) : Option Value :=
  match json.fromStr (String.ofList trimmed) with
  | .error e => some (errorResponse .null (-32700) ("parse error: " ++ e))
  | .ok req =>
      match req.get "id" with
      | none => none
      | some id =>
          let method := ((req.get "method").bind Value.asStr).getD ""
          let params := (req.get "params").getD (.object [])
          match dispatch json tools method params with
          | .ok result => some (resultResponse id result)
          | .error msg => some (errorResponse id (-32602) msg)

end Requests

/-- Why the loop ends early: a line that is not UTF-8, or a response that could not be written. -/
inductive ServeError where
  | invalidData
  | writeFailed
  deriving DecidableEq, Repr

structure Session where
  written : Bytes
  result : Except ServeError Unit

/-- `read_line`: the bytes of the line appended to the buffer, if they are UTF-8. -/
def readLine (buffer : List Char) (bytes : Bytes) : Option (List Char) :=
  (Utf8.fromUtf8 bytes).map fun text => buffer ++ text

def responseLine (json : JsonCrate) (resp : Value) : Bytes := utf8Bytes (json.toText resp) ++ [0x0a]

section Loop
variable (json : JsonCrate) (tools : Nat → Tools) (writes : Nat → Bool)

/-- The loop with its buffer, the number of lines read and the number of responses written. -/
def serveLoop : List Bytes → (line : List Char) → (read sent : Nat) → Session
  | [], _, _, _ => { written := [], result := .ok () }
  | bytes :: rest, line, read, sent =>
      let cleared := line.take 0
      match readLine cleared bytes with
      | none => { written := [], result := .error .invalidData }
      | some line =>
          let trimmed := Text.trim line
          if trimmed.isEmpty then serveLoop rest line (read + 1) sent
          else
            match respond json (tools read) trimmed with
            | none => serveLoop rest line (read + 1) sent
            | some resp =>
                if writes sent then
                  let session := serveLoop rest line (read + 1) (sent + 1)
                  { session with written := responseLine json resp ++ session.written }
                else { written := [], result := .error .writeFailed }

/-- `tools n` are the tools while line `n` is served; `writes k` tells whether the response `k` can
be written and flushed. -/
def serveStdio (stdin : Bytes) : Session :=
  serveLoop json tools writes (Lines.split 0x0a stdin) [] 0 0

end Loop

end Memhunt
