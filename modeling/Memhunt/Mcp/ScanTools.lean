import Memhunt.Cli.Certified
import Memhunt.Scan.Acceptance
import Memhunt.Scan.Rejection

/-! The scan tool of the server, next to the scan command on one request. -/
namespace Memhunt
open Rust
open Json (Value)

def hexArg (args : Value) (name : String) : Run (Option Bytes) :=
  decodeHexArg (argStr args name) ("invalid " ++ name ++ " hex")

def parseArg {α : Type} (args : Value) (name default : String) (parse : String → Run α) : Run α :=
  match argStr args name with
  | some s => parse s
  | none => parse default

/-- The tool up to the JSON of its result. -/
def toolScan (crates : Crates) (base64 : Base64Crate) (files : Files) (args : Value) :
    Run ScanResult := do
  let dumpPath ← required (argStr args "dump_path") "dump_path is required"
  let ciphertextS ← required (argStr args "ciphertext") "ciphertext is required"
  let dump ← readDump files dumpPath
  let ciphertext ← decodeBlob base64 ciphertextS
  let selection ← parseArg args "ciphers" "aes" CipherChoice.parseList
  let oracles ← parseArg args "oracles" "utf8,json" parseSpec
  let maxHits := (argU64 args "max_hits").getD 0
  let fixedIv ← hexArg args "iv"
  let nonce ← hexArg args "nonce"
  let tag ← hexArg args "tag"
  let aad ← hexArg args "aad"
  let config : ScanConfig :=
    { ciphers := selection.ciphers, mode := selection.mode, maxHits, scanIv := true, fixedIv, nonce,
      tag, aad }
  scan crates dump ciphertext oracles config

def toolKeySchedules (files : Files) (args : Value) : Run KeyScheduleResult := do
  let dumpPath ← required (argStr args "dump_path") "dump_path is required"
  let dump ← readDump files dumpPath
  scanKeySchedules dump

/-- Tool arguments that say what these options of the command line say, with the whole list of
ciphers. The tool always detects the encoding of the ciphertext and always looks for IVs. -/
structure SaysScan (args : Value) (options : ScanArgs) : Prop where
  dumpPath : argStr args "dump_path" = some options.dumpPath
  target : argStr args "ciphertext" = some options.target
  encoding : options.encoding = "auto"
  ciphers : (argStr args "ciphers").getD "aes" = options.cipher
  oracles : (argStr args "oracles").getD "utf8,json" = options.oracle
  maxHits : (argU64 args "max_hits").getD 0 = options.maxHits
  iv : argStr args "iv" = options.iv
  nonce : argStr args "nonce" = options.nonce
  tag : argStr args "tag" = options.tag
  aad : argStr args "aad" = options.aad
  ivScan : options.noIvScan = false

structure ScanRequest where
  dump : Bytes
  ciphertext : Bytes
  oracles : List Oracle
  config : ScanConfig

def ScanRequest.run (crates : Crates) (rq : ScanRequest) : Run ScanResult :=
  scan crates rq.dump rq.ciphertext rq.oracles rq.config

/-- An optional argument that is hexadecimal digits where it is given. -/
def ReadsHex (value : Option String) (bytes : Option Bytes) : Prop :=
  (value = none ∧ bytes = none) ∨ ∃ s b, value = some s ∧ Hex.decode s = some b ∧ bytes = some b

/-- Every argument can be read, and this is what they ask for. -/
structure Asks (base64 : Base64Crate) (files : Files) (q : ScanArgs) (rq : ScanRequest) : Prop where
  dump : files q.dumpPath = .ok rq.dump
  ciphertext : decodeBlob base64 q.target = .ok rq.ciphertext
  oracles : parseSpec q.oracle = .ok rq.oracles
  ciphers : CipherChoice.parseList q.cipher =
    .ok { ciphers := rq.config.ciphers, mode := rq.config.mode }
  maxHits : rq.config.maxHits = q.maxHits
  scanIv : rq.config.scanIv = !q.noIvScan
  iv : ReadsHex q.iv rq.config.fixedIv
  nonce : ReadsHex q.nonce rq.config.nonce
  tag : ReadsHex q.tag rq.config.tag
  aad : ReadsHex q.aad rq.config.aad

section Reading

theorem decodeHexArg_eq_ok {value : Option String} {message : String} {bytes : Option Bytes} :
    decodeHexArg value message = .ok bytes ↔ ReadsHex value bytes := by
  cases value with
  | none => simp [decodeHexArg, ReadsHex, eq_comm]
  | some s =>
      cases hs : Hex.decode s with
      | none => simp [decodeHexArg, ReadsHex, hs]
      | some b => simp [decodeHexArg, ReadsHex, hs, eq_comm]

theorem decodeHexArg_not_panics (value : Option String) (message : String) :
    ¬ Panics (decodeHexArg value message) := by
  unfold decodeHexArg
  split
  · exact not_panics_ok _
  · split
    · exact not_panics_ok _
    · exact not_panics_fail _

theorem parsePart_not_panics (part : List Char) : ¬ Panics (OracleSpec.parsePart part) := by
  unfold OracleSpec.parsePart
  split_ifs
  all_goals first | exact not_panics_ok _ | exact not_panics_fail _

theorem parseSpec_not_panics (spec : String) : ¬ Panics (parseSpec spec) := by
  refine not_panics_bind (not_panics_bind ?_ ?_) fun os => not_panics_ok _
  · exact not_panics_filterMapM fun part _ => parsePart_not_panics part
  · intro os
    split
    · exact not_panics_fail _
    · exact not_panics_ok _

theorem decodeBlob_not_panics (base64 : Base64Crate) (s : String) :
    ¬ Panics (decodeBlob base64 s) := by
  rw [decodeBlob_eq]
  exact required_not_panics _ _

theorem decodeCiphertext_not_panics (base64 : Base64Crate) (s : String) :
    ¬ Panics (decodeCiphertext base64 s "auto") := by
  have hauto : decodeCiphertext base64 s "auto" = (required (autoDetect base64 s)
      "could not auto-detect target as hex or base64; use --encoding" >>= fun decoded =>
        if decoded.isEmpty then fail "ciphertext is empty" else pure decoded) := rfl
  rw [hauto]
  refine not_panics_bind (required_not_panics _ _) ?_
  intro decoded
  split
  · exact not_panics_fail _
  · exact not_panics_ok _

/-- A scan that panics has run out of the keystream of a listed cipher. -/
theorem exhausted_of_scan_panics {crates : Crates} {dump ciphertext : Bytes}
    {oracles : List Oracle} {config : ScanConfig}
    (h : Panics (scan crates dump ciphertext oracles config)) :
    ∃ c ∈ config.ciphers, Fits ciphertext config c ∧ c.isStreamCipher = true ∧
      c.keystreamLimit crates < ciphertext.length := by
  obtain ⟨site, hsite⟩ := h
  rcases stop_of_scan hsite with ⟨_, m, hm⟩ | ⟨hadm, c, hc, hpart⟩
  · cases hm
  · have hout := @cipherPart_outcome crates dump ciphertext oracles config hadm.valid c hc
    rw [hpart] at hout
    generalize hr : (Except.error (Stop.panic site) : Run (Option (List Hit))) = r at hout
    cases hout with
    | exhausted hfits hstream hlong => exact ⟨c, hc, hfits, hstream, hlong⟩
    | skipped => cases hr
    | rejected => cases hr
    | found => cases hr

end Reading

section Fronts
variable {crates : Crates} {base64 : Base64Crate} {files : Files} {args : Value} {q : ScanArgs}
  {rq : ScanRequest}

theorem Asks.config_eq (h : Asks base64 files q rq) :
    rq.config =
      { ciphers := rq.config.ciphers, mode := rq.config.mode, maxHits := q.maxHits,
        scanIv := !q.noIvScan, fixedIv := rq.config.fixedIv, nonce := rq.config.nonce,
        tag := rq.config.tag, aad := rq.config.aad } := by
  rw [← h.maxHits, ← h.scanIv]

theorem runScan_of_asks (h : Asks base64 files q rq) (hauto : q.encoding = "auto")
    (hne : rq.ciphertext ≠ []) : runScan crates base64 files q = rq.run crates := by
  have hciphertext : decodeCiphertext base64 q.target q.encoding = .ok rq.ciphertext := by
    rw [hauto, decodeCiphertext_auto_eq_ok]
    exact ⟨(decodeBlob_eq_ok base64 q.target).mp h.ciphertext, hne⟩
  have hdump : readDump files q.dumpPath = .ok rq.dump := by
    rw [readDump, h.dump]
  rw [runScan, hciphertext, ok_bind, h.oracles, ok_bind, h.ciphers, ok_bind,
    decodeHexArg_eq_ok.mpr h.iv, ok_bind, decodeHexArg_eq_ok.mpr h.nonce, ok_bind,
    decodeHexArg_eq_ok.mpr h.tag, ok_bind, decodeHexArg_eq_ok.mpr h.aad, ok_bind, hdump, ok_bind,
    ScanRequest.run, h.config_eq]

theorem runScan_errs_of_empty (h : Asks base64 files q rq) (hauto : q.encoding = "auto")
    (hempty : rq.ciphertext = []) : Errs (runScan crates base64 files q) := by
  have hciphertext : Errs (decodeCiphertext base64 q.target q.encoding) := by
    rcases ok_or_errs (decodeCiphertext_not_panics base64 q.target) with ⟨v, hv⟩ | herr
    · obtain ⟨hdetect, hne⟩ := (decodeCiphertext_auto_eq_ok base64 q.target).mp hv
      have hblob := (decodeBlob_eq_ok base64 q.target).mpr hdetect
      rw [h.ciphertext, hempty] at hblob
      exact absurd (Except.ok.inj hblob).symm hne
    · rwa [hauto]
  obtain ⟨m, hm⟩ := hciphertext
  rw [runScan, hm]
  exact ⟨m, rfl⟩

theorem runScan_errs_of_not_asks (hauto : q.encoding = "auto")
    (h : ¬ ∃ rq, Asks base64 files q rq) : Errs (runScan crates base64 files q) := by
  unfold runScan
  rw [hauto]
  refine errs_bind (decodeCiphertext_not_panics base64 q.target) fun ciphertext hciphertext => ?_
  refine errs_bind (parseSpec_not_panics q.oracle) fun oracles horacles => ?_
  refine errs_bind (CipherChoice.parseList_not_panics q.cipher) fun selection hselection => ?_
  refine errs_bind (decodeHexArg_not_panics _ _) fun fixedIv hiv => ?_
  refine errs_bind (decodeHexArg_not_panics _ _) fun nonce hnonce => ?_
  refine errs_bind (decodeHexArg_not_panics _ _) fun tag htag => ?_
  refine errs_bind (decodeHexArg_not_panics _ _) fun aad haad => ?_
  refine errs_bind (readDump_not_panics files q.dumpPath) fun dump hdump => ?_
  have hdetect := ((decodeCiphertext_auto_eq_ok base64 q.target).mp hciphertext).1
  exact absurd ⟨{
      dump, ciphertext, oracles
      config := { ciphers := selection.ciphers, mode := selection.mode, maxHits := q.maxHits,
                  scanIv := !q.noIvScan, fixedIv, nonce, tag, aad } }, {
    dump := file_of_readDump hdump
    ciphertext := (decodeBlob_eq_ok base64 q.target).mpr hdetect
    oracles := horacles
    ciphers := hselection
    maxHits := rfl
    scanIv := rfl
    iv := decodeHexArg_eq_ok.mp hiv
    nonce := decodeHexArg_eq_ok.mp hnonce
    tag := decodeHexArg_eq_ok.mp htag
    aad := decodeHexArg_eq_ok.mp haad }⟩ h

theorem parseArg_eq {α : Type} (args : Value) (name default : String) (parse : String → Run α) :
    parseArg args name default parse = parse ((argStr args name).getD default) := by
  unfold parseArg
  cases argStr args name <;> rfl

/-- The tool on arguments that say `q`, with the order of its own checks. -/
theorem toolScan_said (hargs : SaysScan args q) :
    toolScan crates base64 files args = (do
      let dump ← readDump files q.dumpPath
      let ciphertext ← decodeBlob base64 q.target
      let selection ← CipherChoice.parseList q.cipher
      let oracles ← parseSpec q.oracle
      let fixedIv ← decodeHexArg q.iv ("invalid " ++ "iv" ++ " hex")
      let nonce ← decodeHexArg q.nonce ("invalid " ++ "nonce" ++ " hex")
      let tag ← decodeHexArg q.tag ("invalid " ++ "tag" ++ " hex")
      let aad ← decodeHexArg q.aad ("invalid " ++ "aad" ++ " hex")
      scan crates dump ciphertext oracles
        { ciphers := selection.ciphers, mode := selection.mode, maxHits := q.maxHits,
          scanIv := !q.noIvScan, fixedIv, nonce, tag, aad }) := by
  rw [toolScan, hargs.dumpPath, hargs.target, parseArg_eq, hargs.ciphers, parseArg_eq,
    hargs.oracles, hargs.maxHits,
    hexArg, hexArg, hexArg, hexArg, hargs.iv, hargs.nonce, hargs.tag, hargs.aad, hargs.ivScan]
  rfl

theorem toolScan_of_asks (hargs : SaysScan args q) (h : Asks base64 files q rq) :
    toolScan crates base64 files args = rq.run crates := by
  have hdump : readDump files q.dumpPath = .ok rq.dump := by
    rw [readDump, h.dump]
  rw [toolScan_said hargs, hdump, ok_bind, h.ciphertext, ok_bind, h.ciphers, ok_bind, h.oracles,
    ok_bind, decodeHexArg_eq_ok.mpr h.iv, ok_bind, decodeHexArg_eq_ok.mpr h.nonce, ok_bind,
    decodeHexArg_eq_ok.mpr h.tag, ok_bind, decodeHexArg_eq_ok.mpr h.aad, ok_bind, ScanRequest.run,
    h.config_eq]

theorem toolScan_errs_of_not_asks (hargs : SaysScan args q)
    (h : ¬ ∃ rq, Asks base64 files q rq) : Errs (toolScan crates base64 files args) := by
  rw [toolScan_said hargs]
  refine errs_bind (readDump_not_panics files q.dumpPath) fun dump hdump => ?_
  refine errs_bind (decodeBlob_not_panics base64 q.target) fun ciphertext hciphertext => ?_
  refine errs_bind (CipherChoice.parseList_not_panics q.cipher) fun selection hselection => ?_
  refine errs_bind (parseSpec_not_panics q.oracle) fun oracles horacles => ?_
  refine errs_bind (decodeHexArg_not_panics _ _) fun fixedIv hiv => ?_
  refine errs_bind (decodeHexArg_not_panics _ _) fun nonce hnonce => ?_
  refine errs_bind (decodeHexArg_not_panics _ _) fun tag htag => ?_
  refine errs_bind (decodeHexArg_not_panics _ _) fun aad haad => ?_
  exact absurd ⟨{
      dump, ciphertext, oracles
      config := { ciphers := selection.ciphers, mode := selection.mode, maxHits := q.maxHits,
                  scanIv := !q.noIvScan, fixedIv, nonce, tag, aad } }, {
    dump := file_of_readDump hdump
    ciphertext := hciphertext
    oracles := horacles
    ciphers := hselection
    maxHits := rfl
    scanIv := rfl
    iv := decodeHexArg_eq_ok.mp hiv
    nonce := decodeHexArg_eq_ok.mp hnonce
    tag := decodeHexArg_eq_ok.mp htag
    aad := decodeHexArg_eq_ok.mp haad }⟩ h

/-- Without a ciphertext a scan returns only where it looks at no cipher. -/
theorem scan_empty_errs_iff {dump : Bytes} {oracles : List Oracle} {config : ScanConfig} :
    Errs (scan crates dump [] oracles config) ↔
      ¬ (Admitted oracles config ∧ ∀ c ∈ config.ciphers, ¬ Reaches dump c) := by
  constructor
  · rintro herr ⟨hadm, hnone⟩
    obtain ⟨r, hr, _⟩ := @scan_of_not_reaches crates dump [] oracles config hadm hnone
    rw [hr] at herr
    exact not_errs_ok r herr
  · intro h
    have hunfit : ∀ c, ¬ Fits [] config c := fun c hfits => hfits.1 rfl
    by_cases hadm : Admitted oracles config
    · have hpanics : ¬ Panics (scan crates dump [] oracles config) := by
        intro hpanics
        obtain ⟨c, _, hfits, _⟩ := exhausted_of_scan_panics hpanics
        exact hunfit c hfits
      rcases ok_or_errs hpanics with ⟨r, hr⟩ | herr
      · refine absurd ⟨hadm, ?_⟩ h
        intro c hc hreach
        have hnil : r.hits = [] := by
          refine List.eq_nil_iff_forall_not_mem.mpr fun hit hmem => ?_
          obtain ⟨d, _, _, hfits, _⟩ := hit_of_scan hr hmem
          exact hunfit d hfits
        have hshort : config.maxHits = 0 ∨ r.hits.length < config.maxHits := by
          rw [hnil]
          exact Nat.eq_zero_or_pos _
        obtain ⟨part, hpart⟩ := Collect.parts_ok_of_collect_short hshort (collect_of_scan hr) c hc
        obtain ⟨m, hm⟩ := @scanCipher_errs crates dump [] oracles config c hreach (hunfit c)
        rw [cipherPart, hm] at hpart
        cases hpart
      · exact herr
    · exact scan_of_not_admitted hadm

end Fronts

/-- Two front ends give one answer: the same result, or an error each in its own words. -/
def SameAnswer {α : Type} (r s : Run α) : Prop := r = s ∨ (Errs r ∧ Errs s)

/-- A list that selects what its first item selects: the command, which gets no more of it, reads the
same requests. -/
theorem asks_handed_iff {base64 : Base64Crate} {files : Files} {options : ScanArgs}
    (hlist : SameAnswer (CipherChoice.parseList options.cipher)
      (CipherChoice.parseList options.handed.cipher)) (rq : ScanRequest) :
    Asks base64 files options.handed rq ↔ Asks base64 files options rq := by
  have hciphers : ∀ selection, CipherChoice.parseList options.handed.cipher = .ok selection ↔
      CipherChoice.parseList options.cipher = .ok selection := by
    intro selection
    rcases hlist with heq | ⟨herr, herr'⟩
    · rw [heq]
    · refine iff_of_false (fun h => ?_) (fun h => ?_)
      · rw [h] at herr'
        exact not_errs_ok _ herr'
      · rw [h] at herr
        exact not_errs_ok _ herr
  constructor
  · exact fun h => { h with ciphers := (hciphers _).mp h.ciphers }
  · exact fun h => { h with ciphers := (hciphers _).mpr h.ciphers }

/-- Where the list of ciphers selects what its first item selects, which is all that the command line
parser hands over of it, the scan tool answers as the scan command does, unless the ciphertext decodes
to nothing, the request is in order otherwise, and the dump is too short for every listed cipher: that
the command rejects, and the tool reports no hits. -/
theorem scan_fronts_agree_iff (crates : Crates) (base64 : Base64Crate) (files : Files)
    (args : Value) (options : ScanArgs) (hargs : SaysScan args options)
    (hlist : SameAnswer (CipherChoice.parseList options.cipher)
      (CipherChoice.parseList options.handed.cipher)) :
    SameAnswer (toolScan crates base64 files args) (runScan crates base64 files options.handed) ↔
      ¬ ∃ rq, Asks base64 files options rq ∧ rq.ciphertext = [] ∧ Admitted rq.oracles rq.config ∧
        ∀ c ∈ rq.config.ciphers, ¬ Reaches rq.dump c := by
  have hhanded := @asks_handed_iff base64 files options hlist
  have hauto : options.handed.encoding = "auto" := hargs.encoding
  constructor
  · rintro hsame ⟨rq, hasks, hempty, hadm, hnone⟩
    have hcommand := @runScan_errs_of_empty crates base64 files options.handed rq
      ((hhanded rq).mpr hasks) hauto hempty
    obtain ⟨r, hr, _⟩ := @scan_of_not_reaches crates rq.dump rq.ciphertext _ _ hadm hnone
    have htool : toolScan crates base64 files args = .ok r := (toolScan_of_asks hargs hasks).trans hr
    rcases hsame with heq | ⟨herr, _⟩
    · rw [← heq, htool] at hcommand
      exact not_errs_ok r hcommand
    · rw [htool] at herr
      exact not_errs_ok r herr
  · intro h
    by_cases hasks : ∃ rq, Asks base64 files options rq
    · obtain ⟨rq, hasks⟩ := hasks
      have htool := @toolScan_of_asks crates base64 files args options rq hargs hasks
      have hcommand := (hhanded rq).mpr hasks
      by_cases hempty : rq.ciphertext = []
      · refine .inr ⟨?_, runScan_errs_of_empty hcommand hauto hempty⟩
        rw [htool, ScanRequest.run, hempty, scan_empty_errs_iff]
        exact fun hsearched => h ⟨rq, hasks, hempty, hsearched⟩
      · exact .inl (htool.trans (runScan_of_asks hcommand hauto hempty).symm)
    · refine .inr ⟨toolScan_errs_of_not_asks hargs hasks, runScan_errs_of_not_asks hauto ?_⟩
      rintro ⟨rq, hcommand⟩
      exact hasks ⟨rq, (hhanded rq).mp hcommand⟩

def oneFileRequest (ciphers : String) : Value :=
  .object [("dump_path", .string "dump.bin"), ("ciphertext", .string sampleArgs.target),
    ("ciphers", .string ciphers), ("oracles", .string "json")]

def sampleOptions : ScanArgs := { sampleArgs with encoding := "auto" }

/-- One cipher, given twice. -/
theorem scan_fronts_agree_iff_sample :
    SameAnswer (toolScan sampleCrates standardBase64 oneFile
        (oneFileRequest "aes-128,aes-128"))
      (runScan sampleCrates standardBase64 oneFile
        ({ sampleOptions with cipher := "aes-128,aes-128" }).handed) := by
  refine (scan_fronts_agree_iff sampleCrates standardBase64 oneFile
    (oneFileRequest "aes-128,aes-128") { sampleOptions with cipher := "aes-128,aes-128" }
    ?_ (.inl (by decide +kernel))).mpr ?_
  · exact ⟨rfl, rfl, rfl, rfl, rfl, rfl, rfl, rfl, rfl, rfl, rfl⟩
  · rintro ⟨rq, hasks, hempty, -⟩
    have hdecode : decodeBlob standardBase64 sampleArgs.target ≠ .ok [] := by decide +kernel
    rw [← hempty] at hdecode
    exact hdecode hasks.ciphertext

-- Two ciphers that cannot be searched together: the tool refuses them, and the command finds a key
-- with the first.
example : (toolScan sampleCrates standardBase64 oneFile
      (oneFileRequest "aes-128,chacha20")).isOk = false ∧
    ((runScan sampleCrates standardBase64 oneFile
      ({ sampleOptions with cipher := "aes-128,chacha20" }).handed).map fun r =>
        r.hits.length) = .ok 1 := by
  decide +kernel

end Memhunt
