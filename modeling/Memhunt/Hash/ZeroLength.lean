import Memhunt.Hash.Fronts

/-! Where the hash searches panic. Slices have no windows of length zero, and only the tool checks; a
list of lengths without room is checked nowhere. -/
namespace Memhunt
open Rust
open Json (Value)

section Searches
variable {crates : HashCrates} {dump target message : Bytes} {config : HashScanConfig}
  {algos : List HashAlgoSpec} {algo : HashAlgoSpec}

theorem scanPreimages_panics_iff :
    Panics (scanPreimages crates dump target (algo :: algos) config) ↔
      config.lengths.min = 0 ∧ target.length = algo.outputLen := by
  by_cases hmin : config.lengths.min = 0
  · by_cases hlen : target.length = algo.outputLen
    · have hsome : target.isEmpty = false := by simpa using ne_nil_of_length hlen
      refine iff_of_true ?_ ⟨hmin, hlen⟩
      simp only [scanPreimages, hsome, Bool.false_eq_true, if_false, preimageLoop]
      exact panics_bind (panics_bind (preimagesOf_zero hmin hlen) _) _
    · exact iff_of_false (not_panics_of_errs ((scanPreimages_zero_errs_iff hmin).mpr hlen))
        fun h => hlen h.2
  · exact iff_of_false (scanPreimages_not_panics (Nat.pos_of_ne_zero hmin)) fun h => hmin h.1

end Searches

/-- The arguments are in order as far as they are checked, and the first algorithm has the length
of the digest. -/
def HashArgs.Reaches (q : HashArgs) (files : Files) : Prop :=
  ∃ digest dump algo rest, Hex.decode q.digest = some digest ∧ files q.dumpPath = .ok dump ∧
    HashAlgoSpec.parse q.algos = .ok (algo :: rest) ∧ digest.length = algo.outputLen ∧
    (q.mode = "preimage" ∨ q.mode = "hmac_key" ∧ q.message ≠ none)

section Fronts
variable {crates : HashCrates} {files : Files} {q : HashArgs} {args : Value}

theorem decodeDigest_not_panics (digest : String) : ¬ Panics (decodeDigest digest) := by
  unfold decodeDigest
  split
  · exact not_panics_ok _
  · exact not_panics_fail _

theorem readDump_not_panics (files : Files) (dumpPath : String) :
    ¬ Panics (readDump files dumpPath) := by
  unfold readDump
  split
  · exact not_panics_ok _
  · exact not_panics_fail _

theorem decode_of_decodeDigest {text : String} {digest : Bytes}
    (h : decodeDigest text = .ok digest) : Hex.decode text = some digest := by
  cases hdecode : Hex.decode text with
  | none => simp [decodeDigest, hdecode] at h
  | some bytes => simpa [decodeDigest, hdecode] using h

theorem file_of_readDump {dumpPath : String} {dump : Bytes}
    (h : readDump files dumpPath = .ok dump) : files dumpPath = .ok dump := by
  cases hread : files dumpPath with
  | error e => simp [readDump, hread] at h
  | ok bytes => simpa [readDump, hread] using h

theorem required_not_panics {α : Type} (arg : Option α) (message : String) :
    ¬ Panics (required arg message) := by
  unfold required
  split
  · exact not_panics_ok _
  · exact not_panics_fail _

/-- Panics of a search that the range of the request leads to. -/
def HashArgs.Hazard (q : HashArgs) : Prop :=
  q.minLen = 0 ∨ q.mode = "hmac_key" ∧ ¬ q.config.lengths.Room

theorem runHash_panics_of_reaches (hhazard : q.Hazard) (h : q.Reaches files) :
    Panics (runHash crates files q) := by
  obtain ⟨digest, dump, algo, rest, hdigest, hread, hparse, hlen, hmode⟩ := h
  rcases hmode with hmode | ⟨hmode, hmessage⟩
  · have hmin : q.minLen = 0 := by
      rcases hhazard with hmin | ⟨hkey, _⟩
      · exact hmin
      · rw [hmode] at hkey
        exact absurd hkey (by decide)
    rw [runHash_preimage hread hdigest hparse hmode]
    exact scanPreimages_panics_iff.mpr ⟨hmin, hlen⟩
  · obtain ⟨msg, hmsg⟩ := Option.ne_none_iff_exists'.mp hmessage
    rw [runHash_hmacKey hread hdigest hparse hmode, hmsg]
    exact scanHmacKeys_panics_iff.mpr ⟨hhazard.imp_right And.right, hlen⟩

theorem reaches_of_runHash_panics (h : Panics (runHash crates files q)) :
    q.Hazard ∧ q.Reaches files := by
  obtain ⟨digest, hdigest, h⟩ := ok_of_panics_bind h (decodeDigest_not_panics _)
  obtain ⟨dump, hread, h⟩ := ok_of_panics_bind h (readDump_not_panics _ _)
  have hdecode := decode_of_decodeDigest hdigest
  have hfile := file_of_readDump hread
  dsimp only at h
  split at h
  · rename_i hmode
    obtain ⟨algos, hparse, h⟩ := ok_of_panics_bind h (HashAlgoSpec.parse_not_panics _)
    obtain ⟨algo, rest, rfl⟩ := List.exists_cons_of_ne_nil (HashAlgoSpec.parse_ne_nil hparse)
    obtain ⟨hmin, hlen⟩ := scanPreimages_panics_iff.mp h
    exact ⟨.inl hmin, digest, dump, algo, rest, hdecode, hfile, hparse, hlen, .inl hmode⟩
  split at h
  · rename_i hmode
    obtain ⟨algos, hparse, h⟩ := ok_of_panics_bind h (HashAlgoSpec.parse_not_panics _)
    obtain ⟨algo, rest, rfl⟩ := List.exists_cons_of_ne_nil (HashAlgoSpec.parse_ne_nil hparse)
    cases hmessage : q.message with
    | none =>
        simp only [List.head?_cons, hmessage] at h
        exact absurd h (not_panics_fail _)
    | some msg =>
        simp only [List.head?_cons, hmessage] at h
        obtain ⟨hrange, hlen⟩ := scanHmacKeys_panics_iff.mp h
        refine ⟨hrange.imp_right (⟨hmode, ·⟩), digest, dump, algo, rest, hdecode, hfile, hparse,
          hlen, .inr ⟨hmode, ?_⟩⟩
        rw [hmessage]
        exact Option.some_ne_none msg
  · exact absurd h (not_panics_fail _)

/-- The range that a call of the tool asks for. -/
def toolLengths (args : Value) : LengthRange :=
  { min := (argU64 args "min_len").getD 8, max := (argU64 args "max_len").getD 128 }

theorem toolHashScan_not_panics
    (hroom : argStr args "mode" = some "hmac_key" → (toolLengths args).Room) :
    ¬ Panics (toolHashScan crates files args) := by
  intro h
  obtain ⟨dumpPath, _, h⟩ := ok_of_panics_bind h (required_not_panics _ _)
  obtain ⟨mode, hmode, h⟩ := ok_of_panics_bind h (required_not_panics _ _)
  obtain ⟨digestS, _, h⟩ := ok_of_panics_bind h (required_not_panics _ _)
  obtain ⟨digest, _, h⟩ := ok_of_panics_bind h (decodeDigest_not_panics _)
  obtain ⟨dump, _, h⟩ := ok_of_panics_bind h (readDump_not_panics _ _)
  dsimp only at h
  split at h
  · exact absurd h (not_panics_fail _)
  rename_i hrange
  have hmin : 1 ≤ (toolLengths args).min := Nat.not_lt.mp fun hlt => hrange (.inl hlt)
  split at h
  · split at h
    · obtain ⟨algos, _, h⟩ := ok_of_panics_bind h (HashAlgoSpec.parse_not_panics _)
      exact scanPreimages_not_panics hmin h
    · exact scanPreimages_not_panics hmin h
  split at h
  · rename_i hkey
    obtain ⟨algoS, _, h⟩ := ok_of_panics_bind h (required_not_panics _ _)
    obtain ⟨algos, _, h⟩ := ok_of_panics_bind h (HashAlgoSpec.parse_not_panics _)
    split at h
    · obtain ⟨message, _, h⟩ := ok_of_panics_bind h (required_not_panics _ _)
      exact scanHmacKeys_not_panics hmin (hroom (required_eq_ok.mp (hkey ▸ hmode))) h
    · exact absurd h (not_panics_fail _)
  · exact absurd h (not_panics_fail _)

theorem hashExitCode_iff (r : Run HashScanResult) :
    (∃ result, r = .ok result) ∨ hashExitCode r = 2 ↔ ¬ Panics r := by
  rcases r with s | result
  · cases s with
    | err m => exact iff_of_true (.inr rfl) (not_panics_fail m)
    | panic site =>
        refine iff_of_false ?_ (not_not_intro ⟨site, rfl⟩)
        rintro (⟨_, h⟩ | h) <;> cases h
  · exact iff_of_true (.inl ⟨result, rfl⟩) (not_panics_ok result)

end Fronts

/-- A search whose target has the length of the first algorithm panics exactly where its range begins
at zero or, if it is for keys, where there is no room for its lengths, and with it the hash command.
The hash tool refuses the first; it panics at most where a key search has no room. -/
theorem hash_scans_return_iff (crates : HashCrates) (dump target message : Bytes)
    (config : HashScanConfig) (algo : HashAlgoSpec) (others : List HashAlgoSpec) (files : Files)
    (q : HashArgs) (args : Value) :
    (¬ Panics (scanPreimages crates dump target (algo :: others) config) ↔
      1 ≤ config.lengths.min ∨ target.length ≠ algo.outputLen) ∧
    (¬ Panics (scanHmacKeys crates dump algo message target config) ↔
      (1 ≤ config.lengths.min ∧ config.lengths.Room) ∨ target.length ≠ algo.outputLen) ∧
    ((∃ result, runHash crates files q = .ok result) ∨
        hashExitCode (runHash crates files q) = 2 ↔
      (1 ≤ q.minLen ∧ (q.mode = "hmac_key" → q.config.lengths.Room)) ∨ ¬ q.Reaches files) ∧
    ((argStr args "mode" = some "hmac_key" → (toolLengths args).Room) →
      ¬ Panics (toolHashScan crates files args)) := by
  refine ⟨?_, ?_, ?_, toolHashScan_not_panics⟩
  · rw [scanPreimages_panics_iff, not_and_or, Nat.one_le_iff_ne_zero]
  · rw [scanHmacKeys_panics_iff, not_and_or, not_or, not_not, Nat.one_le_iff_ne_zero]
  · have hpanics : Panics (runHash crates files q) ↔ q.Hazard ∧ q.Reaches files :=
      ⟨reaches_of_runHash_panics, fun h => runHash_panics_of_reaches h.1 h.2⟩
    rw [hashExitCode_iff, hpanics, not_and_or, HashArgs.Hazard, not_or, not_and, not_not,
      Nat.one_le_iff_ne_zero]

/-- Both searches, and the command, from length zero on. -/
theorem zero_length_panics :
    Panics (scanPreimages sampleHashes [] (List.replicate 16 0) [.md5]
      { lengths := { min := 0, max := 0 }, maxHits := 0 }) ∧
    Panics (scanHmacKeys sampleHashes [] .md5 [] (List.replicate 16 0)
      { lengths := { min := 0, max := 0 }, maxHits := 0 }) ∧
    hashExitCode (runHash sampleHashes sampleFiles { samplePreimage with minLen := 0 }) = 101 := by
  refine ⟨⟨.zeroSize, ?_⟩, ⟨.zeroSize, ?_⟩, ?_⟩
  · decide +kernel
  · decide +kernel
  · decide +kernel

end Memhunt
