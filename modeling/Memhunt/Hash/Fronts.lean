import Memhunt.Hash.Outcome
import Memhunt.Mcp.Tools

/-! The hash command and the hash tool on one request: where their argument checks decide alike. -/
namespace Memhunt
open Rust
open Json (Value)

/-- Tool arguments that say what the command line says, without a limit. -/
structure Carries (args : Value) (q : HashArgs) : Prop where
  dumpPath : argStr args "dump_path" = some q.dumpPath
  mode : argStr args "mode" = some q.mode
  digest : argStr args "digest" = some q.digest
  algos : argStr args "algos" = some q.algos
  message : argStr args "message" = q.message
  minLen : argU64 args "min_len" = some q.minLen
  maxLen : argU64 args "max_len" = some q.maxLen
  maxHits : (argU64 args "max_hits").getD 0 = 0

namespace HashArgs

def config (q : HashArgs) : HashScanConfig :=
  { lengths := { min := q.minLen, max := q.maxLen }, maxHits := 0 }

def RangeOk (q : HashArgs) : Prop := 1 ≤ q.minLen ∧ q.minLen ≤ q.maxLen

/-- The first algorithm does not have the length of the digest. -/
def FirstDiffers (digest : Bytes) (algos : List HashAlgoSpec) : Prop :=
  ∀ algo ∈ algos.head?, digest.length ≠ algo.outputLen

/-- What the command does not check itself fails in the search all the same, or is in order. A list of
lengths that has no room is nothing that either of them checks. -/
def Uncontested (q : HashArgs) : Prop :=
  ∀ digest algos, Hex.decode q.digest = some digest → HashAlgoSpec.parse q.algos = .ok algos →
    (q.mode = "preimage" → q.RangeOk ∨
      (q.maxLen < q.minLen ∧ ∃ algo ∈ algos, digest.length ≠ algo.outputLen) ∨
      (q.minLen = 0 ∧ FirstDiffers digest algos)) ∧
    (q.mode = "hmac_key" → q.message = none ∨ FirstDiffers digest algos ∨
      (q.RangeOk ∧ algos.length = 1 ∧ q.config.lengths.Room))

instance (q : HashArgs) : Decidable q.RangeOk :=
  inferInstanceAs (Decidable (1 ≤ q.minLen ∧ q.minLen ≤ q.maxLen))

theorem rangeOk_iff (q : HashArgs) :
    q.RangeOk ↔ ¬ (q.minLen < 1 ∨ q.maxLen < q.minLen) := by
  unfold RangeOk
  omega

end HashArgs

theorem hmacKey_ne_preimage : ¬ ("hmac_key" = "preimage") := by decide

section Fronts
variable {crates : HashCrates} {files : Files} {q : HashArgs} {args : Value} {dump digest : Bytes}

theorem decodeDigest_ok (hdigest : Hex.decode q.digest = some digest) :
    decodeDigest q.digest = .ok digest := by
  rw [decodeDigest, hdigest]

theorem readDump_ok (hread : files q.dumpPath = .ok dump) : readDump files q.dumpPath = .ok dump := by
  rw [readDump, hread]

theorem runHash_preimage (hread : files q.dumpPath = .ok dump)
    (hdigest : Hex.decode q.digest = some digest) {algos : List HashAlgoSpec}
    (hparse : HashAlgoSpec.parse q.algos = .ok algos) (hmode : q.mode = "preimage") :
    runHash crates files q = scanPreimages crates dump digest algos q.config := by
  simp only [runHash, decodeDigest_ok hdigest, readDump_ok hread, ok_bind, hmode, if_true, hparse]
  rfl

theorem runHash_hmacKey (hread : files q.dumpPath = .ok dump)
    (hdigest : Hex.decode q.digest = some digest) {algo : HashAlgoSpec} {rest : List HashAlgoSpec}
    (hparse : HashAlgoSpec.parse q.algos = .ok (algo :: rest)) (hmode : q.mode = "hmac_key") :
    runHash crates files q = match q.message with
      | none => fail "--message is required for hmac_key mode"
      | some msg => scanHmacKeys crates dump algo (utf8Bytes msg) digest q.config := by
  simp only [runHash, decodeDigest_ok hdigest, readDump_ok hread, ok_bind, hmode,
    if_neg hmacKey_ne_preimage, if_true, hparse, List.head?_cons]
  rfl

theorem toolHashScan_range (hargs : Carries args q) (hread : files q.dumpPath = .ok dump)
    (hdigest : Hex.decode q.digest = some digest) (hrange : ¬ q.RangeOk) :
    Errs (toolHashScan crates files args) := by
  have hbad : q.minLen < 1 ∨ q.maxLen < q.minLen := not_not.mp (mt q.rangeOk_iff.mpr hrange)
  simp only [toolHashScan, hargs.dumpPath, hargs.mode, hargs.digest, hargs.minLen, hargs.maxLen,
    required, ok_bind, decodeDigest_ok hdigest, readDump_ok hread, Option.getD_some, if_pos hbad]
  exact errs_fail _

theorem toolHashScan_preimage (hargs : Carries args q) (hread : files q.dumpPath = .ok dump)
    (hdigest : Hex.decode q.digest = some digest) {algos : List HashAlgoSpec}
    (hparse : HashAlgoSpec.parse q.algos = .ok algos) (hmode : q.mode = "preimage")
    (hrange : q.RangeOk) :
    toolHashScan crates files args = scanPreimages crates dump digest algos q.config := by
  have hgood := q.rangeOk_iff.mp hrange
  simp only [toolHashScan, hargs.dumpPath, hargs.mode, hargs.digest, hargs.algos, hargs.minLen,
    hargs.maxLen, hargs.maxHits, required, ok_bind, decodeDigest_ok hdigest, readDump_ok hread,
    Option.getD_some, if_neg hgood, hmode, if_true, hparse]
  rfl

theorem toolHashScan_hmacKey (hargs : Carries args q) (hread : files q.dumpPath = .ok dump)
    (hdigest : Hex.decode q.digest = some digest) {algo : HashAlgoSpec}
    (hparse : HashAlgoSpec.parse q.algos = .ok [algo]) (hmode : q.mode = "hmac_key")
    (hrange : q.RangeOk) :
    toolHashScan crates files args = match q.message with
      | none => fail "message is required for hmac_key mode"
      | some msg => scanHmacKeys crates dump algo (utf8Bytes msg) digest q.config := by
  have hgood := q.rangeOk_iff.mp hrange
  simp only [toolHashScan, hargs.dumpPath, hargs.mode, hargs.digest, hargs.algos, hargs.minLen,
    hargs.maxLen, hargs.maxHits, hargs.message, required, ok_bind, decodeDigest_ok hdigest,
    readDump_ok hread, Option.getD_some, if_neg hgood, hmode, if_neg hmacKey_ne_preimage, if_true,
    hparse]
  cases q.message with
  | none => rfl
  | some msg => rfl

/-- The tool wants one algorithm for a key search, where the command takes the first. -/
theorem toolHashScan_several (hargs : Carries args q) (hread : files q.dumpPath = .ok dump)
    (hdigest : Hex.decode q.digest = some digest) {algos : List HashAlgoSpec}
    (hparse : HashAlgoSpec.parse q.algos = .ok algos) (hmode : q.mode = "hmac_key")
    (hseveral : algos.length ≠ 1) : Errs (toolHashScan crates files args) := by
  by_cases hrange : q.RangeOk
  · have hgood := q.rangeOk_iff.mp hrange
    simp only [toolHashScan, hargs.dumpPath, hargs.mode, hargs.digest, hargs.algos, hargs.minLen,
      hargs.maxLen, hargs.maxHits, required, ok_bind, decodeDigest_ok hdigest,
      readDump_ok hread, Option.getD_some, if_neg hgood, hmode, if_neg hmacKey_ne_preimage,
      if_true, hparse]
    split
    · exact absurd rfl hseveral
    · exact errs_fail _
  · exact toolHashScan_range hargs hread hdigest hrange

theorem fronts_reject_digest (hargs : Carries args q) (hdigest : Hex.decode q.digest = none) :
    Errs (runHash crates files q) ∧ Errs (toolHashScan crates files args) := by
  have hfail : decodeDigest q.digest = fail "digest must be hex" := by
    rw [decodeDigest, hdigest]
  constructor
  · rw [runHash, hfail]
    exact errs_fail _
  · simp only [toolHashScan, hargs.dumpPath, hargs.mode, hargs.digest, required, ok_bind, hfail]
    exact errs_fail _

theorem fronts_reject_mode (hargs : Carries args q) (hread : files q.dumpPath = .ok dump)
    (hdigest : Hex.decode q.digest = some digest) (hpreimage : q.mode ≠ "preimage")
    (hkey : q.mode ≠ "hmac_key") :
    Errs (runHash crates files q) ∧ Errs (toolHashScan crates files args) := by
  constructor
  · simp only [runHash, decodeDigest_ok hdigest, readDump_ok hread, ok_bind, if_neg hpreimage,
      if_neg hkey]
    exact errs_fail _
  · simp only [toolHashScan, hargs.dumpPath, hargs.mode, hargs.digest, required, ok_bind,
      decodeDigest_ok hdigest, readDump_ok hread, if_neg hpreimage, if_neg hkey]
    split
    · exact errs_fail _
    · exact errs_fail _

theorem fronts_reject_algos (hargs : Carries args q) (hread : files q.dumpPath = .ok dump)
    (hdigest : Hex.decode q.digest = some digest) (hparse : Errs (HashAlgoSpec.parse q.algos)) :
    Errs (runHash crates files q) ∧ Errs (toolHashScan crates files args) := by
  obtain ⟨m, hm⟩ := hparse
  constructor
  · simp only [runHash, decodeDigest_ok hdigest, readDump_ok hread, ok_bind, hm, error_bind]
    split
    · exact errs_fail m
    split
    · exact errs_fail m
    · exact errs_fail _
  · simp only [toolHashScan, hargs.dumpPath, hargs.mode, hargs.digest, hargs.algos, required,
      ok_bind, decodeDigest_ok hdigest, readDump_ok hread, hm, error_bind]
    split
    · exact errs_fail _
    split
    · exact errs_fail m
    split
    · exact errs_fail m
    · exact errs_fail _

theorem preimage_fronts_iff (hargs : Carries args q) (hread : files q.dumpPath = .ok dump)
    (hdigest : Hex.decode q.digest = some digest) {algos : List HashAlgoSpec}
    (hparse : HashAlgoSpec.parse q.algos = .ok algos) (hmode : q.mode = "preimage") :
    Agree HashScanResult.hits HashScanResult.hits (runHash crates files q)
        (toolHashScan crates files args) ↔
      q.RangeOk ∨ (q.maxLen < q.minLen ∧ ∃ algo ∈ algos, digest.length ≠ algo.outputLen) ∨
        (q.minLen = 0 ∧ HashArgs.FirstDiffers digest algos) := by
  have hrun := @runHash_preimage crates files q dump digest hread hdigest algos hparse hmode
  have hne := HashAlgoSpec.parse_ne_nil hparse
  by_cases hrange : q.RangeOk
  · have hmin : 1 ≤ q.config.lengths.min := hrange.1
    rw [hrun, toolHashScan_preimage hargs hread hdigest hparse hmode hrange]
    exact iff_of_true (agree_self (scanPreimages_not_panics hmin)) (.inl hrange)
  · rw [agree_iff_of_errs (toolHashScan_range hargs hread hdigest hrange), hrun]
    unfold HashArgs.RangeOk at hrange ⊢
    rcases Nat.eq_zero_or_pos q.minLen with hzero | hpos
    · obtain ⟨algo, rest, rfl⟩ := List.exists_cons_of_ne_nil hne
      have hmin : q.config.lengths.min = 0 := hzero
      rw [scanPreimages_zero_errs_iff hmin, hzero]
      simp [HashArgs.FirstDiffers]
    · have hmin : 1 ≤ q.config.lengths.min := hpos
      rw [scanPreimages_errs_iff hmin rfl hne]
      have hinverted : q.maxLen < q.minLen := by omega
      have hnonzero : q.minLen ≠ 0 := by omega
      simp only [hrange, hinverted, hnonzero, true_and, false_or, false_and, or_false]

theorem hmacKey_fronts_iff (hargs : Carries args q) (hread : files q.dumpPath = .ok dump)
    (hdigest : Hex.decode q.digest = some digest) {algos : List HashAlgoSpec}
    (hparse : HashAlgoSpec.parse q.algos = .ok algos) (hmode : q.mode = "hmac_key") :
    Agree HashScanResult.hits HashScanResult.hits (runHash crates files q)
        (toolHashScan crates files args) ↔
      q.message = none ∨ HashArgs.FirstDiffers digest algos ∨
        (q.RangeOk ∧ algos.length = 1 ∧ q.config.lengths.Room) := by
  obtain ⟨algo, rest, rfl⟩ := List.exists_cons_of_ne_nil (HashAlgoSpec.parse_ne_nil hparse)
  have hrun := @runHash_hmacKey crates files q dump digest hread hdigest algo rest hparse hmode
  have hfirst : HashArgs.FirstDiffers digest (algo :: rest) ↔ digest.length ≠ algo.outputLen := by
    simp [HashArgs.FirstDiffers]
  rw [hfirst]
  by_cases hgood : q.RangeOk ∧ (algo :: rest).length = 1
  · obtain ⟨hrange, hone⟩ := hgood
    have hnil : rest = [] := by simpa using hone
    subst hnil
    rw [hrun, toolHashScan_hmacKey hargs hread hdigest hparse hmode hrange]
    cases q.message with
    | none => exact iff_of_true (.inl ⟨errs_fail _, errs_fail _⟩) (.inl rfl)
    | some msg =>
        simp only [reduceCtorEq, false_or, hrange, List.length_singleton, true_and]
        constructor
        · intro hagree
          by_contra hnot
          obtain ⟨hlen, hroom⟩ := not_or.mp hnot
          exact hagree.not_panics (scanHmacKeys_panics_iff.mpr ⟨.inr hroom, not_not.mp hlen⟩)
        · intro hor
          refine agree_self fun hpanics => ?_
          obtain ⟨hzero | hover, hlen⟩ := scanHmacKeys_panics_iff.mp hpanics
          · exact absurd hzero (Nat.ne_of_gt hrange.1)
          · exact hor.elim (· hlen) hover
  · have htool : Errs (toolHashScan crates files args) := by
      by_cases hrange : q.RangeOk
      · exact toolHashScan_several hargs hread hdigest hparse hmode
          fun hone => hgood ⟨hrange, hone⟩
      · exact toolHashScan_range hargs hread hdigest hrange
    have hgood' : ¬ (q.RangeOk ∧ (algo :: rest).length = 1 ∧ q.config.lengths.Room) :=
      fun h => hgood ⟨h.1, h.2.1⟩
    rw [agree_iff_of_errs htool, hrun]
    cases q.message with
    | none => exact iff_of_true (errs_fail _) (.inl rfl)
    | some msg =>
        simp only [reduceCtorEq, false_or, hgood', or_false]
        exact scanHmacKeys_errs_iff

end Fronts

/-- The command and the tool answer a request alike exactly where the checks that only the tool
makes, of the range and of the number of algorithms, decide nothing, and the search they then share
does not run out of room. -/
theorem hash_fronts_agree_iff (crates : HashCrates) (files : Files) (q : HashArgs) (args : Value)
    (dump : Bytes) (hargs : Carries args q) (hread : files q.dumpPath = .ok dump) :
    Agree HashScanResult.hits HashScanResult.hits (runHash crates files q)
        (toolHashScan crates files args) ↔ q.Uncontested := by
  cases hdigest : Hex.decode q.digest with
  | none =>
      refine iff_of_true (.inl (fronts_reject_digest hargs hdigest)) ?_
      intro digest algos hsome
      rw [hdigest] at hsome
      cases hsome
  | some digest =>
      rcases ok_or_errs (HashAlgoSpec.parse_not_panics q.algos) with ⟨algos, hparse⟩ | hparse
      · have huncontested : q.Uncontested ↔
            (q.mode = "preimage" → q.RangeOk ∨
              (q.maxLen < q.minLen ∧ ∃ algo ∈ algos, digest.length ≠ algo.outputLen) ∨
              (q.minLen = 0 ∧ HashArgs.FirstDiffers digest algos)) ∧
            (q.mode = "hmac_key" → q.message = none ∨ HashArgs.FirstDiffers digest algos ∨
              (q.RangeOk ∧ algos.length = 1 ∧ q.config.lengths.Room)) := by
          constructor
          · exact fun h => h digest algos hdigest hparse
          · intro h digest' algos' hdigest' hparse'
            obtain rfl := Option.some.inj (hdigest.symm.trans hdigest')
            obtain rfl := Except.ok.inj (hparse.symm.trans hparse')
            exact h
        rw [huncontested]
        by_cases hpreimage : q.mode = "preimage"
        · rw [preimage_fronts_iff hargs hread hdigest hparse hpreimage, hpreimage]
          simp
        · by_cases hkey : q.mode = "hmac_key"
          · rw [hmacKey_fronts_iff hargs hread hdigest hparse hkey, hkey]
            simp
          · exact iff_of_true (.inl (fronts_reject_mode hargs hread hdigest hpreimage hkey))
              ⟨fun h => absurd h hpreimage, fun h => absurd h hkey⟩
      · refine iff_of_true (.inl (fronts_reject_algos hargs hread hdigest hparse)) ?_
        intro _ algos _ hok
        rw [hok] at hparse
        exact absurd hparse (not_errs_ok algos)

def sampleFiles : Files := fun _ => .ok sampleDump

def samplePreimage : HashArgs where
  dumpPath := "memory.dump"
  mode := "preimage"
  digest := "8ce4b16b22b58894aa86c421e8759df3"
  algos := "md5"
  message := none
  minLen := 1
  maxLen := 1

/-- The same request with the ends of the range exchanged. -/
def sampleInverted : HashArgs := { samplePreimage with minLen := 2 }

def toolArgs (q : HashArgs) : Value :=
  .object [("dump_path", .string q.dumpPath), ("mode", .string q.mode),
    ("digest", .string q.digest), ("algos", .string q.algos),
    ("min_len", .number (.posInt (UInt64.ofNat q.minLen))),
    ("max_len", .number (.posInt (UInt64.ofNat q.maxLen)))]

theorem carries_toolArgs {q : HashArgs} (hmessage : q.message = none) (hmin : q.minLen < 2 ^ 64)
    (hmax : q.maxLen < 2 ^ 64) : Carries (toolArgs q) q where
  dumpPath := rfl
  mode := rfl
  digest := rfl
  algos := rfl
  message := hmessage ▸ rfl
  minLen := congrArg some (UInt64.toNat_ofNat_of_lt' hmin)
  maxLen := congrArg some (UInt64.toNat_ofNat_of_lt' hmax)
  maxHits := rfl

theorem hash_fronts_agree_sample :
    Agree HashScanResult.hits HashScanResult.hits (runHash sampleHashes sampleFiles samplePreimage)
      (toolHashScan sampleHashes sampleFiles (toolArgs samplePreimage)) := by
  refine (hash_fronts_agree_iff sampleHashes sampleFiles samplePreimage (toolArgs samplePreimage)
    sampleDump (carries_toolArgs rfl (by decide) (by decide)) rfl).mpr ?_
  intro digest algos _ _
  have hrange : samplePreimage.RangeOk := by decide
  have hother : ¬ samplePreimage.mode = "hmac_key" := by decide
  exact ⟨fun _ => .inl hrange, fun h => absurd h hother⟩

/-- An empty range: the command finds nothing in it, the tool refuses it. -/
theorem inverted_range_disagrees :
    ¬ Agree HashScanResult.hits HashScanResult.hits
      (runHash sampleHashes sampleFiles sampleInverted)
      (toolHashScan sampleHashes sampleFiles (toolArgs sampleInverted)) := by
  have hcli : runHash sampleHashes sampleFiles sampleInverted =
      .ok { hits := [], stats := { dumpSize := 2, candidatesTried := 0 } } := by decide +kernel
  have hmcp : Errs (toolHashScan sampleHashes sampleFiles (toolArgs sampleInverted)) := by
    refine ⟨"max_len must be >= min_len >= 1", ?_⟩
    decide +kernel
  rw [agree_iff_of_errs hmcp, hcli]
  exact not_errs_ok _

end Memhunt
