import Memhunt.Hash.Outcome
import Memhunt.Lib.Workers

/-! The hash searches with their workers: a task is a window length, whose windows one worker goes
through in order with one buffer. -/
namespace Memhunt
open Rust
open Workers (Returns Follows RoundsReturn rounds Counts roundsReturn_iff exists_map_iff)

section Lengths
variable (into : (window out : Bytes) → Run Bytes) (outputLen : Nat) (target : Bytes)
  (hit : Nat → Bytes → Nat → HashHit) (dump : Bytes)

/-- A worker takes a length: a fresh buffer, and the windows of that length. -/
def takeLength (len : Nat) : Run ((Nat × Bytes) × List (Bytes × Nat)) := do
  let out := List.replicate outputLen 0
  let candidates ← Windows.windowsOf len dump
  return ((len, out), candidates.zipIdx)

/-- One window of a length, and the buffer as the next one finds it. -/
def matchWindow (s : Nat × Bytes) (w : Bytes × Nat) : Run ((Nat × Bytes) × Option HashHit) := do
  let out ← into w.1 s.2
  return ((s.1, out), if out = target then some (hit s.1 w.1 w.2) else none)

/-- The lengths shared among workers. -/
def LengthsReturn (lengths : List Nat) (tried : Nat) (r : Run (List HashHit × Nat)) : Prop :=
  Returns (takeLength outputLen dump) (fun s w r => r = matchWindow into target hit s w) lengths
    tried r

variable {into outputLen target hit dump}

theorem items_matchWindow (len : Nat) (windows : List (Bytes × Nat)) (out : Bytes) :
    Workers.items (matchWindow into target hit) (len, out) windows =
      matchWindows into target (hit len) windows out := by
  induction windows generalizing out with
  | nil => rfl
  | cons w windows ih =>
      simp only [Workers.items, matchWindow, matchWindows]
      cases into w.1 out with
      | error s => rfl
      | ok next =>
          simp only [ok_bind, pure_eq, ih]
          cases matchWindows into target (hit len) windows next with
          | error s => rfl
          | ok found =>
              by_cases hmatch : next = target
              · simp only [if_pos hmatch, ok_bind]
                rfl
              · simp only [if_neg hmatch, ok_bind]
                rfl

theorem task_length (len : Nat) :
    Workers.task (takeLength outputLen dump) (matchWindow into target hit) len =
      scanLength into outputLen target (hit len) dump len := by
  unfold Workers.task takeLength scanLength
  cases Windows.windowsOf len dump with
  | error s => rfl
  | ok candidates => simp only [ok_bind, pure_eq, items_matchWindow, List.length_zipIdx]

theorem sequential_lengths (lengths : List Nat) :
    Workers.sequential (takeLength outputLen dump) (matchWindow into target hit) lengths =
      scanLengths lengths fun len => scanLength into outputLen target (hit len) dump len := by
  have htask : Workers.task (takeLength outputLen dump) (matchWindow into target hit) =
      fun len => scanLength into outputLen target (hit len) dump len := funext task_length
  rw [Workers.sequential, htask, scanLengths]

/-- The only failure of a length is that of windows of size zero. -/
theorem lengthsReturn_iff {value : Bytes → Bytes}
    (hinto : ∀ window out, out.length = outputLen → into window out = .ok (value window))
    (hvalue : ∀ window, (value window).length = outputLen) (lengths : List Nat) (tried : Nat)
    (r : Run (List HashHit × Nat)) :
    LengthsReturn into outputLen target hit dump lengths tried r ↔
      r = (scanLengths lengths fun len => scanLength into outputLen target (hit len) dump len).map
        fun v => (v.1, tried + v.2) := by
  have hfail : ∀ {len : Nat} {s : Stop},
      Workers.task (takeLength outputLen dump) (matchWindow into target hit) len = .error s →
        s = .panic .zeroSize := by
    intro len s hs
    rw [task_length] at hs
    rcases Nat.eq_zero_or_pos len with rfl | hpos
    · rw [scanLength_zero] at hs
      exact (Except.error.inj hs).symm
    · rw [scanLength_ok hinto hvalue dump hpos] at hs
      cases hs
  rw [← sequential_lengths]
  have htotal : ∀ s w, ∃ r, (fun r => r = matchWindow into target hit s w) r :=
    fun s w => ⟨_, rfl⟩
  refine Workers.returns_iff htotal (fun _ _ _ _ _ _ _ _ _ => Iff.rfl) ?_ r
  intro len _ len' _ s t hs ht
  rw [hfail hs, hfail ht]

end Lengths

section Searches
variable (crates : HashCrates) (dump : Bytes)

/-- The body of the loop over the algorithms, with its workers. -/
def PreimagesReturn (targetDigest : Bytes) (config : HashScanConfig) (algo : HashAlgoSpec)
    (tried : Nat) (r : Run (Option (List HashHit × Nat))) : Prop :=
  let hasher := algo.hasher crates
  if targetDigest.length ≠ hasher.outputLen then
    r = fail ("target digest length " ++ toString targetDigest.length ++ " does not match " ++
      hasher.name ++ " output length " ++ toString hasher.outputLen)
  else
    ∃ found, LengthsReturn hasher.hashInto hasher.outputLen targetDigest (fun len window offset =>
        { algo := hasher.name, kind := "preimage", offset, length := len,
          matchHex := Hex.encode window }) dump config.lengths.lengths tried found ∧
      r = found.map some

def ScanPreimagesReturns (targetDigest : Bytes) (algos : List HashAlgoSpec)
    (config : HashScanConfig) (r : Run HashScanResult) : Prop :=
  if targetDigest.isEmpty then r = fail "target digest is empty"
  else
    ∃ found, RoundsReturn config.maxHits (PreimagesReturn crates dump targetDigest config) algos []
        0 found ∧
      r = found.map fun (hits, tried) =>
        { hits, stats := { dumpSize := dump.length, candidatesTried := tried } }

/-- The lengths are gathered before the workers start. -/
def ScanHmacKeysReturns (digestAlgo : HashAlgoSpec) (knownMessage targetMac : Bytes)
    (config : HashScanConfig) (r : Run HashScanResult) : Prop :=
  let hasher := digestAlgo.hasher crates
  if targetMac.length ≠ hasher.outputLen then
    r = fail ("target MAC length " ++ toString targetMac.length ++ " does not match " ++
      hasher.name ++ " output length " ++ toString hasher.outputLen)
  else
    (∃ s, keyLengths config.lengths = .error s ∧ r = .error s) ∨
    ∃ lengths found, keyLengths config.lengths = .ok lengths ∧
      LengthsReturn (fun window out => hasher.hmacInto window knownMessage out)
        hasher.outputLen targetMac (fun len window offset =>
          { algo := hasher.name, kind := "hmac_key", offset, length := len,
            matchHex := Hex.encode window }) dump lengths 0 found ∧
      r = found.map fun (hits, tried) =>
        { hits, stats := { dumpSize := dump.length, candidatesTried := tried } }

variable {crates dump}

theorem preimages_counts (targetDigest : Bytes) (config : HashScanConfig) (algo : HashAlgoSpec) :
    Counts (PreimagesReturn crates dump targetDigest config algo)
      ((preimagesOf crates dump targetDigest config algo).map some) := by
  intro tried r
  unfold PreimagesReturn preimagesOf
  by_cases hlen : targetDigest.length ≠ (algo.hasher crates).outputLen
  · simp only [if_pos hlen]
    exact Iff.rfl
  · simp only [if_neg hlen]
    have hinto : ∀ window out, out.length = (algo.hasher crates).outputLen →
        (algo.hasher crates).hashInto window out = .ok (algo.digest crates window) :=
      fun window out hout => HashAlgoSpec.hashInto_ok crates algo
        (hout.trans (HashAlgoSpec.hasher_outputLen crates algo))
    have hvalue : ∀ window, (algo.digest crates window).length = (algo.hasher crates).outputLen := by
      intro window
      rw [HashAlgoSpec.length_digest, HashAlgoSpec.hasher_outputLen]
    refine (exists_map_iff (lengthsReturn_iff hinto hvalue _ tried) r).trans ?_
    cases scanLengths config.lengths.lengths _ <;> exact Iff.rfl

theorem preimageLoop_eq_rounds (targetDigest : Bytes) (config : HashScanConfig)
    (algos : List HashAlgoSpec) (hits : List HashHit) (tried : Nat) :
    preimageLoop crates dump targetDigest config algos hits tried =
      rounds config.maxHits (fun algo =>
        (preimagesOf crates dump targetDigest config algo).map some) algos hits tried := by
  induction algos generalizing hits tried with
  | nil => rfl
  | cons algo algos ih =>
      unfold preimageLoop rounds
      cases preimagesOf crates dump targetDigest config algo with
      | error s => rfl
      | ok found => simp only [ok_bind, ih, Except.map]

/-- In every order in which the workers move, both searches return what they return alone: the hits
by length and then by offset, every window counted, and the same failure if there is one. -/
theorem hash_scans_whatever_the_schedule (crates : HashCrates) (dump target message : Bytes)
    (algos : List HashAlgoSpec) (algo : HashAlgoSpec) (config : HashScanConfig)
    (r : Run HashScanResult) :
    (ScanPreimagesReturns crates dump target algos config r ↔
      r = scanPreimages crates dump target algos config) ∧
    (ScanHmacKeysReturns crates dump algo message target config r ↔
      r = scanHmacKeys crates dump algo message target config) := by
  constructor
  · unfold ScanPreimagesReturns scanPreimages
    cases target.isEmpty with
    | true => exact Iff.rfl
    | false =>
        simp only [Bool.false_eq_true, if_false]
        rw [preimageLoop_eq_rounds]
        refine (exists_map_iff (roundsReturn_iff config.maxHits
          (fun algo _ => preimages_counts target config algo) [] 0) r).trans ?_
        cases rounds config.maxHits _ algos [] 0 <;> exact Iff.rfl
  · unfold ScanHmacKeysReturns scanHmacKeys
    by_cases hlen : target.length ≠ (algo.hasher crates).outputLen
    · simp only [if_pos hlen]
    · simp only [if_neg hlen]
      have hinto : ∀ window out, out.length = (algo.hasher crates).outputLen →
          (algo.hasher crates).hmacInto window message out =
            .ok (algo.hmac crates window message) :=
        fun window out hout => HashAlgoSpec.hmacInto_ok crates algo
          (hout.trans (HashAlgoSpec.hasher_outputLen crates algo))
      have hvalue : ∀ window,
          (algo.hmac crates window message).length = (algo.hasher crates).outputLen := by
        intro window
        rw [HashAlgoSpec.length_hmac, HashAlgoSpec.hasher_outputLen]
      cases keyLengths config.lengths with
      | error s => simp
      | ok lengths =>
          simp only [reduceCtorEq, false_and, exists_false, false_or, Except.ok.injEq,
            exists_and_left, exists_eq_left', ok_bind]
          refine (exists_map_iff (lengthsReturn_iff hinto hvalue _ 0) r).trans ?_
          simp only [Nat.zero_add]
          cases scanLengths lengths _ <;> exact Iff.rfl

end Searches

end Memhunt
