import Memhunt.Hash.Parallel
import Memhunt.Hash.ZeroLength
import Memhunt.Scan.Parallel

/-! What the statistics of a search say: how far it went, and whether a limit cut it short. -/
namespace Memhunt
open Rust
open Workers (Accounts accounts_of_rounds upTo)

section Scan
variable {crates : Crates} {dump ciphertext : Bytes} {oracles : List Oracle} {config : ScanConfig}

theorem scanCipher_account (hvalid : config.Valid) {c : CipherChoice} (hc : c ∈ config.ciphers)
    {r : Option (List Hit × Nat)} (h : scanCipher crates dump ciphertext oracles config c = .ok r) :
    r = some (cipherHits crates dump ciphertext oracles config c, dump.length + 1 - c.keyLen) ∨
      (r = none ∧ cipherHits crates dump ciphertext oracles config c = [] ∧
        dump.length + 1 - c.keyLen = 0) := by
  by_cases hreach : Reaches dump c
  · by_cases hfits : Fits ciphertext config c
    · rcases @scanCipher_finds crates dump ciphertext oracles config hvalid c hc hreach hfits with
        hfound | ⟨_, _, hcrash⟩
      · rw [hfound] at h
        exact .inl (Except.ok.inj h).symm
      · rw [hcrash] at h
        cases h
    · obtain ⟨m, hm⟩ := @scanCipher_errs crates dump ciphertext oracles config c hreach hfits
      rw [hm] at h
      cases h
  · rw [scanCipher_skips hreach] at h
    have hshort : ¬ c.keyLen ≤ dump.length := fun hle => hreach (.inr hle)
    exact .inr ⟨(Except.ok.inj h).symm, cipherHits_of_not_reaches hreach, by omega⟩

theorem scanLoop_of_scan {r : ScanResult}
    (h : scan crates dump ciphertext oracles config = .ok r) :
    r.stats.dumpSize = dump.length ∧
      scanLoop crates dump ciphertext oracles config config.ciphers [] 0 =
        .ok (r.hits, r.stats.candidatesTried) := by
  have hadm := admitted_of_scan h
  have horacle : ¬ ((config.mode != .gcm || config.tag.isNone) && oracles.isEmpty) = true := by
    simpa using hadm.2
  simp only [scan, hadm.1, ok_bind, if_neg horacle] at h
  obtain ⟨⟨hits, tried⟩, hloop, h⟩ := bind_ok h
  obtain rfl := Except.ok.inj h
  exact ⟨rfl, hloop⟩

theorem cipherHits_of_no_window {c : CipherChoice} (h : dump.length + 1 - c.keyLen = 0) :
    cipherHits crates dump ciphertext oracles config c = [] := by
  refine List.eq_nil_iff_forall_not_mem.mpr fun hit hmem => ?_
  obtain ⟨o, ho, _⟩ := Windows.mem_search.mp hmem
  omega

end Scan

/-- The count of a scan is that of the windows of the ciphers it went through, to the last one or to
the one that reached the limit, and the hits are all that these windows hold, up to the limit. Where
it is the count of all listed ciphers, nothing was left out but by the limit. -/
theorem scan_accounts (crates : Crates) (dump ciphertext : Bytes) (oracles : List Oracle)
    (config : ScanConfig) (r : ScanResult)
    (h : scan crates dump ciphertext oracles config = .ok r) :
    let hits := cipherHits crates dump ciphertext oracles config
    let windows := fun c : CipherChoice => dump.length + 1 - c.keyLen
    r.stats.dumpSize = dump.length ∧
      (∃ gone, Accounts config.maxHits config.ciphers hits windows r.hits r.stats.candidatesTried
        gone) ∧
      (r.stats.candidatesTried = (config.ciphers.map windows).sum →
        r.hits = upTo config.maxHits (config.ciphers.flatMap hits)) := by
  obtain ⟨hsize, hloop⟩ := scanLoop_of_scan h
  rw [scanLoop_eq_rounds] at hloop
  obtain ⟨gone, hgone⟩ := accounts_of_rounds
    (fun c hc _ hr => scanCipher_account (admitted_of_scan h).valid hc hr) hloop
  refine ⟨hsize, ⟨gone, hgone⟩, hgone.complete fun c _ hzero => ?_⟩
  exact cipherHits_of_no_window hzero

theorem scan_accounts_sample : sampleResult.stats.candidatesTried = 1 ∧
    ∃ gone, Accounts 0 [CipherChoice.aes128]
      (cipherHits sampleCrates sampleKey sampleCiphertext [jsonOracle] sampleConfig)
      (fun c => sampleKey.length + 1 - c.keyLen) [sampleHit] 1 gone :=
  ⟨rfl, (scan_accounts sampleCrates sampleKey sampleCiphertext [jsonOracle] sampleConfig
    sampleResult (by decide +kernel)).2.1⟩

section Hash
variable {crates : HashCrates} {dump target message : Bytes} {config : HashScanConfig}
  {algos : List HashAlgoSpec} {algo : HashAlgoSpec}

/-- A search that returns has windows of a length. -/
theorem preimagesOf_account {v : List HashHit × Nat}
    (h : preimagesOf crates dump target config algo = .ok v) :
    v = (preimageHits crates dump target config.lengths algo,
      (config.lengths.lengths.map fun len => dump.length + 1 - len).sum) := by
  by_cases hlen : target.length = algo.outputLen
  · rcases Nat.eq_zero_or_pos config.lengths.min with hmin | hmin
    · have hpanics := @preimagesOf_zero crates dump target config algo hmin hlen
      rw [h] at hpanics
      exact absurd hpanics (not_panics_ok v)
    · exact Except.ok.inj (h.symm.trans (preimagesOf_eq hmin hlen))
  · obtain ⟨m, hm⟩ := @preimagesOf_errs crates dump target config algo hlen
    rw [hm] at h
    cases h

theorem preimageLoop_of_scanPreimages {r : HashScanResult}
    (h : scanPreimages crates dump target algos config = .ok r) :
    r.stats.dumpSize = dump.length ∧
      preimageLoop crates dump target config algos [] 0 =
        .ok (r.hits, r.stats.candidatesTried) := by
  have hsome : target.isEmpty = false := by simpa using target_of_scanPreimages h
  simp only [scanPreimages, hsome, Bool.false_eq_true, if_false] at h
  obtain ⟨⟨hits, tried⟩, hloop, h⟩ := bind_ok h
  obtain rfl := Except.ok.inj h
  exact ⟨rfl, hloop⟩

theorem preimageHits_of_no_window {lengths : LengthRange}
    (h : (lengths.lengths.map fun len => dump.length + 1 - len).sum = 0) :
    preimageHits crates dump target lengths algo = [] := by
  refine List.eq_nil_iff_forall_not_mem.mpr fun hit hmem => ?_
  obtain ⟨len, hlen, o, ho, _⟩ := mem_searchHits.mp hmem
  have hzero : dump.length + 1 - len = 0 :=
    List.sum_eq_zero_iff.mp h _ (List.mem_map.mpr ⟨len, hlen, rfl⟩)
  omega

end Hash

/-- The counts of the hash searches: each window of each length once for each algorithm gone through,
and the hits are all that match among them, up to the limit. -/
theorem hash_scans_account (crates : HashCrates) (dump target message : Bytes)
    (algos : List HashAlgoSpec) (algo : HashAlgoSpec) (config : HashScanConfig) :
    let hits := preimageHits crates dump target config.lengths
    let windows := fun lengths : List Nat => (lengths.map fun len => dump.length + 1 - len).sum
    (∀ r, scanPreimages crates dump target algos config = .ok r →
      r.stats.dumpSize = dump.length ∧
      (∃ gone, Accounts config.maxHits algos hits (fun _ => windows config.lengths.lengths) r.hits
        r.stats.candidatesTried gone) ∧
      (r.stats.candidatesTried = algos.length * windows config.lengths.lengths →
        r.hits = upTo config.maxHits (algos.flatMap hits))) ∧
    ∀ r, scanHmacKeys crates dump algo message target config = .ok r →
      r.stats.dumpSize = dump.length ∧
      r.stats.candidatesTried = windows config.lengths.withCommon ∧
      r.hits = keyHits crates dump target message config.lengths algo := by
  constructor
  · intro r h
    obtain ⟨hsize, hloop⟩ := preimageLoop_of_scanPreimages h
    rw [preimageLoop_eq_rounds] at hloop
    obtain ⟨gone, hgone⟩ := accounts_of_rounds (fun a _ found hfound => by
      obtain ⟨v, hv, rfl⟩ := ok_of_map hfound
      exact .inl (congrArg some (preimagesOf_account hv))) hloop
    refine ⟨hsize, ⟨gone, hgone⟩, fun htotal => hgone.complete (fun a _ hzero => ?_) ?_⟩
    · exact preimageHits_of_no_window hzero
    · rw [htotal, List.map_const', List.sum_replicate, smul_eq_mul]
  · intro r h
    by_cases hlen : target.length = algo.outputLen
    · rcases Nat.eq_zero_or_pos config.lengths.min with hmin | hmin
      · have hpanics := @scanHmacKeys_zero crates dump target message config algo hmin hlen
        rw [h] at hpanics
        exact absurd hpanics (not_panics_ok r)
      · have hroom := room_of_scanHmacKeys h
        obtain rfl := Except.ok.inj (h.symm.trans (scanHmacKeys_eq hmin hroom hlen))
        exact ⟨rfl, rfl, rfl⟩
    · obtain ⟨m, hm⟩ := @scanHmacKeys_errs crates dump target message config algo hlen
      rw [h] at hm
      cases hm

end Memhunt
