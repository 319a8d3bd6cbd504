import Memhunt.Engine.Scan
import Memhunt.Lib.Collect
import Memhunt.Spec.Verdict

/-! The scan as a value: what each cipher contributes, and that the loop of the code gathers exactly
the contributions. -/
namespace Memhunt
open Rust

section Scan
variable (crates : Crates) (dump ciphertext : Bytes) (oracles : List Oracle) (config : ScanConfig)

def cipherPart (c : CipherChoice) : Run (Option (List Hit)) :=
  (scanCipher crates dump ciphertext oracles config c).map (Option.map Prod.fst)

variable {crates dump ciphertext oracles config}

theorem matchIv_ok {fixedIv : Option Bytes} {algo : String} {block : Nat}
    (h : ∀ iv ∈ fixedIv, iv.length = block) : matchIv fixedIv algo block = .ok fixedIv := by
  cases fixedIv with
  | none => rfl
  | some iv => simp [matchIv, h iv rfl]

theorem matchIv_errs {fixedIv : Option Bytes} {algo : String} {block : Nat}
    (h : ¬ ∀ iv ∈ fixedIv, iv.length = block) : Errs (matchIv fixedIv algo block) := by
  cases fixedIv with
  | none => exact absurd (by simp) h
  | some iv =>
      have hlen : iv.length ≠ block := by simpa using h
      simp [matchIv, hlen]

theorem scanCipher_skips {c : CipherChoice} (h : ¬ Reaches dump c) :
    scanCipher crates dump ciphertext oracles config c = .ok none := by
  have hstream : c.isStreamCipher = false := by
    simpa using fun hs => h (.inl hs)
  obtain ⟨cipher, hadapter⟩ := CipherChoice.adapter_ok crates hstream
  have hshort : dump.length < cipher.keyLen := by
    rw [(CipherChoice.lengths_of_adapter hadapter).1]
    exact Nat.lt_of_not_le fun hle => h (.inr hle)
  simp only [scanCipher, hstream, Bool.false_eq_true, if_false, hadapter, ok_bind, if_pos hshort,
    pure_eq]

theorem scanCipher_block {c : CipherChoice} {cipher : BlockCipher}
    (hadapter : c.adapter crates = .ok cipher) (hreach : Reaches dump c) :
    scanCipher crates dump ciphertext oracles config c =
      if config.mode = .block then do
        let blocks ← splitBlocks ciphertext cipher.blockLen
        let iv ← matchIv config.fixedIv c.label cipher.blockLen
        let found ← hunt dump blocks cipher.blockLen cipher oracles config c.label iv false
        return some found
      else if ciphertext.isEmpty then fail "ciphertext is empty"
      else do
        let found ← huntStream crates dump ciphertext cipher.blockLen cipher oracles config
          c.label false
        return some found := by
  have hstream := CipherChoice.not_stream_of_adapter hadapter
  have hlong : ¬ dump.length < cipher.keyLen := by
    rw [(CipherChoice.lengths_of_adapter hadapter).1, Nat.not_lt]
    exact hreach.resolve_left (by rw [hstream]; exact Bool.false_ne_true)
  simp only [scanCipher, hstream, Bool.false_eq_true, if_false, hadapter, ok_bind, if_neg hlong]

/-- A cipher that is looked at rejects a ciphertext or an IV that does not fit it. -/
theorem scanCipher_errs {c : CipherChoice} (hreach : Reaches dump c)
    (hfits : ¬ Fits ciphertext config c) :
    Errs (scanCipher crates dump ciphertext oracles config c) := by
  cases hstream : c.isStreamCipher with
  | true =>
      have hempty : ciphertext = [] := by
        by_contra hne
        exact hfits ⟨hne, fun hs => by rw [hstream] at hs; cases hs⟩
      simp [scanCipher, hstream, hempty]
  | false =>
      obtain ⟨cipher, hadapter⟩ := CipherChoice.adapter_ok crates hstream
      rw [scanCipher_block hadapter hreach]
      by_cases hmode : config.mode = .block
      · rw [if_pos hmode, (CipherChoice.lengths_of_adapter hadapter).2]
        by_cases hsplit : ciphertext ≠ [] ∧ c.blockLen ∣ ciphertext.length
        · have hiv : ¬ ∀ iv ∈ config.fixedIv, iv.length = c.blockLen :=
            fun hiv => hfits ⟨hsplit.1, fun _ _ => ⟨hsplit.2, hiv⟩⟩
          obtain ⟨m, hm⟩ := @matchIv_errs config.fixedIv c.label c.blockLen hiv
          rw [splitBlocks_ok hsplit.1 hsplit.2, ok_bind, hm]
          exact ⟨m, rfl⟩
        · obtain ⟨m, hm⟩ := splitBlocks_errs hsplit
          rw [hm]
          exact ⟨m, rfl⟩
      · have hempty : ciphertext = [] := by
          by_contra hne
          exact hfits ⟨hne, fun _ hm => absurd hm hmode⟩
        rw [if_neg hmode, hempty]
        exact errs_fail _

theorem ScanConfig.Valid.isAes {config : ScanConfig} (h : config.Valid)
    (hmode : config.mode ≠ .block) {c : CipherChoice} (hc : c ∈ config.ciphers)
    (hstream : c.isStreamCipher = false) : c.isAes = true := by
  cases h with
  | stream _ _ hall =>
      rw [hall c hc] at hstream
      cases hstream
  | block _ hblock => exact absurd hblock hmode
  | ctr _ haes => exact haes c hc
  | gcm _ haes => exact haes c hc

/-- A cipher that is looked at and fits hunts every window; only a stream cipher can run out of
keystream. -/
theorem scanCipher_finds (hvalid : config.Valid) {c : CipherChoice} (hc : c ∈ config.ciphers)
    (hreach : Reaches dump c) (hfits : Fits ciphertext config c) :
    scanCipher crates dump ciphertext oracles config c =
        .ok (some (cipherHits crates dump ciphertext oracles config c,
          dump.length + 1 - c.keyLen)) ∨
      (c.isStreamCipher = true ∧ c.keystreamLimit crates < ciphertext.length ∧
        scanCipher crates dump ciphertext oracles config c = crash .streamExhausted) := by
  have hne : ciphertext.isEmpty = false := by simpa using hfits.1
  unfold cipherHits
  cases hstream : c.isStreamCipher with
  | true =>
      obtain ⟨adapter, hadapter⟩ := CipherChoice.streamAdapter_ok crates hstream
      simp only [scanCipher, hstream, if_true, hne, Bool.false_eq_true, if_false, hadapter,
        ok_bind, windowHit_stream hstream]
      rcases huntStreamCipher_ok_or_crash hadapter (hvalid.streamReady hc hstream) dump ciphertext
        oracles with hfound | ⟨hlimit, hcrash⟩
      · exact .inl (by rw [hfound, ok_bind, pure_eq])
      · exact .inr ⟨trivial, hlimit, by rw [hcrash, crash_bind]⟩
  | false =>
      refine .inl ?_
      obtain ⟨cipher, hadapter⟩ := CipherChoice.adapter_ok crates hstream
      obtain ⟨hkey, hblock⟩ := CipherChoice.lengths_of_adapter hadapter
      have hlawful := CipherChoice.adapter_lawful hadapter
      rw [scanCipher_block hadapter hreach]
      by_cases hmode : config.mode = .block
      · obtain ⟨R, hR, hblocks, hiv⟩ := BlockRequest.of_fits hfits hstream hmode hblock
          hlawful.blockPos
        have hfit := hfits.2 hstream hmode
        rw [← hblock] at hfit
        rw [if_pos hmode, splitBlocks_ok hfits.1 hfit.1, ok_bind, matchIv_ok hfit.2, ok_bind,
          ← hblocks, ← hiv, hunt_ok hlawful R, ok_bind, pure_eq, windowHit_block hadapter hmode hR,
          hkey]
      · have haes := hvalid.isAes hmode hc hstream
        have hblock16 : cipher.blockLen = 16 := by rw [hblock, CipherChoice.blockLen_of_aes haes]
        rw [if_neg hmode]
        simp only [hne, Bool.false_eq_true, if_false]
        rw [huntStream_ok hlawful hblock16 (hvalid.counterReady hmode hc hstream) dump, ok_bind,
          pure_eq, windowHit_counter hadapter hmode, hkey]

variable (crates dump ciphertext oracles config) in
inductive Outcome (c : CipherChoice) : Run (Option (List Hit)) → Prop
  | skipped (hreach : ¬ Reaches dump c) : Outcome c (.ok none)
  | rejected (hreach : Reaches dump c) (hfits : ¬ Fits ciphertext config c) (message : String) :
      Outcome c (.error (.err message))
  | found (hreach : Reaches dump c) (hfits : Fits ciphertext config c) :
      Outcome c (.ok (some (cipherHits crates dump ciphertext oracles config c)))
  | exhausted (hfits : Fits ciphertext config c) (hstream : c.isStreamCipher = true)
      (hlimit : c.keystreamLimit crates < ciphertext.length) :
      Outcome c (crash .streamExhausted)

theorem cipherPart_outcome (hvalid : config.Valid) {c : CipherChoice} (hc : c ∈ config.ciphers) :
    Outcome crates dump ciphertext oracles config c
      (cipherPart crates dump ciphertext oracles config c) := by
  unfold cipherPart
  by_cases hreach : Reaches dump c
  · by_cases hfits : Fits ciphertext config c
    · rcases @scanCipher_finds crates dump ciphertext oracles config hvalid c hc hreach hfits with
        hfound | ⟨hstream, hlimit, hcrash⟩
      · rw [hfound]
        exact .found hreach hfits
      · rw [hcrash]
        exact .exhausted hfits hstream hlimit
    · obtain ⟨m, hm⟩ := @scanCipher_errs crates dump ciphertext oracles config c hreach hfits
      rw [hm]
      exact .rejected hreach hfits m
  · rw [scanCipher_skips hreach]
    exact .skipped hreach

theorem contribution_eq (hvalid : config.Valid) {c : CipherChoice} (hc : c ∈ config.ciphers)
    (hok : ∃ r, cipherPart crates dump ciphertext oracles config c = .ok r) :
    Collect.contribution (cipherPart crates dump ciphertext oracles config) c =
      cipherHits crates dump ciphertext oracles config c := by
  obtain ⟨r, hr⟩ := hok
  have hout := @cipherPart_outcome crates dump ciphertext oracles config hvalid c hc
  unfold Collect.contribution
  rw [hr] at hout ⊢
  cases hout with
  | skipped hreach => exact (cipherHits_of_not_reaches hreach).symm
  | found => rfl

/-- The loop gathers the contributions; the window count never changes what is found. -/
theorem scanLoop_hits (cs : List CipherChoice) (acc : List Hit) (tried : Nat) :
    (scanLoop crates dump ciphertext oracles config cs acc tried).map Prod.fst =
      Collect.collect config.maxHits (cipherPart crates dump ciphertext oracles config) cs acc := by
  induction cs generalizing acc tried with
  | nil => rfl
  | cons c cs ih =>
      cases hscan : scanCipher crates dump ciphertext oracles config c with
      | error e => simp only [scanLoop, Collect.collect, cipherPart, hscan, error_bind, Except.map]
      | ok found =>
          cases found with
          | none =>
              simp only [scanLoop, Collect.collect, cipherPart, hscan, ok_bind, Except.map,
                Option.map_none]
              exact ih acc tried
          | some found =>
              have hpart : cipherPart crates dump ciphertext oracles config c =
                  .ok (some found.1) := by
                rw [cipherPart, hscan]
                rfl
              simp only [scanLoop, Collect.collect, hpart, hscan, ok_bind]
              by_cases hfull : 0 < config.maxHits ∧ config.maxHits ≤ (acc ++ found.1).length
              · rw [if_pos hfull, if_pos hfull]
                rfl
              · rw [if_neg hfull, if_neg hfull]
                exact ih (acc ++ found.1) (tried + found.2)

theorem scan_of_not_admitted (h : ¬ Admitted oracles config) :
    Errs (scan crates dump ciphertext oracles config) := by
  unfold scan
  rcases ok_or_errs (validateConfig_not_panics config) with ⟨u, hu⟩ | ⟨m, hm⟩
  · have hnone : ((config.mode != .gcm || config.tag.isNone) && oracles.isEmpty) = true := by
      by_contra hnot
      exact h ⟨hu, by simpa using hnot⟩
    simp [hu, hnone]
  · rw [hm]
    exact ⟨m, rfl⟩

theorem scan_of_admitted (h : Admitted oracles config) :
    (scan crates dump ciphertext oracles config).map ScanResult.hits =
      Collect.collect config.maxHits (cipherPart crates dump ciphertext oracles config)
        config.ciphers [] := by
  have horacle : ¬ ((config.mode != .gcm || config.tag.isNone) && oracles.isEmpty) = true := by
    simpa using h.2
  rw [← scanLoop_hits config.ciphers [] 0]
  simp only [scan, h.1, ok_bind, if_neg horacle]
  cases scanLoop crates dump ciphertext oracles config config.ciphers [] 0 with
  | error s => rfl
  | ok found => rfl

theorem admitted_of_scan {r : ScanResult}
    (h : scan crates dump ciphertext oracles config = .ok r) : Admitted oracles config := by
  by_contra hnot
  obtain ⟨m, hm⟩ := @scan_of_not_admitted crates dump ciphertext oracles config hnot
  rw [h] at hm
  cases hm

theorem Admitted.valid (h : Admitted oracles config) : config.Valid := validateConfig_ok h.1

theorem collect_of_scan {r : ScanResult}
    (h : scan crates dump ciphertext oracles config = .ok r) :
    Collect.collect config.maxHits (cipherPart crates dump ciphertext oracles config)
      config.ciphers [] = .ok r.hits := by
  rw [← scan_of_admitted (admitted_of_scan h), h]
  rfl

theorem scan_of_collect (hadm : Admitted oracles config) {hits : List Hit}
    (h : Collect.collect config.maxHits (cipherPart crates dump ciphertext oracles config)
      config.ciphers [] = .ok hits) :
    ∃ r, scan crates dump ciphertext oracles config = .ok r ∧ r.hits = hits := by
  rw [← scan_of_admitted hadm] at h
  cases hs : scan crates dump ciphertext oracles config with
  | error s =>
      rw [hs] at h
      cases h
  | ok r =>
      rw [hs] at h
      exact ⟨r, rfl, Except.ok.inj h⟩

/-- Every reported hit is the verdict on a window of the dump under a listed cipher. -/
theorem hit_of_scan {r : ScanResult} (h : scan crates dump ciphertext oracles config = .ok r)
    {hit : Hit} (hmem : hit ∈ r.hits) :
    ∃ c ∈ config.ciphers, Reaches dump c ∧ Fits ciphertext config c ∧
      ∃ o, o + c.keyLen ≤ dump.length ∧
        windowHit crates dump ciphertext oracles config c
          (Bytes.slice dump o c.keyLen, o) = some hit := by
  have hvalid := (admitted_of_scan h).valid
  rcases Collect.mem_collect (collect_of_scan h) hmem with hnil | ⟨c, hc, hcontr⟩
  · cases hnil
  · obtain ⟨found, hfound, hin⟩ := Collect.mem_contribution.mp hcontr
    have hout := @cipherPart_outcome crates dump ciphertext oracles config hvalid c hc
    rw [hfound] at hout
    cases hout with
    | found hreach hfits => exact ⟨c, hc, hreach, hfits, Windows.mem_search.mp hin⟩

/-- Without a limit the scan reports everything each listed cipher finds. -/
theorem hits_of_scan {r : ScanResult} (hmax : config.maxHits = 0)
    (h : scan crates dump ciphertext oracles config = .ok r) :
    r.hits = config.ciphers.flatMap (cipherHits crates dump ciphertext oracles config) := by
  have hcollect := collect_of_scan h
  rw [hmax] at hcollect
  obtain ⟨hparts, hhits⟩ := Collect.collect_eq_ok_iff.mp hcollect
  rw [hhits]
  apply List.flatMap_congr
  intro c hc
  exact contribution_eq (admitted_of_scan h).valid hc (hparts c hc)

theorem parts_of_scan {r : ScanResult} (hmax : config.maxHits = 0)
    (h : scan crates dump ciphertext oracles config = .ok r) :
    ∀ c ∈ config.ciphers, ∃ part, cipherPart crates dump ciphertext oracles config c = .ok part := by
  have hcollect := collect_of_scan h
  rw [hmax] at hcollect
  exact Collect.parts_ok_of_collect hcollect

theorem scan_of_parts (hadm : Admitted oracles config) (hmax : config.maxHits = 0)
    (hparts : ∀ c ∈ config.ciphers,
      ∃ part, cipherPart crates dump ciphertext oracles config c = .ok part) :
    ∃ r, scan crates dump ciphertext oracles config = .ok r ∧
      r.hits = config.ciphers.flatMap (cipherHits crates dump ciphertext oracles config) := by
  have hcollect := Collect.collect_of_parts_ok hparts []
  rw [← hmax] at hcollect
  obtain ⟨r, hr, _⟩ := scan_of_collect hadm hcollect
  exact ⟨r, hr, hits_of_scan hmax hr⟩

end Scan

end Memhunt
