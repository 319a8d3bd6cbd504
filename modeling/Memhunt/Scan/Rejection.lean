import Memhunt.Spec.Scan
import Memhunt.Spec.Vectors

/-! Which requests the scan rejects, and that validation guards every panic of the code it calls. -/
namespace Memhunt
open Rust

section Rejection
variable {crates : Crates} {dump ciphertext : Bytes} {oracles : List Oracle} {config : ScanConfig}

theorem stop_of_scan {s : Stop} (h : scan crates dump ciphertext oracles config = .error s) :
    (¬ Admitted oracles config ∧ ∃ m, s = .err m) ∨
      (Admitted oracles config ∧ ∃ c ∈ config.ciphers,
        cipherPart crates dump ciphertext oracles config c = .error s) := by
  by_cases hadm : Admitted oracles config
  · have hcollect : Collect.collect config.maxHits
        (cipherPart crates dump ciphertext oracles config) config.ciphers [] = .error s := by
      rw [← scan_of_admitted hadm, h]
      rfl
    exact .inr ⟨hadm, Collect.collect_error hcollect⟩
  · obtain ⟨m, hm⟩ := @scan_of_not_admitted crates dump ciphertext oracles config hadm
    rw [h] at hm
    exact .inl ⟨hadm, m, by cases hm; rfl⟩

/-- An error text comes from the checks up front or from a cipher that is looked at and does not
fit. -/
theorem errs_of_scan (h : Errs (scan crates dump ciphertext oracles config)) :
    ¬ Admitted oracles config ∨
      ∃ c ∈ config.ciphers, Reaches dump c ∧ ¬ Fits ciphertext config c := by
  obtain ⟨m, hm⟩ := h
  rcases stop_of_scan hm with ⟨hadm, _⟩ | ⟨hadm, c, hc, hpart⟩
  · exact .inl hadm
  · have hout := @cipherPart_outcome crates dump ciphertext oracles config hadm.valid c hc
    rw [hpart] at hout
    cases hout with
    | rejected hreach hfits => exact .inr ⟨c, hc, hreach, hfits⟩

theorem scan_of_not_reaches (hadm : Admitted oracles config)
    (h : ∀ c ∈ config.ciphers, ¬ Reaches dump c) :
    ∃ r, scan crates dump ciphertext oracles config = .ok r ∧ r.hits = [] := by
  have hparts : ∀ c ∈ config.ciphers,
      cipherPart crates dump ciphertext oracles config c = .ok none := by
    intro c hc
    rw [cipherPart, scanCipher_skips (h c hc)]
    rfl
  have hcollect : ∃ hits, Collect.collect config.maxHits
      (cipherPart crates dump ciphertext oracles config) config.ciphers [] = .ok hits :=
    Collect.collect_ok (fun c hc => ⟨none, hparts c hc⟩) []
  obtain ⟨hits, hhits⟩ := hcollect
  obtain ⟨r, hr, rfl⟩ := scan_of_collect hadm hhits
  refine ⟨r, hr, List.eq_nil_iff_forall_not_mem.mpr ?_⟩
  intro hit hmem
  obtain ⟨c, hc, hreach, _⟩ := hit_of_scan hr hmem
  exact h c hc hreach

theorem exitCode_of_errs {out : Run ScanResult} (h : Errs out) : exitCode out = 2 := by
  obtain ⟨m, rfl⟩ := h
  rfl

theorem not_reaches_empty {c : CipherChoice} (h : c.isStreamCipher = false) :
    ¬ Reaches [] c := by
  rintro (hs | hle)
  · rw [h] at hs
    cases hs
  · have := c.keyLen_pos
    simp at hle
    omega

end Rejection

/-- Validation and the checks of the loop guard every panic behind them, as long as the ciphertext
is not longer than the keystream of the stream ciphers. -/
theorem scan_not_panics (crates : Crates) (dump ciphertext : Bytes) (oracles : List Oracle)
    (config : ScanConfig) (hchacha : ciphertext.length ≤ crates.chacha20.limit)
    (hxchacha : ciphertext.length ≤ crates.xchacha20.limit) :
    ¬ Panics (scan crates dump ciphertext oracles config) := by
  rintro ⟨site, hsite⟩
  rcases stop_of_scan hsite with ⟨_, m, hm⟩ | ⟨hadm, c, hc, hpart⟩
  · cases hm
  · have hout := @cipherPart_outcome crates dump ciphertext oracles config hadm.valid c hc
    have hlimit : ciphertext.length ≤ c.keystreamLimit crates := by
      cases c <;> first | exact hchacha | exact hxchacha
    rw [hpart] at hout
    generalize hr : (Except.error (Stop.panic site) : Run (Option (List Hit))) = r at hout
    cases hout with
    | exhausted _ _ hlong => omega
    | skipped => cases hr
    | rejected => cases hr
    | found => cases hr

/-- A ChaCha20 list with a nonce of the wrong length, where unchecked code would panic. -/
theorem scan_not_panics_short_nonce :
    ¬ Panics (scan (.ofAnswers []) (List.replicate 40 0) [1, 2, 3] [utf8Oracle]
      { (default : ScanConfig) with ciphers := [.chaCha20], nonce := some [0], tag := some [] }) :=
  scan_not_panics _ _ _ _ _ (by decide) (by decide)

/-- Rejection is a matter of the request alone: no dump changes it, and an empty or misaligned
ciphertext or an IV of the wrong length is an error with every dump. -/
def RejectionIgnoresDump (crates : Crates) (ciphertext : Bytes) (oracles : List Oracle)
    (config : ScanConfig) : Prop :=
  (∀ d₁ d₂, Errs (scan crates d₁ ciphertext oracles config) ↔
    Errs (scan crates d₂ ciphertext oracles config)) ∧
  (ciphertext = [] ∨ (∃ c ∈ config.ciphers, ¬ Fits ciphertext config c) →
    ∀ d, exitCode (scan crates d ciphertext oracles config) = 2)

theorem errs_of_first {crates : Crates} {dump ciphertext : Bytes} {oracles : List Oracle}
    {config : ScanConfig} {c : CipherChoice} {cs : List CipherChoice}
    (hcs : config.ciphers = c :: cs) (hreach : Reaches dump c)
    (hfits : ¬ Fits ciphertext config c) : Errs (scan crates dump ciphertext oracles config) := by
  by_cases hadm : Admitted oracles config
  · have hscan := @scan_of_admitted crates dump ciphertext oracles config hadm
    obtain ⟨m, hm⟩ := @scanCipher_errs crates dump ciphertext oracles config c hreach hfits
    have hpart : cipherPart crates dump ciphertext oracles config c = .error (.err m) := by
      rw [cipherPart, hm]
      rfl
    simp only [hcs, Collect.collect, hpart] at hscan
    cases hr : scan crates dump ciphertext oracles config with
    | error s =>
        rw [hr] at hscan
        exact ⟨m, congrArg Except.error (Except.error.inj hscan)⟩
    | ok r =>
        rw [hr] at hscan
        cases hscan
  · exact scan_of_not_admitted hadm

section RejectionIgnoresDump
variable {crates : Crates} {ciphertext : Bytes} {oracles : List Oracle} {config : ScanConfig}

theorem RejectionIgnoresDump.of_errs (h : ∀ d, Errs (scan crates d ciphertext oracles config)) :
    RejectionIgnoresDump crates ciphertext oracles config :=
  ⟨fun d₁ d₂ => iff_of_true (h d₁) (h d₂), fun _ d => exitCode_of_errs (h d)⟩

theorem RejectionIgnoresDump.of_fits (hadm : Admitted oracles config) (hne : ciphertext ≠ [])
    (hfits : ∀ c ∈ config.ciphers, Fits ciphertext config c) :
    RejectionIgnoresDump crates ciphertext oracles config := by
  have never : ∀ d, ¬ Errs (scan crates d ciphertext oracles config) := by
    intro d herr
    rcases errs_of_scan herr with hnot | ⟨c, hc, _, hunfit⟩
    · exact hnot hadm
    · exact hunfit (hfits c hc)
  refine ⟨fun d₁ d₂ => iff_of_false (never d₁) (never d₂), ?_⟩
  rintro (hempty | ⟨c, hc, hunfit⟩)
  · exact absurd hempty hne
  · exact absurd (hfits c hc) hunfit

end RejectionIgnoresDump

/-- Rejection ignores the dump exactly where the request is rejected up front, or lists a stream
cipher, or is one that every listed cipher can use. -/
theorem rejectionIgnoresDump_iff (crates : Crates) (ciphertext : Bytes) (oracles : List Oracle)
    (config : ScanConfig) :
    RejectionIgnoresDump crates ciphertext oracles config ↔
      ¬ Admitted oracles config ∨ (∃ c ∈ config.ciphers, c.isStreamCipher = true) ∨
        (ciphertext ≠ [] ∧ ∀ c ∈ config.ciphers, Fits ciphertext config c) := by
  by_cases hadm : Admitted oracles config
  · constructor
    · intro h
      by_contra hnot
      simp only [not_or, not_not, not_exists, not_and, Bool.not_eq_true] at hnot
      obtain ⟨_, hblock, hunfit⟩ := hnot
      obtain ⟨r, hr, hhits⟩ := @scan_of_not_reaches crates [] ciphertext oracles config hadm
        (fun c hc => not_reaches_empty (hblock c hc))
      have hbad : ciphertext = [] ∨ ∃ c ∈ config.ciphers, ¬ Fits ciphertext config c := by
        by_cases hne : ciphertext = []
        · exact .inl hne
        · exact .inr (by simpa using hunfit hne)
      have hcode := h.2 hbad []
      simp [hr, exitCode, hhits] at hcode
    · rintro (hnot | ⟨c, hc, hs⟩ | ⟨hne, hfits⟩)
      · exact absurd hadm hnot
      · have hall : ∀ d ∈ config.ciphers, d.isStreamCipher = true :=
          fun d hd => (hadm.valid.same_kind hd hc).trans hs
        by_cases hempty : ciphertext = []
        · obtain ⟨c₀, cs, hcs⟩ := List.exists_cons_of_ne_nil (List.ne_nil_of_mem hc)
          exact .of_errs fun d => errs_of_first hcs (.inl (hall c₀ (hcs ▸ List.mem_cons_self)))
            (fun hfits => hfits.1 hempty)
        · refine .of_fits hadm hempty fun d hd => ⟨hempty, fun hnone => ?_⟩
          rw [hall d hd] at hnone
          cases hnone
      · exact .of_fits hadm hne hfits
  · exact iff_of_true (.of_errs fun d => scan_of_not_admitted hadm) (.inl hadm)

/-- Fifteen bytes are no AES target, yet with an empty dump the scan ends as a search without a
hit. -/
theorem misaligned_target_not_reported :
    ¬ RejectionIgnoresDump (.ofAnswers []) (List.replicate 15 0) [utf8Oracle]
      sampleConfig := by
  intro h
  have hcode := h.2 (.inr ⟨.aes128, by decide, by decide⟩) []
  have hnone : exitCode (scan (.ofAnswers []) [] (List.replicate 15 0) [utf8Oracle]
      sampleConfig) = 1 := by decide +kernel
  rw [hnone] at hcode
  cases hcode

end Memhunt
