import Memhunt.Scan.Rejection

/-! How scans of one request with different oracle lists relate: a tag decides alone, and more
oracles keep every key. -/
namespace Memhunt
open Rust

section Tagged
variable {crates : Crates} {dump ciphertext : Bytes} {oracles O₁ O₂ : List Oracle}
  {config : ScanConfig} {tag : Bytes}

theorem huntStreamWindow_tag_congr (hmode : config.mode = .gcm) (htag : config.tag = some tag)
    (block : Nat) (cipher : BlockCipher) (algo : String) (mode : Mode) :
    huntStreamWindow crates ciphertext block cipher O₁ config algo mode =
      huntStreamWindow crates ciphertext block cipher O₂ config algo mode := by
  have hgcm : config.gcmTag = some tag := by rw [ScanConfig.gcmTag, if_pos hmode, htag]
  funext key offset
  simp only [huntStreamWindow, hgcm]

theorem huntStreamCipherWindow_tag_congr (htag : config.tag = some tag)
    (adapter : StreamCipherAdapter) (algo : String) :
    huntStreamCipherWindow crates ciphertext adapter O₁ config algo =
      huntStreamCipherWindow crates ciphertext adapter O₂ config algo := by
  funext key offset
  simp only [huntStreamCipherWindow, htag]

theorem ScanConfig.Valid.tagged (hvalid : config.Valid) (htag : config.tag = some tag) :
    config.mode = .gcm ∨ ((∃ c ∈ config.ciphers, c.isStreamCipher = true) ∧
      ∀ c ∈ config.ciphers, c.isStreamCipher = true) := by
  cases hvalid with
  | stream _ hsome hall => exact .inr ⟨hsome, hall⟩
  | block _ _ _ hnone =>
      rw [hnone] at htag
      cases htag
  | ctr _ _ _ _ _ _ hnone =>
      rw [hnone] at htag
      cases htag
  | gcm _ _ hmode => exact .inl hmode

/-- With a tag no hunt looks at the oracles. -/
theorem scanCipher_tag_congr (hvalid : config.Valid) (htag : config.tag = some tag)
    {c : CipherChoice} (hc : c ∈ config.ciphers) :
    scanCipher crates dump ciphertext O₁ config c =
      scanCipher crates dump ciphertext O₂ config c := by
  unfold scanCipher
  cases hstream : c.isStreamCipher with
  | true =>
      simp only [if_true, huntStreamCipher,
        @huntStreamCipherWindow_tag_congr crates ciphertext O₁ O₂ config tag htag]
  | false =>
      have hmode : config.mode = .gcm := by
        rcases hvalid.tagged htag with hmode | ⟨_, hall⟩
        · exact hmode
        · rw [hall c hc] at hstream
          cases hstream
      simp only [Bool.false_eq_true, if_false, hmode, reduceCtorEq, huntStream,
        @huntStreamWindow_tag_congr crates ciphertext O₁ O₂ config tag hmode htag]

theorem scanLoop_congr {cs : List CipherChoice}
    (h : ∀ c ∈ cs, scanCipher crates dump ciphertext O₁ config c =
      scanCipher crates dump ciphertext O₂ config c) (acc : List Hit) (tried : Nat) :
    scanLoop crates dump ciphertext O₁ config cs acc tried =
      scanLoop crates dump ciphertext O₂ config cs acc tried := by
  induction cs generalizing acc tried with
  | nil => rfl
  | cons c cs ih =>
      have tail := ih fun d hd => h d (List.mem_cons_of_mem c hd)
      simp only [scanLoop, h c List.mem_cons_self, tail]

theorem scan_tag_congr (hvalid : config.Valid) (htag : config.tag = some tag)
    (hchecked : config.mode = .gcm ∨ (O₁ = [] ↔ O₂ = [])) :
    scan crates dump ciphertext O₁ config = scan crates dump ciphertext O₂ config := by
  have hcheck : ((config.mode != .gcm || config.tag.isNone) && O₁.isEmpty) =
      ((config.mode != .gcm || config.tag.isNone) && O₂.isEmpty) := by
    rcases hchecked with hmode | hempty
    · simp [hmode, htag]
    · rw [show O₁.isEmpty = O₂.isEmpty by
        rw [Bool.eq_iff_iff, List.isEmpty_iff, List.isEmpty_iff, hempty]]
  have hloop : ∀ acc tried, scanLoop crates dump ciphertext O₁ config config.ciphers acc tried =
      scanLoop crates dump ciphertext O₂ config config.ciphers acc tried :=
    scanLoop_congr fun c hc => scanCipher_tag_congr hvalid htag hc
  simp only [scan, hcheck, hloop]

theorem scan_tag_not_panics (hvalid : config.Valid) (htag : config.tag = some tag) :
    ¬ Panics (scan crates dump ciphertext oracles config) := by
  rintro ⟨site, hsite⟩
  rcases stop_of_scan hsite with ⟨_, m, hm⟩ | ⟨_, c, hc, hpart⟩
  · cases hm
  have hout := @cipherPart_outcome crates dump ciphertext oracles config hvalid c hc
  rw [hpart] at hout
  generalize hr : (Except.error (Stop.panic site) : Run (Option (List Hit))) = r at hout
  cases hout with
  | skipped => cases hr
  | rejected => cases hr
  | found => cases hr
  | exhausted hfits hstream hlimit =>
      obtain ⟨adapter, hadapter⟩ := CipherChoice.streamAdapter_ok crates hstream
      have hne : ciphertext.isEmpty = false := by simpa using hfits.1
      have hhunt := huntStreamCipher_tag hadapter (hvalid.streamReady hc hstream) htag dump
        ciphertext oracles
      simp only [cipherPart, scanCipher, hstream, if_true, hne, Bool.false_eq_true, if_false,
        hadapter, ok_bind, hhunt, pure_eq] at hpart
      cases hpart

/-- Outside GCM a tagged list is one of stream ciphers: on a ciphertext the only thing that is
rejected is an empty list of oracles, though nothing would have asked them. -/
theorem scan_tag_errs_iff (hvalid : config.Valid) (hconfig : validateConfig config = .ok ())
    (htag : config.tag = some tag) (hmode : config.mode ≠ .gcm) (hne : ciphertext ≠ []) :
    Errs (scan crates dump ciphertext oracles config) ↔ oracles = [] := by
  constructor
  · intro herr
    rcases errs_of_scan herr with hnot | ⟨c, hc, _, hunfit⟩
    · by_contra hsome
      exact hnot ⟨hconfig, fun h => hsome h.2⟩
    · have hstream := ((hvalid.tagged htag).resolve_left hmode).2 c hc
      refine absurd ⟨hne, fun hnone => ?_⟩ hunfit
      rw [hstream] at hnone
      cases hnone
  · intro hnone
    exact scan_of_not_admitted fun hadm => hadm.2 ⟨.inl hmode, hnone⟩

theorem scan_tag_empty_errs (hvalid : config.Valid) (htag : config.tag = some tag)
    (hmode : config.mode ≠ .gcm) : Errs (scan crates dump [] oracles config) := by
  obtain ⟨⟨c, hc, hs⟩, hall⟩ := (hvalid.tagged htag).resolve_left hmode
  obtain ⟨d, cs, hcs⟩ := List.exists_cons_of_ne_nil (List.ne_nil_of_mem hc)
  exact errs_of_first hcs (.inl (hall d (hcs ▸ List.mem_cons_self))) fun hfits => hfits.1 rfl

end Tagged

/-- A tagged scan answers the same with any two lists of oracles exactly in GCM mode, on an empty
ciphertext, and where both lists are empty or neither is. -/
theorem tagged_scan_ignores_oracles_iff (crates : Crates) (dump ciphertext : Bytes)
    (config : ScanConfig) (tag : Bytes) (O₁ O₂ : List Oracle)
    (hconfig : validateConfig config = .ok ()) (htag : config.tag = some tag) :
    Agree ScanResult.hits ScanResult.hits (scan crates dump ciphertext O₁ config)
        (scan crates dump ciphertext O₂ config) ↔
      config.mode = .gcm ∨ ciphertext = [] ∨ (O₁ = [] ↔ O₂ = []) := by
  have hvalid := validateConfig_ok hconfig
  constructor
  · intro hagree
    by_contra hnot
    simp only [not_or] at hnot
    obtain ⟨hmode, hne, hdiffer⟩ := hnot
    have herr := hagree.errs_iff
    rw [scan_tag_errs_iff hvalid hconfig htag hmode hne,
      scan_tag_errs_iff hvalid hconfig htag hmode hne] at herr
    exact hdiffer herr
  · intro h
    by_cases hchecked : config.mode = .gcm ∨ (O₁ = [] ↔ O₂ = [])
    · rw [@scan_tag_congr crates dump ciphertext O₁ O₂ config tag hvalid htag hchecked]
      exact agree_self (scan_tag_not_panics hvalid htag)
    · have hempty : ciphertext = [] := by tauto
      have hmode : config.mode ≠ .gcm := fun hgcm => hchecked (.inl hgcm)
      subst hempty
      exact .inl ⟨scan_tag_empty_errs hvalid htag hmode, scan_tag_empty_errs hvalid htag hmode⟩

/-- ChaCha20 as its token gives it, in block mode, with the tag of the sealed message. -/
def sealedConfig : ScanConfig :=
  { (default : ScanConfig) with
    ciphers := [.chaCha20], nonce := some sealedNonce, tag := some sealedTag }

theorem tagged_scan_ignores_oracles_sample :
    Agree ScanResult.hits ScanResult.hits
      (scan sealedCrates sealedKey sealedCiphertext [utf8Oracle] sealedConfig)
      (scan sealedCrates sealedKey sealedCiphertext [gzipOracle, jsonOracle] sealedConfig) :=
  (tagged_scan_ignores_oracles_iff _ _ _ _ sealedTag _ _ (by decide) rfl).mpr
    (.inr (.inr (by simp)))

/-- The key is found under an oracle that nobody asks, and the same request is refused without. -/
theorem tagged_scan_without_oracles_rejected :
    validateConfig sealedConfig = .ok () ∧
    exitCode (scan sealedCrates sealedKey sealedCiphertext [utf8Oracle] sealedConfig) = 0 ∧
    ¬ Agree ScanResult.hits ScanResult.hits
      (scan sealedCrates sealedKey sealedCiphertext [utf8Oracle] sealedConfig)
      (scan sealedCrates sealedKey sealedCiphertext [] sealedConfig) := by
  refine ⟨by decide, by decide +kernel, ?_⟩
  intro hagree
  have hconfig : validateConfig sealedConfig = .ok () := by decide
  have hvalid := validateConfig_ok hconfig
  have hmode : sealedConfig.mode ≠ .gcm := by decide
  have hne : sealedCiphertext ≠ [] := by decide
  have herr := hagree.errs_iff
  rw [scan_tag_errs_iff hvalid hconfig rfl hmode hne,
    scan_tag_errs_iff hvalid hconfig rfl hmode hne] at herr
  exact absurd (herr.mpr rfl) (by simp)

/-- Two verdicts on one window: what the first finds the second finds too, and where the mode is
the same it is rated no lower. -/
def Keeps (x y : Option Hit) : Prop :=
  ∀ h, x = some h → ∃ h', y = some h' ∧
    (h'.mode = h.mode → h.confidence.rank ≤ h'.confidence.rank)

def Hit.verdict (h : Hit) : String × Nat × Mode × Confidence :=
  (h.algo, h.keyOffset, h.mode, h.confidence)

section MoreOracles
variable {crates : Crates} {dump ciphertext : Bytes} {config : ScanConfig} {O₁ O₂ : List Oracle}

theorem Keeps.refl (x : Option Hit) : Keeps x x := fun h hx => ⟨h, hx, fun _ => le_rfl⟩

theorem keeps_judge (hsub : ∀ o ∈ O₁, o ∈ O₂) (head : Bytes) (r₁ r₂ : String → Confidence → Hit)
    (h₁ : ∀ name conf, (r₁ name conf).confidence = conf)
    (h₂ : ∀ name conf, (r₂ name conf).confidence = conf) :
    Keeps (judge O₁ head r₁) (judge O₂ head r₂) := by
  intro h hjudge
  obtain ⟨name, conf, hbest, rfl⟩ := judge_eq_some.mp hjudge
  obtain ⟨name', conf', hbest', hrank⟩ := bestMatch_more hsub hbest
  refine ⟨r₂ name' conf', judge_eq_some.mpr ⟨name', conf', hbest', rfl⟩, fun _ => ?_⟩
  rw [h₁, h₂]
  exact hrank

/-- An added oracle may take the ECB reading of a window whose CBC reading was reported before:
the window stays reported, in the other mode. -/
theorem keeps_blockWindow {block : Nat} (R : BlockRequest block) (cipher : BlockCipher)
    (hsub : ∀ o ∈ O₁, o ∈ O₂) (algo : String) (w : Bytes × Nat) :
    Keeps (blockWindow R cipher dump O₁ config algo w)
      (blockWindow R cipher dump O₂ config algo w) := by
  intro h hw
  have hecb := keeps_judge hsub (R.ecbHead (cipher.decryption w.1))
    (blockHit algo .ecb w.1 w.2 none none [] (R.ecbPlain (cipher.decryption w.1)))
    (blockHit algo .ecb w.1 w.2 none none [] (R.ecbPlain (cipher.decryption w.1)))
    (fun _ _ => rfl) (fun _ _ => rfl)
  rw [blockWindow, Option.or_eq_some_iff] at hw
  rcases hw with hw | ⟨_, hw⟩
  · obtain ⟨h', hh', hrank⟩ := hecb h hw
    exact ⟨h', by rw [blockWindow, hh']; rfl, hrank⟩
  · obtain ⟨head, hhead, hjudge⟩ := Option.bind_eq_some_iff.mp hw
    obtain ⟨name, conf, _, hh⟩ := judge_eq_some.mp hjudge
    have hmode : h.mode = .cbc := by rw [← hh]; rfl
    cases hfirst : judge O₂ (R.ecbHead (cipher.decryption w.1))
        (blockHit algo .ecb w.1 w.2 none none [] (R.ecbPlain (cipher.decryption w.1))) with
    | some h' =>
        obtain ⟨name', conf', _, rfl⟩ := judge_eq_some.mp hfirst
        refine ⟨_, by rw [blockWindow, hfirst]; rfl, fun hsame => ?_⟩
        rw [hmode] at hsame
        cases hsame
    | none =>
        obtain ⟨h', hh', hrank⟩ := keeps_judge hsub head
          (R.cbcHit (cipher.decryption w.1) dump O₁ config algo w)
          (R.cbcHit (cipher.decryption w.1) dump O₂ config algo w)
          (fun _ _ => rfl) (fun _ _ => rfl) h hjudge
        refine ⟨h', ?_, hrank⟩
        rw [blockWindow, hfirst, Option.none_or, hhead]
        exact hh'

theorem keeps_counterWindow (cipher : BlockCipher) (hsub : ∀ o ∈ O₁, o ∈ O₂) (algo : String)
    (w : Bytes × Nat) :
    Keeps (counterWindow crates cipher ciphertext O₁ config algo w)
      (counterWindow crates cipher ciphertext O₂ config algo w) := by
  unfold counterWindow
  cases config.gcmTag with
  | some tag => exact Keeps.refl _
  | none => exact keeps_judge hsub _ _ _ (fun _ _ => rfl) (fun _ _ => rfl)

theorem keeps_streamWindow (c : CipherChoice) (hsub : ∀ o ∈ O₁, o ∈ O₂) (w : Bytes × Nat) :
    Keeps (streamWindow crates c ciphertext O₁ config w)
      (streamWindow crates c ciphertext O₂ config w) := by
  unfold streamWindow
  cases config.tag with
  | some tag => exact Keeps.refl _
  | none => exact keeps_judge hsub _ _ _ (fun _ _ => rfl) (fun _ _ => rfl)

theorem keeps_windowHit (hsub : ∀ o ∈ O₁, o ∈ O₂) (c : CipherChoice) (w : Bytes × Nat) :
    Keeps (windowHit crates dump ciphertext O₁ config c w)
      (windowHit crates dump ciphertext O₂ config c w) := by
  unfold windowHit
  split
  · exact keeps_streamWindow c hsub w
  · split
    · cases BlockRequest.of _ ciphertext config.fixedIv with
      | none => exact Keeps.refl _
      | some R => exact keeps_blockWindow R _ hsub _ w
    · exact keeps_counterWindow _ hsub _ w

theorem verdict_judge (hmem : ∀ o, o ∈ O₁ ↔ o ∈ O₂) (head : Bytes)
    (r₁ r₂ : String → Confidence → Hit) {v : Confidence → String × Nat × Mode × Confidence}
    (h₁ : ∀ name conf, (r₁ name conf).verdict = v conf)
    (h₂ : ∀ name conf, (r₂ name conf).verdict = v conf) :
    (judge O₁ head r₁).map Hit.verdict = (judge O₂ head r₂).map Hit.verdict := by
  have hread : ∀ (oracles : List Oracle) (r : String → Confidence → Hit),
      (∀ name conf, (r name conf).verdict = v conf) →
      (judge oracles head r).map Hit.verdict = ((bestMatch oracles head).map Prod.snd).map v := by
    intro oracles r hr
    rw [judge, Option.map_map, Option.map_map]
    congr 1
    funext m
    exact hr m.1 m.2
  rw [hread O₁ r₁ h₁, hread O₂ r₂ h₂, bestMatch_rating hmem]

theorem verdict_blockWindow {block : Nat} (R : BlockRequest block) (cipher : BlockCipher)
    (hmem : ∀ o, o ∈ O₁ ↔ o ∈ O₂) (algo : String) (w : Bytes × Nat) :
    (blockWindow R cipher dump O₁ config algo w).map Hit.verdict =
      (blockWindow R cipher dump O₂ config algo w).map Hit.verdict := by
  have hecb := verdict_judge hmem (R.ecbHead (cipher.decryption w.1))
    (blockHit algo .ecb w.1 w.2 none none [] (R.ecbPlain (cipher.decryption w.1)))
    (blockHit algo .ecb w.1 w.2 none none [] (R.ecbPlain (cipher.decryption w.1)))
    (v := fun conf => (algo, w.2, .ecb, conf)) (fun _ _ => rfl) (fun _ _ => rfl)
  have hcbc := fun head => verdict_judge hmem head
    (R.cbcHit (cipher.decryption w.1) dump O₁ config algo w)
    (R.cbcHit (cipher.decryption w.1) dump O₂ config algo w)
    (v := fun conf => (algo, w.2, .cbc, conf)) (fun _ _ => rfl) (fun _ _ => rfl)
  simp only [blockWindow, Option.map_or, hecb]
  congr 1
  cases R.cbcHead (cipher.decryption w.1) with
  | none => rfl
  | some head => exact hcbc head

theorem verdict_windowHit (hmem : ∀ o, o ∈ O₁ ↔ o ∈ O₂) (c : CipherChoice) (w : Bytes × Nat) :
    (windowHit crates dump ciphertext O₁ config c w).map Hit.verdict =
      (windowHit crates dump ciphertext O₂ config c w).map Hit.verdict := by
  unfold windowHit
  split
  · unfold streamWindow
    cases config.tag with
    | some tag => rfl
    | none =>
        exact verdict_judge hmem _ _ _ (v := fun conf => (c.label, w.2, .stream, conf))
          (fun _ _ => rfl) (fun _ _ => rfl)
  · split
    · cases BlockRequest.of _ ciphertext config.fixedIv with
      | none => rfl
      | some R => exact verdict_blockWindow R _ hmem _ w
    · unfold counterWindow
      cases config.gcmTag with
      | some tag => rfl
      | none =>
          exact verdict_judge hmem _ _ _ (v := fun conf => (c.label, w.2, hitMode config.mode, conf))
            (fun _ _ => rfl) (fun _ _ => rfl)

theorem verdict_cipherHits (hmem : ∀ o, o ∈ O₁ ↔ o ∈ O₂) (c : CipherChoice) :
    (cipherHits crates dump ciphertext O₁ config c).map Hit.verdict =
      (cipherHits crates dump ciphertext O₂ config c).map Hit.verdict := by
  rw [cipherHits, cipherHits, Windows.search, Windows.search, List.map_filterMap,
    List.map_filterMap]
  congr 1
  funext w
  exact verdict_windowHit hmem c w

/-- The keystream covers the ciphertext wherever a scan without a tag decrypts with one. -/
def KeystreamCovers (crates : Crates) (ciphertext : Bytes) (config : ScanConfig) : Prop :=
  config.tag = none → ∀ c ∈ config.ciphers, c.isStreamCipher = true →
    ciphertext.length ≤ c.keystreamLimit crates

theorem cipherPart_more_oracles (hvalid : config.Valid) {c : CipherChoice} (hc : c ∈ config.ciphers)
    (hcovers : KeystreamCovers crates ciphertext config)
    (h : ∃ part, cipherPart crates dump ciphertext O₁ config c = .ok part) :
    ∃ part, cipherPart crates dump ciphertext O₂ config c = .ok part := by
  obtain ⟨part, hpart⟩ := h
  cases htag : config.tag with
  | some tag =>
      refine ⟨part, ?_⟩
      rw [← hpart, cipherPart, cipherPart,
        @scanCipher_tag_congr crates dump ciphertext O₂ O₁ config tag hvalid htag c hc]
  | none =>
      have hout₁ := @cipherPart_outcome crates dump ciphertext O₁ config hvalid c hc
      have hout₂ := @cipherPart_outcome crates dump ciphertext O₂ config hvalid c hc
      rw [hpart] at hout₁
      generalize hr : cipherPart crates dump ciphertext O₂ config c = r at hout₂
      cases hout₂ with
      | skipped => exact ⟨_, rfl⟩
      | found => exact ⟨_, rfl⟩
      | rejected hreach hunfit =>
          cases hout₁ with
          | skipped hnot => exact absurd hreach hnot
          | found _ hfits => exact absurd hfits hunfit
      | exhausted _ hstream hlong =>
          have := hcovers htag c hc hstream
          omega

theorem Admitted.more (hadm : Admitted O₁ config) (hsub : ∀ o ∈ O₁, o ∈ O₂) :
    Admitted O₂ config := by
  refine ⟨hadm.1, fun hnone => hadm.2 ⟨hnone.1, ?_⟩⟩
  apply List.eq_nil_iff_forall_not_mem.mpr
  intro o ho
  have hmem := hsub o ho
  rw [hnone.2] at hmem
  cases hmem

theorem mem_cipherHits {c : CipherChoice} {h : Hit} :
    h ∈ cipherHits crates dump ciphertext O₁ config c ↔ ∃ o, o + c.keyLen ≤ dump.length ∧
      windowHit crates dump ciphertext O₁ config c (Bytes.slice dump o c.keyLen, o) = some h :=
  Windows.mem_search

theorem hit_more_oracles (hsub : ∀ o ∈ O₁, o ∈ O₂) {c : CipherChoice} {h : Hit}
    (hmem : h ∈ cipherHits crates dump ciphertext O₁ config c) :
    ∃ h' ∈ cipherHits crates dump ciphertext O₂ config c,
      h'.algo = h.algo ∧ h'.keyOffset = h.keyOffset := by
  obtain ⟨o, ho, hw⟩ := mem_cipherHits.mp hmem
  obtain ⟨h', hw', _⟩ := keeps_windowHit hsub c _ h hw
  have hfound := foundAt_windowHit hw
  have hfound' := foundAt_windowHit hw'
  exact ⟨h', mem_cipherHits.mpr ⟨o, ho, hw'⟩, hfound'.algo.trans hfound.algo.symm,
    hfound'.offset.trans hfound.offset.symm⟩

theorem rank_more_oracles (hsub : ∀ o ∈ O₁, o ∈ O₂) {c c' : CipherChoice} {h h' : Hit}
    (hmem : h ∈ cipherHits crates dump ciphertext O₁ config c)
    (hmem' : h' ∈ cipherHits crates dump ciphertext O₂ config c')
    (halgo : h'.algo = h.algo) (hoffset : h'.keyOffset = h.keyOffset) (hmode : h'.mode = h.mode) :
    h.confidence.rank ≤ h'.confidence.rank := by
  obtain ⟨o, _, hw⟩ := mem_cipherHits.mp hmem
  obtain ⟨o', _, hw'⟩ := mem_cipherHits.mp hmem'
  have hfound := foundAt_windowHit hw
  have hfound' := foundAt_windowHit hw'
  have hsame : c' = c := by
    apply CipherChoice.label_inj
    rw [← hfound'.algo, halgo, hfound.algo]
  have hat : o' = o := by
    have := hfound.offset
    have := hfound'.offset
    omega
  subst hsame
  subst hat
  obtain ⟨k, hk, hrank⟩ := keeps_windowHit hsub c' _ h hw
  rw [hw', Option.some.injEq] at hk
  subst hk
  exact hrank hmode

end MoreOracles

/-- More oracles lose no key, rate no reading lower, and an order of the oracles changes no
verdict. -/
theorem scan_more_oracles (crates : Crates) (dump ciphertext : Bytes) (config : ScanConfig)
    (O₁ O₂ : List Oracle) (hmax : config.maxHits = 0) (hsub : ∀ o ∈ O₁, o ∈ O₂)
    (hcovers : KeystreamCovers crates ciphertext config) (r₁ : ScanResult)
    (hscan : scan crates dump ciphertext O₁ config = .ok r₁) :
    ∃ r₂, scan crates dump ciphertext O₂ config = .ok r₂ ∧
      (∀ h₁ ∈ r₁.hits,
        (∃ h₂ ∈ r₂.hits, h₂.algo = h₁.algo ∧ h₂.keyOffset = h₁.keyOffset) ∧
        ∀ h₂ ∈ r₂.hits, h₂.algo = h₁.algo → h₂.keyOffset = h₁.keyOffset →
          h₂.mode = h₁.mode → h₁.confidence.rank ≤ h₂.confidence.rank) ∧
      ((∀ o ∈ O₂, o ∈ O₁) → r₁.hits.map Hit.verdict = r₂.hits.map Hit.verdict) := by
  have hadm := admitted_of_scan hscan
  have hparts : ∀ c ∈ config.ciphers,
      ∃ part, cipherPart crates dump ciphertext O₂ config c = .ok part :=
    fun c hc => cipherPart_more_oracles hadm.valid hc hcovers (parts_of_scan hmax hscan c hc)
  obtain ⟨r₂, hscan₂, hhits₂⟩ := scan_of_parts (hadm.more hsub) hmax hparts
  have hhits₁ := hits_of_scan hmax hscan
  refine ⟨r₂, hscan₂, ?_, ?_⟩
  · intro h₁ hmem₁
    rw [hhits₁] at hmem₁
    obtain ⟨c, hc, hin⟩ := List.mem_flatMap.mp hmem₁
    constructor
    · obtain ⟨h₂, hin₂, hsame⟩ := hit_more_oracles hsub hin
      refine ⟨h₂, ?_, hsame⟩
      rw [hhits₂]
      exact List.mem_flatMap.mpr ⟨c, hc, hin₂⟩
    · intro h₂ hmem₂ halgo hoffset hmode
      rw [hhits₂] at hmem₂
      obtain ⟨c₂, _, hin₂⟩ := List.mem_flatMap.mp hmem₂
      exact rank_more_oracles hsub hin hin₂ halgo hoffset hmode
  · intro hback
    rw [hhits₁, hhits₂, List.map_flatMap, List.map_flatMap]
    apply List.flatMap_congr
    intro c _
    exact verdict_cipherHits (fun o => ⟨hsub o, hback o⟩) c

theorem scan_more_oracles_sample :
    ∃ r₂, scan sampleCrates sampleKey sampleCiphertext [gzipOracle, jsonOracle, utf8Oracle]
      sampleConfig = .ok r₂ ∧ ∃ h₂ ∈ r₂.hits, h₂.algo = "aes-128" ∧ h₂.keyOffset = 0 := by
  have hsub : ∀ o ∈ [jsonOracle], o ∈ [gzipOracle, jsonOracle, utf8Oracle] := by
    intro o ho
    rw [List.mem_singleton.mp ho]
    simp
  have hcovers : KeystreamCovers sampleCrates sampleCiphertext sampleConfig := by
    intro _ c hc hstream
    rw [List.mem_singleton.mp hc] at hstream
    cases hstream
  obtain ⟨r₂, hscan₂, hkept, _⟩ := scan_more_oracles sampleCrates sampleKey sampleCiphertext
    sampleConfig [jsonOracle] [gzipOracle, jsonOracle, utf8Oracle] rfl hsub hcovers sampleResult
    (by decide +kernel)
  exact ⟨r₂, hscan₂, (hkept sampleHit (List.mem_singleton.mpr rfl)).1⟩

end Memhunt
