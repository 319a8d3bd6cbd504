import Memhunt.Scan.IvRecovery
import Memhunt.Scan.KnownFragment
import Memhunt.Scan.Pieces

/-! The IVs that a CBC hit names, given to a second scan of the same dump. -/
namespace Memhunt
open Rust
open Bytes (slice)

/-- The request for one cipher under a known IV, without a limit. -/
def ScanConfig.withIv (config : ScanConfig) (c : CipherChoice) (iv : Bytes) : ScanConfig :=
  { config with ciphers := [c], fixedIv := some iv, maxHits := 0 }

/-- The hit of the second scan for a candidate of the first: the same key on the same evidence, and
the block of the candidate in front of the same text. With the IV that the first hit settled on it
is that hit, less the search. -/
structure Hit.Resumes (h : Hit) (rest : Bytes) (cand : IvCandidate) (again : Hit) : Prop where
  key : again.keyReport = h.keyReport
  iv : again.ivHex = some cand.ivHex
  settled : again.ivOffset = none ∧ again.ivCandidates = []
  text : ∃ first, cand.block0Hex = Hex.encode first ∧ again.Reports (first ++ rest)
  named : h.ivHex = some cand.ivHex → again = { h with ivOffset := none, ivCandidates := [] }

section Window
variable {crates : Crates} {dump ciphertext : Bytes} {oracles : List Oracle} {config : ScanConfig}
  {c : CipherChoice} {w : Bytes × Nat} {h : Hit}

theorem block_of_cbc (hw : windowHit crates dump ciphertext oracles config c w = some h)
    (hcbc : h.mode = .cbc) : ∃ cipher, c.adapter crates = .ok cipher ∧ config.mode = .block := by
  unfold windowHit at hw
  split at hw
  · unfold streamWindow at hw
    cases htag : config.tag with
    | some tag =>
        simp only [htag] at hw
        obtain ⟨_, _, rfl⟩ := Option.map_eq_some_iff.mp hw
        cases hcbc
    | none =>
        simp only [htag] at hw
        obtain ⟨_, _, _, rfl⟩ := judge_eq_some.mp hw
        cases hcbc
  · rename_i cipher hadapter
    refine ⟨cipher, hadapter, ?_⟩
    by_contra hmode
    have hcounter : hitMode config.mode ≠ .cbc := by
      cases config.mode <;> exact fun heq => by cases heq
    rw [if_neg hmode] at hw
    unfold counterWindow at hw
    cases htag : config.gcmTag with
    | some tag =>
        simp only [htag] at hw
        obtain ⟨_, _, rfl⟩ := Option.map_eq_some_iff.mp hw
        exact hcounter hcbc
    | none =>
        simp only [htag] at hw
        obtain ⟨_, _, _, rfl⟩ := judge_eq_some.mp hw
        exact hcounter hcbc

/-- Without a given IV a window is read as CBC only where there are blocks behind the first one. -/
theorem cbc_of_blockWindow {cipher : BlockCipher} {R : BlockRequest cipher.blockLen}
    (hfixed : R.fixedIv = none) {algo : String}
    (hw : blockWindow R cipher dump oracles config algo w = some h) (hcbc : h.mode = .cbc) :
    2 ≤ R.blocks.length ∧ ¬ Accepts oracles (R.ecbHead (cipher.decryption w.1)) ∧
      ∃ name conf, bestMatch oracles ((R.cbcTail (cipher.decryption w.1)).take 2).flatten =
          some (name, conf) ∧
        R.cbcHit (cipher.decryption w.1) dump oracles config algo w name conf = h := by
  have htwo : 2 ≤ R.blocks.length := by
    have hpos := List.length_pos_iff.mpr R.nonempty
    by_contra hshort
    rw [blockWindow, cbcHead_single R _ (by omega), hfixed, Option.map_none, Option.bind_none,
      Option.or_none] at hw
    obtain ⟨_, _, _, rfl⟩ := judge_eq_some.mp hw
    cases hcbc
  obtain ⟨hecb, name, conf, hbest, hhit⟩ :=
    (@blockWindow_cbc_iff dump oracles config cipher algo w R htwo (· = h)).mp ⟨h, hw, hcbc, rfl⟩
  exact ⟨htwo, hecb, name, conf, hbest, hhit⟩

theorem candidate_of_cbcHit {block : Nat} {R : BlockRequest block} {D : Bytes → Bytes}
    (hfixed : R.fixedIv = none) {algo name : String} {conf : Confidence} {cand : IvCandidate}
    (hcand : cand ∈ (R.cbcHit D dump oracles config algo w name conf).ivCandidates) :
    ∃ cands, R.block0 D dump oracles config = .scanned block cands ∧
      (∀ x ∈ cands, x.iv.length = block ∧ x.first = Bytes.xor (D R.first) x.iv) ∧
      ∃ x ∈ cands, x.candidate = cand := by
  have hcand' : cand ∈ (R.block0 D dump oracles config).ivCandidates := hcand
  cases hsearch : config.scanIv && decide (block ≤ dump.length) with
  | false =>
      simp only [BlockRequest.block0, hfixed, hsearch] at hcand'
      cases hcand'
  | true =>
      have hblock0 : R.block0 D dump oracles config = .scanned block
          (ivHits dump (D R.first) ((R.cbcTail D).take verifyBlocks).flatten block oracles) := by
        simp only [BlockRequest.block0, hfixed, hsearch, if_true]
      rw [hblock0, scanned_candidates] at hcand'
      obtain ⟨x, hx, hxcand⟩ := List.mem_map.mp hcand'
      refine ⟨_, hblock0, ?_, x, hx, hxcand⟩
      intro y hy
      obtain ⟨⟨hinside, hiv⟩, hfirst⟩ := mem_ivHits hy
      exact ⟨by rw [hiv, Bytes.length_slice hinside], hfirst⟩

/-- The window under a candidate's IV: judged as before, with the block of the candidate. -/
theorem resumes_of_candidate {block : Nat} {R R' : BlockRequest block} {D : Bytes → Bytes}
    (hblocks : R'.blocks = R.blocks) {x : IvHit} (hgiven : R'.fixedIv = some x.iv)
    {cands : List IvHit} (hblock0 : R.block0 D dump oracles config = .scanned block cands)
    (hfirst : ∀ y ∈ cands, y.first = Bytes.xor (D R.first) y.iv) (hx : x ∈ cands)
    {config' : ScanConfig} {algo name : String} {conf : Confidence} :
    (R.cbcHit D dump oracles config algo w name conf).Resumes (R.cbcTail D).flatten x.candidate
      (R'.cbcHit D dump oracles config' algo w name conf) := by
  have hagain : R'.block0 D dump oracles config' = .fixed x.first x.iv := by
    rw [BlockRequest.block0, hgiven, hfirst x hx, BlockRequest.first, hblocks]
    rfl
  have htail : R'.cbcTail D = R.cbcTail D := by rw [BlockRequest.cbcTail, hblocks]; rfl
  have hhit : R'.cbcHit D dump oracles config' algo w name conf =
      blockHit algo .cbc w.1 w.2 (some (Hex.encode x.iv)) none []
        (x.first ++ (R.cbcTail D).flatten) name conf := by
    rw [BlockRequest.cbcHit, hagain, htail]
    rfl
  rw [hhit]
  refine ⟨rfl, rfl, ⟨rfl, rfl⟩, ⟨x.first, rfl, rfl, rfl, rfl⟩, ?_⟩
  intro hnamed
  have hsettled : (Block0.scanned block cands).ivHex = some (Hex.encode x.iv) := hblock0 ▸ hnamed
  obtain ⟨y, hy, hiv⟩ := scanned_named_iff.mp hsettled
  have hhead : (Block0.scanned block cands).headBlock = x.first := by
    obtain ⟨rest, rfl⟩ := List.head?_eq_some_iff.mp hy
    rw [hfirst x hx, ← hiv]
    exact hfirst y List.mem_cons_self
  rw [BlockRequest.cbcHit, hblock0, hhead, hsettled]
  rfl

theorem resumed_window {cipher : BlockCipher} {R R' : BlockRequest cipher.blockLen}
    (hblocks : R'.blocks = R.blocks) {x : IvHit} (hgiven : R'.fixedIv = some x.iv)
    (htwo : 2 ≤ R.blocks.length) (hecb : ¬ Accepts oracles (R.ecbHead (cipher.decryption w.1)))
    {name : String} {conf : Confidence}
    (hbest : bestMatch oracles ((R.cbcTail (cipher.decryption w.1)).take 2).flatten =
      some (name, conf)) {cands : List IvHit}
    (hblock0 : R.block0 (cipher.decryption w.1) dump oracles config =
      .scanned cipher.blockLen cands)
    (hfirst : ∀ y ∈ cands, y.first = Bytes.xor (cipher.decryption w.1 R.first) y.iv)
    (hx : x ∈ cands) {config' : ScanConfig} {algo : String} :
    ∃ again, blockWindow R' cipher dump oracles config' algo w = some again ∧
      (R.cbcHit (cipher.decryption w.1) dump oracles config algo w name conf).Resumes
        (R.cbcTail (cipher.decryption w.1)).flatten x.candidate again := by
  have hecb' : ¬ Accepts oracles (R'.ecbHead (cipher.decryption w.1)) := by
    rw [BlockRequest.ecbHead, hblocks]
    exact hecb
  have hbest' : bestMatch oracles ((R'.cbcTail (cipher.decryption w.1)).take 2).flatten =
      some (name, conf) := by
    rw [BlockRequest.cbcTail, hblocks]
    exact hbest
  obtain ⟨again, hagain, _, hresumes⟩ := (@blockWindow_cbc_iff dump oracles config' cipher algo w R'
    (hblocks ▸ htwo) _).mpr
    ⟨hecb', name, conf, hbest', resumes_of_candidate hblocks hgiven hblock0 hfirst hx⟩
  exact ⟨again, hagain, hresumes⟩

end Window

section Rerun
variable {crates : Crates} {dump ciphertext : Bytes} {oracles : List Oracle} {config : ScanConfig}
  {c : CipherChoice} {cipher : BlockCipher} {o : Nat} {iv : Bytes}

theorem ScanConfig.Valid.withIv (h : config.Valid) (hc : c ∈ config.ciphers)
    (hstream : c.isStreamCipher = false) (hmode : config.mode = .block) (iv : Bytes) :
    (config.withIv c iv).Valid := by
  have hone : ∀ d ∈ (config.withIv c iv).ciphers, d.isStreamCipher = false := by
    intro d hd
    rw [List.mem_singleton.mp hd]
    exact hstream
  cases h with
  | stream nonce hsome hall =>
      rw [hall c hc] at hstream
      cases hstream
  | block hnone hmode hnonce htag haad => exact .block hone hmode hnonce htag haad
  | ctr nonce haes hctr =>
      rw [hmode] at hctr
      cases hctr
  | gcm nonce haes hgcm =>
      rw [hmode] at hgcm
      cases hgcm

theorem unhindered_withIv (h : config.Valid) (hc : c ∈ config.ciphers)
    (hstream : c.isStreamCipher = false) (hmode : config.mode = .block) :
    Unhindered dump ciphertext (config.withIv c iv) c where
  valid := validateConfig_of_valid (h.withIv hc hstream hmode iv)
  unlimited := rfl
  others _ hd hne := absurd (List.mem_singleton.mp hd) hne

theorem fits_withIv (hfits : Fits ciphertext config c) (hstream : c.isStreamCipher = false)
    (hmode : config.mode = .block) (hiv : iv.length = c.blockLen) :
    Fits ciphertext (config.withIv c iv) c := by
  refine ⟨hfits.1, fun _ _ => ⟨(hfits.2 hstream hmode).1, ?_⟩⟩
  intro given hgiven
  obtain rfl := Option.some.inj hgiven
  exact hiv

end Rerun

/-- Every IV that a CBC hit lists can be given back: a second scan with it, for the cipher of the
hit alone, reports the same key with the block of that candidate, and with the IV that the hit
settled on the same hit. -/
theorem iv_candidates_replay (crates : Crates) (dump ciphertext : Bytes) (oracles : List Oracle)
    (config : ScanConfig) (r : ScanResult) (h : Hit) (hnoIv : config.fixedIv = none)
    (hscan : scan crates dump ciphertext oracles config = .ok r) (hmem : h ∈ r.hits)
    (hcbc : h.mode = .cbc) :
    ∃ c ∈ config.ciphers, h.algo = c.label ∧ ∃ front rest, h.Reports (front ++ rest) ∧
      ∀ cand ∈ h.ivCandidates, ∃ iv again, cand.ivHex = Hex.encode iv ∧
        scan crates dump ciphertext oracles (config.withIv c iv) = .ok again ∧
        ∃ h' ∈ again.hits, h.Resumes rest cand h' := by
  obtain ⟨c, hc, _, hfits, o, ho, hw⟩ := hit_of_scan hscan hmem
  obtain ⟨cipher, hadapter, hmode⟩ := block_of_cbc hw hcbc
  have hadm := admitted_of_scan hscan
  have hstream := CipherChoice.not_stream_of_adapter hadapter
  obtain ⟨hkey, hblock⟩ := CipherChoice.lengths_of_adapter hadapter
  have hpos := (CipherChoice.adapter_lawful hadapter).blockPos
  obtain ⟨R, hR, hblocks, hfixed⟩ := BlockRequest.of_fits hfits hstream hmode hblock hpos
  rw [hnoIv] at hfixed
  have halgo := (foundAt_windowHit hw).algo
  rw [windowHit_block hadapter hmode hR] at hw
  obtain ⟨htwo, hecb, name, conf, hbest, rfl⟩ := cbc_of_blockWindow hfixed hw hcbc
  refine ⟨c, hc, halgo,
    (R.block0 (cipher.decryption (slice dump o c.keyLen)) dump oracles config).headBlock,
    (R.cbcTail (cipher.decryption (slice dump o c.keyLen))).flatten, ⟨rfl, rfl, rfl⟩, ?_⟩
  intro cand hcand
  obtain ⟨cands, hblock0, hcands, x, hx, rfl⟩ := candidate_of_cbcHit hfixed hcand
  have hplanted : Planted crates dump (config.withIv c x.iv) c cipher o :=
    ⟨List.mem_singleton_self c, hadapter, hkey ▸ ho⟩
  have hfits' := fits_withIv hfits hstream hmode ((hcands x hx).1.trans hblock)
  have horacles : oracles ≠ [] := by
    rintro rfl
    obtain ⟨oracle, hmem, _⟩ := accepts_iff_bestMatch.mpr ⟨name, conf, hbest⟩
    cases hmem
  obtain ⟨again, hagain⟩ := hplanted.scan_ok (unhindered_withIv hadm.valid hc hstream hmode)
    hfits' horacles
  obtain ⟨R', hR', hblocks', hgiven⟩ := BlockRequest.of_fits hfits' hstream hmode hblock hpos
  have hsame : R'.blocks = R.blocks := hblocks'.trans hblocks.symm
  refine ⟨x.iv, again, rfl, hagain, ?_⟩
  obtain ⟨h', hw', hresumes⟩ := resumed_window hsame hgiven htwo hecb hbest hblock0
    (fun y hy => (hcands y hy).2) hx
  have hmode' : (config.withIv c x.iv).mode = .block := hmode
  obtain ⟨again', hmem', _, _, hfound⟩ := (hplanted.hits_at rfl hagain _).mpr
    ⟨h', by rw [windowHit_block hadapter hmode' hR', hkey, hw'], hresumes⟩
  exact ⟨again', hmem', hfound⟩

theorem iv_candidates_replay_sample : ∃ r h cand,
    scan cbcCrates sampleKey roleCiphertext [knownPlaintextOracle (ascii "role")] sampleConfig =
      .ok r ∧ h ∈ r.hits ∧ h.ivCandidates = [cand] ∧ ∃ c iv again rest, cand.ivHex = Hex.encode iv ∧
        scan cbcCrates sampleKey roleCiphertext [knownPlaintextOracle (ascii "role")]
          (sampleConfig.withIv c iv) = .ok again ∧
        ∃ h' ∈ again.hits, h.Resumes rest cand h' := by
  have hhits : (scan cbcCrates sampleKey roleCiphertext [knownPlaintextOracle (ascii "role")]
      sampleConfig).map (fun r => r.hits.map fun h => (h.mode, h.ivCandidates.length)) =
      .ok [(.cbc, 1)] := by decide +kernel
  obtain ⟨r, hr, h, hmem, hfields⟩ := exists_hit_of_hits hhits (List.mem_singleton_self _)
  rw [Prod.mk.injEq, List.length_eq_one_iff] at hfields
  obtain ⟨hcbc, cand, hcand⟩ := hfields
  obtain ⟨c, _, _, _, rest, _, hreplay⟩ := iv_candidates_replay cbcCrates sampleKey roleCiphertext
    [knownPlaintextOracle (ascii "role")] sampleConfig r h rfl hr hmem hcbc
  obtain ⟨iv, again, hiv, hagain, hresumes⟩ := hreplay cand (hcand ▸ List.mem_singleton_self cand)
  exact ⟨r, h, cand, hr, hmem, hcand, c, iv, again, rest, hiv, hagain, hresumes⟩

end Memhunt
