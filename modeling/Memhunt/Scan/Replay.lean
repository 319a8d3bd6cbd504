import Memhunt.Scan.KnownFragment

/-! Every hit can be replayed from the inputs of its scan: the key is in the dump where the hit says,
and the reported text is the textbook decryption under it. -/
namespace Memhunt
open Rust

def Hit.MatchedOn (h : Hit) (oracles : List Oracle) (region : Bytes) : Prop :=
  ∃ o ∈ oracles, o.name = h.matchedBy ∧ o.confidence = h.confidence ∧ o.verify region = true

/-- Where block 0 of a CBC hit comes from: nowhere, the configured IV, or the best IV of the
dump. -/
inductive Hit.Block0From (h : Hit) (dump : Bytes) (config : ScanConfig) (block : Nat)
    (dec0 b0 : Bytes) : Prop
  | unknown (hiv : h.ivHex = none) (hoffset : h.ivOffset = none)
      (hcands : h.ivCandidates = []) (hb0 : b0 = unknownBlock0 block)
  | fixed (iv : Bytes) (hiv : h.ivHex = some (Hex.encode iv)) (hoffset : h.ivOffset = none)
      (hconfig : config.fixedIv = some iv) (hb0 : b0 = Bytes.xor dec0 iv)
  | scanned (iv : Bytes) (q : Nat) (best : IvCandidate) (rest : List IvCandidate)
      (hiv : h.ivHex = some (Hex.encode iv)) (hoffset : h.ivOffset = some q)
      (hdump : q + block ≤ dump.length ∧ iv = Bytes.slice dump q block)
      (hb0 : b0 = Bytes.xor dec0 iv) (hcands : h.ivCandidates = best :: rest)
      (hbest : best.ivHex = Hex.encode iv ∧ best.ivOffset = q ∧ best.block0Hex = Hex.encode b0)

section Textbook
variable (cipher : BlockCipher) (key ciphertext : Bytes)

def cipherBlocks : List Bytes := Bytes.chunksExact cipher.blockLen ciphertext

def ecbText : List Bytes := Modes.ecbDecrypt (cipher.decryption key) (cipherBlocks cipher ciphertext)

def cbcText : List Bytes :=
  Modes.cbcTail (cipher.decryption key) Bytes.xor (cipherBlocks cipher ciphertext)

def counterText (nonce : Bytes) (mode : CipherMode) : Bytes :=
  Modes.counterMode (keystream cipher key nonce mode) (· ^^^ ·) ciphertext

end Textbook

/-- The fields of a hit of each mode, recomputed from the inputs and the key. -/
inductive Hit.Replays (h : Hit) (crates : Crates) (dump ciphertext : Bytes)
    (oracles : List Oracle) (config : ScanConfig) (c : CipherChoice) (key : Bytes) : Prop
  | ecb (cipher : BlockCipher) (hadapter : c.adapter crates = .ok cipher) (hmode : h.mode = .ecb)
      (hiv : h.ivHex = none ∧ h.ivOffset = none ∧ h.ivCandidates = [])
      (htext : h.Reports (ecbText cipher key ciphertext).flatten)
      (hmatch : h.MatchedOn oracles ((ecbText cipher key ciphertext).take 2).flatten)
  | cbc (cipher : BlockCipher) (first : Bytes) (rest : List Bytes) (b0 : Bytes)
      (hadapter : c.adapter crates = .ok cipher) (hmode : h.mode = .cbc)
      (hblocks : cipherBlocks cipher ciphertext = first :: rest)
      (hb0 : h.Block0From dump config cipher.blockLen (cipher.decryption key first) b0)
      (htext : h.Reports (b0 ++ (cbcText cipher key ciphertext).flatten))
      (hmatch : (rest ≠ [] ∧
          h.MatchedOn oracles ((cbcText cipher key ciphertext).take 2).flatten) ∨
        (rest = [] ∧ config.fixedIv ≠ none ∧ h.MatchedOn oracles b0))
  | counter (cipher : BlockCipher) (nonce : Bytes) (hadapter : c.adapter crates = .ok cipher)
      (hmode : (config.mode = .ctr ∧ h.mode = .ctr) ∨
        (config.mode = .gcm ∧ config.tag = none ∧ h.mode = .gcm))
      (hnonce : config.nonce = some nonce ∧ h.nonceHex = some (Hex.encode nonce))
      (htext : h.Shows (counterText cipher key ciphertext nonce config.mode))
      (hmatch : h.MatchedOn oracles
        ((counterText cipher key ciphertext nonce config.mode).take (min 32 ciphertext.length)))
  | gcmTag (nonce tag plaintext : Bytes) (hmode : config.mode = .gcm ∧ h.mode = .gcm)
      (hnonce : config.nonce = some nonce ∧ h.nonceHex = some (Hex.encode nonce))
      (htag : config.tag = some tag)
      (hopen : decryptGcmTagged crates key nonce ciphertext tag (config.aad.getD []) =
        .ok (some plaintext))
      (htext : h.Shows plaintext) (hmatch : h.matchedBy = "gcm-tag" ∧ h.confidence = .high)
  | stream (nonce : Bytes) (hstream : c.isStreamCipher = true) (hmode : h.mode = .stream)
      (hnonce : config.nonce = some nonce ∧ h.nonceHex = some (Hex.encode nonce))
      (htag : config.tag = none)
      (htext : h.Shows
        (Modes.counterMode (c.keystreamBytes crates key nonce) (· ^^^ ·) ciphertext))
      (hmatch : h.MatchedOn oracles
        ((Modes.counterMode (c.keystreamBytes crates key nonce) (· ^^^ ·) ciphertext).take
          (min 32 ciphertext.length)))
  | poly1305Tag (nonce tag plaintext : Bytes) (hstream : c.isStreamCipher = true)
      (hmode : h.mode = .stream)
      (hnonce : config.nonce = some nonce ∧ h.nonceHex = some (Hex.encode nonce))
      (htag : config.tag = some tag)
      (hopen : decryptPoly1305Tagged crates c.label key nonce ciphertext tag
        (config.aad.getD []) = .ok (some plaintext))
      (htext : h.Shows plaintext) (hmatch : h.matchedBy = "poly1305-tag" ∧ h.confidence = .high)

section Windows
variable {crates : Crates} {dump ciphertext : Bytes} {oracles : List Oracle} {config : ScanConfig}
  {c : CipherChoice} {h : Hit} {w : Bytes × Nat}

theorem matchedOn_of_bestMatch {name : String} {conf : Confidence} {region : Bytes}
    (hname : h.matchedBy = name) (hconf : h.confidence = conf)
    (hbest : bestMatch oracles region = some (name, conf)) : h.MatchedOn oracles region := by
  obtain ⟨o, ho, hv, hn, hc⟩ := bestMatch_some hbest
  exact ⟨o, ho, hn.trans hname.symm, hc.trans hconf.symm, hv⟩

theorem reports_blockHit {algo : String} {mode : Mode} {ivHex : Option String}
    {ivOffset : Option Nat} {cands : List IvCandidate} {plaintext : Bytes} {name : String}
    {conf : Confidence} :
    (blockHit algo mode w.1 w.2 ivHex ivOffset cands plaintext name conf).Reports plaintext :=
  ⟨rfl, rfl, rfl⟩

theorem block0From_cbcHit {block : Nat} (R : BlockRequest block) (D : Bytes → Bytes)
    (hiv : R.fixedIv = config.fixedIv) (algo name : String) (conf : Confidence) :
    (R.cbcHit D dump oracles config algo w name conf).Block0From dump config block (D R.first)
      (R.block0 D dump oracles config).headBlock := by
  unfold BlockRequest.cbcHit BlockRequest.block0
  cases hfixed : R.fixedIv with
  | some iv => exact .fixed iv rfl rfl (hiv ▸ hfixed) rfl
  | none =>
      cases config.scanIv && decide (block ≤ dump.length) with
      | false => exact .unknown rfl rfl rfl rfl
      | true =>
          simp only [if_true]
          generalize hcands : ivHits dump (D R.first) _ block oracles = cands
          cases cands with
          | nil => exact .unknown rfl rfl rfl rfl
          | cons best rest =>
              have hmem : best ∈ ivHits dump (D R.first) _ block oracles :=
                hcands ▸ List.mem_cons_self
              obtain ⟨hdump, hfirst⟩ := mem_ivHits hmem
              exact .scanned best.iv best.offset best.candidate (rest.map IvHit.candidate) rfl rfl
                hdump hfirst rfl ⟨rfl, rfl, rfl⟩

theorem replays_of_blockWindow {cipher : BlockCipher} (hadapter : c.adapter crates = .ok cipher)
    {R : BlockRequest cipher.blockLen} (hblocks : R.blocks = cipherBlocks cipher ciphertext)
    (hiv : R.fixedIv = config.fixedIv)
    (hw : blockWindow R cipher dump oracles config c.label w = some h) :
    h.Replays crates dump ciphertext oracles config c w.1 := by
  rw [blockWindow, Option.or_eq_some_iff] at hw
  rcases hw with hecb | ⟨_, hcbc⟩
  · obtain ⟨name, conf, hbest, rfl⟩ := judge_eq_some.mp hecb
    rw [BlockRequest.ecbHead, hblocks] at hbest
    refine .ecb cipher hadapter rfl ⟨rfl, rfl, rfl⟩ ?_ (matchedOn_of_bestMatch rfl rfl hbest)
    rw [ecbText, ← hblocks]
    exact reports_blockHit
  · obtain ⟨head, hhead, hjudge⟩ := Option.bind_eq_some_iff.mp hcbc
    obtain ⟨name, conf, hbest, rfl⟩ := judge_eq_some.mp hjudge
    obtain ⟨first, rest, hcons⟩ := List.exists_cons_of_ne_nil R.nonempty
    have hfirst : R.first = first := by rw [BlockRequest.first, hcons, List.headD_cons]
    have htail : R.cbcTail (cipher.decryption w.1) = cbcText cipher w.1 ciphertext := by
      rw [BlockRequest.cbcTail, cbcText, hblocks]
    have hb0 := @block0From_cbcHit dump oracles config w _ R (cipher.decryption w.1) hiv c.label
      name conf
    rw [hfirst] at hb0
    refine .cbc cipher first rest _ hadapter rfl (hblocks ▸ hcons) hb0 ?_ ?_
    · rw [← htail]
      exact reports_blockHit
    · unfold BlockRequest.cbcHead at hhead
      cases rest with
      | nil =>
          simp only [hcons, List.tail_cons, List.isEmpty_nil, if_true] at hhead
          obtain ⟨iv, hfixed, rfl⟩ := Option.map_eq_some_iff.mp hhead
          have hblock0 : (R.block0 (cipher.decryption w.1) dump oracles config).headBlock =
              Bytes.xor (cipher.decryption w.1 R.first) iv := by
            simp only [BlockRequest.block0, hfixed]
            rfl
          refine .inr ⟨rfl, by rw [← hiv, hfixed]; exact Option.some_ne_none iv, ?_⟩
          rw [hblock0]
          exact matchedOn_of_bestMatch rfl rfl hbest
      | cons second rest =>
          simp only [hcons, List.tail_cons, List.isEmpty_cons, Bool.false_eq_true, if_false,
            Option.some.injEq] at hhead
          subst hhead
          rw [htail] at hbest
          exact .inl ⟨List.cons_ne_nil second rest, matchedOn_of_bestMatch rfl rfl hbest⟩

theorem take_head_counterMode (ks : Nat → UInt8) (text : Bytes) :
    (Modes.counterMode ks (· ^^^ ·) text).take headLen =
      (Modes.counterMode ks (· ^^^ ·) text).take (min 32 text.length) := by
  rw [List.take_eq_take_min, Modes.length_counterMode, headLen]

theorem replays_of_counterWindow {cipher : BlockCipher} (hadapter : c.adapter crates = .ok cipher)
    (hmode : config.mode ≠ .block) {nonce : Bytes} (hnonce : config.nonce = some nonce)
    (hw : counterWindow crates cipher ciphertext oracles config c.label w = some h) :
    h.Replays crates dump ciphertext oracles config c w.1 := by
  cases htag : config.gcmTag with
  | some tag =>
      have hgcm : config.mode = .gcm ∧ config.tag = some tag := by
        simpa [ScanConfig.gcmTag] using htag
      rw [counterWindow_tag htag hnonce] at hw
      obtain ⟨plaintext, hopen, rfl⟩ := Option.map_eq_some_iff.mp hw
      exact .gcmTag nonce tag plaintext ⟨hgcm.1, by rw [hgcm.1]; rfl⟩ ⟨hnonce, rfl⟩ hgcm.2
        (answer_eq_some.mp hopen) ⟨rfl, rfl, rfl⟩ ⟨rfl, rfl⟩
  | none =>
      rw [counterWindow_oracle htag hnonce, take_head_counterMode] at hw
      obtain ⟨name, conf, hbest, rfl⟩ := judge_eq_some.mp hw
      refine .counter cipher nonce hadapter ?_ ⟨hnonce, rfl⟩ ⟨rfl, rfl, rfl⟩
        (matchedOn_of_bestMatch rfl rfl hbest)
      cases hm : config.mode with
      | block => exact absurd hm hmode
      | ctr => exact .inl ⟨rfl, rfl⟩
      | gcm => exact .inr ⟨rfl, by simpa [ScanConfig.gcmTag, hm] using htag, rfl⟩

theorem replays_of_streamWindow (hstream : c.isStreamCipher = true) {nonce : Bytes}
    (hnonce : config.nonce = some nonce)
    (hw : streamWindow crates c ciphertext oracles config w = some h) :
    h.Replays crates dump ciphertext oracles config c w.1 := by
  have hgetD : config.nonce.getD [] = nonce := by rw [hnonce, Option.getD_some]
  unfold streamWindow at hw
  cases htag : config.tag with
  | some tag =>
      simp only [htag, hgetD] at hw
      obtain ⟨plaintext, hopen, rfl⟩ := Option.map_eq_some_iff.mp hw
      exact .poly1305Tag nonce tag plaintext hstream rfl ⟨hnonce, rfl⟩ htag
        (answer_eq_some.mp hopen) ⟨rfl, rfl, rfl⟩ ⟨rfl, rfl⟩
  | none =>
      simp only [htag, hgetD, take_head_counterMode] at hw
      obtain ⟨name, conf, hbest, rfl⟩ := judge_eq_some.mp hw
      exact .stream nonce hstream rfl ⟨hnonce, rfl⟩ htag ⟨rfl, rfl, rfl⟩
        (matchedOn_of_bestMatch rfl rfl hbest)

theorem ScanConfig.Valid.nonce (hvalid : config.Valid) (hc : c ∈ config.ciphers)
    (hneeds : c.isStreamCipher = true ∨ config.mode ≠ .block) :
    ∃ nonce, config.nonce = some nonce := by
  cases hvalid with
  | stream nonce _ _ _ hnonce => exact ⟨nonce, hnonce⟩
  | block hnone hmode =>
      rcases hneeds with hs | hm
      · rw [hnone c hc] at hs
        cases hs
      · exact absurd hmode hm
  | ctr nonce _ _ _ hnonce => exact ⟨nonce, hnonce⟩
  | gcm nonce _ _ _ hnonce => exact ⟨nonce, hnonce⟩

theorem replays_of_windowHit (hvalid : config.Valid) (hc : c ∈ config.ciphers)
    (hfits : Fits ciphertext config c)
    (hw : windowHit crates dump ciphertext oracles config c w = some h) :
    h.Replays crates dump ciphertext oracles config c w.1 := by
  cases hstream : c.isStreamCipher with
  | true =>
      obtain ⟨nonce, hnonce⟩ := hvalid.nonce hc (.inl hstream)
      rw [windowHit_stream hstream] at hw
      exact replays_of_streamWindow hstream hnonce hw
  | false =>
      obtain ⟨cipher, hadapter⟩ := CipherChoice.adapter_ok crates hstream
      by_cases hmode : config.mode = .block
      · obtain ⟨R, hR, hblocks, hiv⟩ := BlockRequest.of_fits hfits hstream hmode
          (CipherChoice.lengths_of_adapter hadapter).2
          (CipherChoice.adapter_lawful hadapter).blockPos
        rw [windowHit_block hadapter hmode hR] at hw
        exact replays_of_blockWindow hadapter hblocks hiv hw
      · obtain ⟨nonce, hnonce⟩ := hvalid.nonce hc (.inr hmode)
        rw [windowHit_counter hadapter hmode] at hw
        exact replays_of_counterWindow hadapter hmode hnonce hw

end Windows

/-- Every reported hit, whatever the mode and the limit, is replayed by its own fields. -/
theorem hit_replays (crates : Crates) (dump ciphertext : Bytes) (oracles : List Oracle)
    (config : ScanConfig) (r : ScanResult) (h : Hit)
    (hscan : scan crates dump ciphertext oracles config = .ok r) (hmem : h ∈ r.hits) :
    ∃ c ∈ config.ciphers, h.algo = c.label ∧ h.keyOffset + c.keyLen ≤ dump.length ∧
      h.keyHex = Hex.encode (Bytes.slice dump h.keyOffset c.keyLen) ∧
      h.Replays crates dump ciphertext oracles config c
        (Bytes.slice dump h.keyOffset c.keyLen) := by
  obtain ⟨c, hc, _, hfits, o, ho, hw⟩ := hit_of_scan hscan hmem
  have hfound := foundAt_windowHit hw
  have hoffset : h.keyOffset = o := hfound.offset
  rw [hoffset]
  exact ⟨c, hc, hfound.algo, ho, hfound.key,
    replays_of_windowHit (admitted_of_scan hscan).valid hc hfits hw⟩

/-- A CBC hit with an IV that the scan has found. -/
theorem hit_replays_sample : ∃ r h, scan cbcCrates sampleKey roleCiphertext
      [knownPlaintextOracle (ascii "role")] sampleConfig = .ok r ∧ h ∈ r.hits ∧ h.mode = .cbc ∧
    h.ivCandidates.length = 1 ∧ ∃ c ∈ sampleConfig.ciphers, h.algo = c.label ∧
      h.Replays cbcCrates sampleKey roleCiphertext [knownPlaintextOracle (ascii "role")]
        sampleConfig c (Bytes.slice sampleKey h.keyOffset c.keyLen) := by
  have hhits : (scan cbcCrates sampleKey roleCiphertext [knownPlaintextOracle (ascii "role")]
      sampleConfig).map (fun r => r.hits.map fun h => (h.mode, h.ivCandidates.length)) =
      .ok [(.cbc, 1)] := by decide +kernel
  obtain ⟨r, hr, h, hmem, hfields⟩ := exists_hit_of_hits hhits (List.mem_singleton_self _)
  obtain ⟨hcbc, hone⟩ := Prod.mk.inj hfields
  obtain ⟨c, hc, halgo, _, _, hreplays⟩ := hit_replays cbcCrates sampleKey roleCiphertext
    [knownPlaintextOracle (ascii "role")] sampleConfig r h hr hmem
  exact ⟨r, h, hr, hmem, hcbc, hone, c, hc, halgo, hreplays⟩

end Memhunt
