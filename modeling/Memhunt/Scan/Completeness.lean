import Memhunt.Scan.Planted

/-! Completeness: which ciphertexts lead back to a planted key, in each mode. -/
namespace Memhunt
open Rust

section Window
variable {dump : Bytes} {oracles : List Oracle} {config : ScanConfig} {cipher : BlockCipher}
  {algo : String} {w : Bytes × Nat} (R : BlockRequest cipher.blockLen)

/-- An accepted ECB reading is what gets reported, whatever the CBC reading is. -/
theorem blockWindow_ecb (h : Accepts oracles (R.ecbHead (cipher.decryption w.1))) :
    ∃ name conf, blockWindow R cipher dump oracles config algo w =
      some (blockHit algo .ecb w.1 w.2 none none []
        (R.ecbPlain (cipher.decryption w.1)) name conf) := by
  obtain ⟨name, conf, hbest⟩ := accepts_iff_bestMatch.mp h
  refine ⟨name, conf, ?_⟩
  rw [blockWindow, judge, hbest]
  rfl

theorem blockWindow_cbc (h : ¬ Accepts oracles (R.ecbHead (cipher.decryption w.1))) :
    blockWindow R cipher dump oracles config algo w =
      (R.cbcHead (cipher.decryption w.1)).bind fun head =>
        judge oracles head (R.cbcHit (cipher.decryption w.1) dump oracles config algo w) := by
  rw [blockWindow, judge_eq_none.mpr h, Option.none_or]

theorem blockWindow_ecb_iff :
    (∃ h, blockWindow R cipher dump oracles config algo w = some h ∧ h.mode = .ecb ∧
      h.Reports (R.ecbPlain (cipher.decryption w.1))) ↔
      Accepts oracles (R.ecbHead (cipher.decryption w.1)) := by
  constructor
  · rintro ⟨h, hh, hmode, _⟩
    by_contra hnot
    rw [blockWindow_cbc R hnot] at hh
    obtain ⟨head, _, hjudge⟩ := Option.bind_eq_some_iff.mp hh
    obtain ⟨name, conf, _, rfl⟩ := judge_eq_some.mp hjudge
    cases hmode
  · intro h
    obtain ⟨name, conf, hhit⟩ := @blockWindow_ecb dump oracles config cipher algo w R h
    exact ⟨_, hhit, rfl, rfl, rfl, rfl⟩

theorem blockWindow_cbc_accepted {head : Bytes}
    (h : ¬ Accepts oracles (R.ecbHead (cipher.decryption w.1)))
    (hhead : R.cbcHead (cipher.decryption w.1) = some head) (hacc : Accepts oracles head) :
    ∃ name conf, blockWindow R cipher dump oracles config algo w =
      some (R.cbcHit (cipher.decryption w.1) dump oracles config algo w name conf) := by
  obtain ⟨name, conf, hbest⟩ := accepts_iff_bestMatch.mp hacc
  refine ⟨name, conf, ?_⟩
  rw [blockWindow_cbc R h, hhead, Option.bind_some]
  exact judge_eq_some.mpr ⟨name, conf, hbest, rfl⟩

omit R in
theorem cbcHead_many {block : Nat} (R : BlockRequest block) (D : Bytes → Bytes)
    (h : 2 ≤ R.blocks.length) : R.cbcHead D = some ((R.cbcTail D).take 2).flatten := by
  have htail : R.blocks.tail.isEmpty = false := by
    rw [List.isEmpty_eq_false_iff, ← List.length_pos_iff, List.length_tail]
    omega
  rw [BlockRequest.cbcHead, htail]
  rfl

omit R in
theorem cbcHead_single {block : Nat} (R : BlockRequest block) (D : Bytes → Bytes)
    (h : R.blocks.length = 1) :
    R.cbcHead D = R.fixedIv.map fun iv => Bytes.xor (D R.first) iv := by
  have htail : R.blocks.tail.isEmpty = true := by
    rw [List.isEmpty_iff, ← List.length_eq_zero_iff, List.length_tail]
    omega
  rw [BlockRequest.cbcHead, htail]
  rfl

end Window

section Planted
variable {crates : Crates} {dump ciphertext : Bytes} {oracles : List Oracle} {config : ScanConfig}
  {c : CipherChoice} {cipher : BlockCipher} {o : Nat} {r : ScanResult}

theorem Planted.ecb_hit (hp : Planted crates dump config c cipher o) (hmax : config.maxHits = 0)
    (hmode : config.mode = .block) {ps : List Bytes} (hne : ps ≠ [])
    (hwhole : ∀ p ∈ ps, p.length = cipher.blockLen) (hacc : Accepts oracles (ps.take 2).flatten)
    (hscan : scan crates dump (Modes.ecbEncrypt
      (cipher.encryption (Bytes.slice dump o cipher.keyLen)) ps).flatten oracles config = .ok r) :
    ∃ h ∈ r.hits, h.algo = c.label ∧ h.keyOffset = o ∧ h.mode = .ecb ∧ h.Reports ps.flatten := by
  have hcs : ∀ b ∈ Modes.ecbEncrypt
      (cipher.encryption (Bytes.slice dump o cipher.keyLen)) ps, b.length = cipher.blockLen := by
    intro b hb
    obtain ⟨p, hmem, rfl⟩ := List.mem_map.mp hb
    exact hp.inverse.maps (hwhole p hmem)
  have hiv : ∀ iv ∈ config.fixedIv, iv.length = cipher.blockLen := by
    rw [(CipherChoice.lengths_of_adapter hp.adapter).2]
    exact ((hp.fits hmax hscan).2 (CipherChoice.not_stream_of_adapter hp.adapter) hmode).2
  obtain ⟨_, R, hblocks, _, hwindow⟩ := @Planted.windowHit_blocks crates dump oracles config c
    cipher o hp hmode _ (by simpa [Modes.ecbEncrypt] using hne) hcs hiv
  have hback := Modes.ecbDecrypt_ecbEncrypt hp.inverse hwhole
  have hhead : R.ecbHead (cipher.decryption (Bytes.slice dump o cipher.keyLen)) =
      (ps.take 2).flatten := by
    rw [BlockRequest.ecbHead, hblocks, hback]
    rfl
  obtain ⟨name, conf, hhit⟩ := @blockWindow_ecb dump oracles config cipher c.label
    (Bytes.slice dump o cipher.keyLen, o) R (hhead ▸ hacc)
  refine (hp.hits_at hmax hscan _).mpr ⟨_, by rw [hwindow, hhit], rfl, ?_⟩
  rw [← hback, ← hblocks]
  exact ⟨rfl, rfl, rfl⟩

theorem Planted.counter_hit (hp : Planted crates dump config c cipher o) (hmax : config.maxHits = 0)
    (hmode : config.mode ≠ .block) (htag : config.gcmTag = none) {plaintext nonce : Bytes}
    (hnonce : config.nonce = some nonce) (hacc : Accepts oracles (plaintext.take headLen))
    (hscan : scan crates dump (Modes.counterMode
      (keystream cipher (Bytes.slice dump o cipher.keyLen) nonce config.mode) (· ^^^ ·)
      plaintext) oracles config = .ok r) :
    ∃ h ∈ r.hits, h.algo = c.label ∧ h.keyOffset = o ∧ h.mode = hitMode config.mode ∧
      h.nonceHex = some (Hex.encode nonce) ∧ h.Shows plaintext := by
  obtain ⟨name, conf, hbest⟩ := accepts_iff_bestMatch.mp hacc
  refine (hp.hits_at hmax hscan _).mpr
    ⟨finalizeStreamHit c.label (hitMode config.mode) (Bytes.slice dump o cipher.keyLen) o nonce
      plaintext name conf, ?_, rfl, rfl, rfl, rfl, rfl⟩
  rw [windowHit_counter hp.adapter hmode, counterWindow_oracle htag hnonce,
    Modes.counterMode_twice Bytes.xor_twice]
  exact judge_eq_some.mpr ⟨name, conf, hbest, rfl⟩

end Planted

/-- A key planted anywhere in the dump is found from an ECB, CTR or tagless GCM ciphertext whose
plaintext head some oracle accepts. -/
theorem planted_key_found (crates : Crates) (dump ciphertext : Bytes) (oracles : List Oracle)
    (config : ScanConfig) (c : CipherChoice) (cipher : BlockCipher) (o : Nat) (r : ScanResult)
    (hplanted : Planted crates dump config c cipher o) (hmax : config.maxHits = 0)
    (hscan : scan crates dump ciphertext oracles config = .ok r) :
    (config.mode = .block → ∀ ps : List Bytes, ps ≠ [] →
      (∀ p ∈ ps, p.length = cipher.blockLen) → Accepts oracles (ps.take 2).flatten →
      ciphertext = (Modes.ecbEncrypt
        (cipher.encryption (Bytes.slice dump o cipher.keyLen)) ps).flatten →
      ∃ h ∈ r.hits, h.algo = c.label ∧ h.keyOffset = o ∧ h.mode = .ecb ∧ h.Reports ps.flatten) ∧
    (config.mode ≠ .block → config.tag = none → ∀ plaintext nonce : Bytes, 1 ≤ plaintext.length →
      config.nonce = some nonce → Accepts oracles (plaintext.take (min 32 plaintext.length)) →
      ciphertext = Modes.counterMode
        (keystream cipher (Bytes.slice dump o cipher.keyLen) nonce config.mode) (· ^^^ ·)
        plaintext →
      ∃ h ∈ r.hits, h.algo = c.label ∧ h.keyOffset = o ∧ h.mode = hitMode config.mode ∧
        h.nonceHex = some (Hex.encode nonce) ∧ h.Shows plaintext) := by
  constructor
  · rintro hmode ps hne hwhole hacc rfl
    exact hplanted.ecb_hit hmax hmode hne hwhole hacc hscan
  · rintro hmode htag plaintext nonce - hnonce hacc rfl
    have hhead : plaintext.take headLen = plaintext.take (min 32 plaintext.length) := by
      rw [List.take_eq_take_min, headLen]
    exact hplanted.counter_hit hmax hmode (by simp [ScanConfig.gcmTag, htag]) hnonce (hhead ▸ hacc)
      hscan

theorem planted_key_found_sample :
    ∃ h ∈ sampleResult.hits, h.algo = "aes-128" ∧ h.keyOffset = 0 ∧ h.mode = .ecb ∧
      h.Reports [samplePlaintext].flatten :=
  (planted_key_found sampleCrates sampleKey sampleCiphertext [jsonOracle] sampleConfig .aes128
    (aes128 sampleCrates) 0 sampleResult ⟨by decide, rfl, by decide⟩ rfl (by decide +kernel)).1 rfl
    [samplePlaintext] (by decide) (by decide) ⟨jsonOracle, by simp, by decide +kernel⟩
    (by decide +kernel)

section Cbc
variable {crates : Crates} {dump : Bytes} {oracles : List Oracle} {config : ScanConfig}
  {c : CipherChoice} {cipher : BlockCipher} {o : Nat} {iv : Bytes} {ps : List Bytes}

def cbcBlocks (cipher : BlockCipher) (dump : Bytes) (o : Nat) (iv : Bytes) (ps : List Bytes) :
    List Bytes :=
  Modes.cbcEncrypt (cipher.encryption (Bytes.slice dump o cipher.keyLen)) Bytes.xor iv ps

/-- The ECB reading of a CBC ciphertext: each block of plaintext masked with the block before it. -/
def ecbReading (cipher : BlockCipher) (dump : Bytes) (o : Nat) (iv : Bytes) (ps : List Bytes) :
    List Bytes := List.zipWith Bytes.xor ps (iv :: cbcBlocks cipher dump o iv ps)

theorem Planted.cbc_readings (hp : Planted crates dump config c cipher o)
    (hiv : iv.length = cipher.blockLen) (hps : ∀ p ∈ ps, p.length = cipher.blockLen)
    {R : BlockRequest cipher.blockLen} (hR : R.blocks = cbcBlocks cipher dump o iv ps) :
    Modes.ecbDecrypt (cipher.decryption (Bytes.slice dump o cipher.keyLen)) R.blocks =
        ecbReading cipher dump o iv ps ∧
      R.cbcTail (cipher.decryption (Bytes.slice dump o cipher.keyLen)) = ps.drop 1 := by
  rw [BlockRequest.cbcTail, hR]
  exact ⟨Modes.ecbDecrypt_cbcEncrypt (masking_xor _) hp.inverse hiv hps,
    Modes.cbcTail_cbcEncrypt (masking_xor _) hp.inverse hiv hps⟩

theorem Planted.cbcBlocks_whole (hp : Planted crates dump config c cipher o)
    (hiv : iv.length = cipher.blockLen) (hps : ∀ p ∈ ps, p.length = cipher.blockLen) :
    ∀ b ∈ cbcBlocks cipher dump o iv ps, b.length = cipher.blockLen :=
  Modes.cbcEncrypt_valid (masking_xor _) hp.inverse hiv hps

end Cbc

/-- The hit shows a text that agrees with the plaintext on every block from block 1 on. -/
def Hit.AgreesAfterFirst (h : Hit) (block : Nat) (ps : List Bytes) : Prop :=
  ∃ text : Bytes, text.length = ps.flatten.length ∧ h.Reports text ∧
    text.drop block = ps.flatten.drop block

/-- A CBC ciphertext whose blocks 1 and 2 are accepted is reported as such exactly when no oracle
takes its ECB reading first. -/
theorem cbc_found_iff (crates : Crates) (dump : Bytes) (oracles : List Oracle)
    (config : ScanConfig) (c : CipherChoice) (cipher : BlockCipher) (o : Nat) (iv : Bytes)
    (ps : List Bytes) (hplanted : Planted crates dump config c cipher o)
    (hfree : Unhindered dump (cbcBlocks cipher dump o iv ps).flatten config c)
    (hmode : config.mode = .block) (hnoIv : config.fixedIv = none)
    (hiv : iv.length = cipher.blockLen) (hps : ∀ p ∈ ps, p.length = cipher.blockLen)
    (htwo : 2 ≤ ps.length) (hacc : Accepts oracles ((ps.drop 1).take 2).flatten) :
    Finds (scan crates dump (cbcBlocks cipher dump o iv ps).flatten oracles config) (fun h =>
        h.algo = c.label ∧ h.keyOffset = o ∧ h.mode = .cbc ∧
          h.AgreesAfterFirst cipher.blockLen ps) ↔
      ¬ Accepts oracles ((ecbReading cipher dump o iv ps).take 2).flatten := by
  have hwhole := hplanted.cbcBlocks_whole hiv hps
  have hlen : (cbcBlocks cipher dump o iv ps).length = ps.length := Modes.length_cbcEncrypt iv ps
  have hne : cbcBlocks cipher dump o iv ps ≠ [] := List.ne_nil_of_length_pos (by omega)
  have horacles : oracles ≠ [] := by
    obtain ⟨oracle, hmem, _⟩ := hacc
    exact List.ne_nil_of_mem hmem
  obtain ⟨R, hblocks, hfixed, hfinds⟩ := hplanted.finds_iff hmode hne hwhole
    (by simp [hnoIv]) hfree horacles
  obtain ⟨hecb, htail⟩ := hplanted.cbc_readings hiv hps hblocks
  have hhead : R.ecbHead (cipher.decryption (Bytes.slice dump o cipher.keyLen)) =
      ((ecbReading cipher dump o iv ps).take 2).flatten := by
    rw [BlockRequest.ecbHead, hecb]
    rfl
  rw [hfinds, ← hhead]
  constructor
  · rintro ⟨h, hh, hcbc, _⟩ haccEcb
    obtain ⟨name, conf, hhit⟩ := @blockWindow_ecb dump oracles config cipher c.label
      (Bytes.slice dump o cipher.keyLen, o) R haccEcb
    rw [hh, Option.some.injEq] at hhit
    rw [hhit] at hcbc
    cases hcbc
  · intro hnot
    have hcbc := cbcHead_many R (cipher.decryption (Bytes.slice dump o cipher.keyLen))
      (by rw [hblocks]; omega)
    rw [htail] at hcbc
    obtain ⟨name, conf, hhit⟩ := @blockWindow_cbc_accepted dump oracles config cipher c.label
      (Bytes.slice dump o cipher.keyLen, o) R _ hnot hcbc hacc
    have hfirst := length_decryption hplanted.lawful hplanted.length_key R.length_first
    have hb0 := R.length_headBlock hfirst dump oracles config
    obtain ⟨hdrop, hsum⟩ := Bytes.flatten_drop_one (List.ne_nil_of_length_pos (by omega)) hps
    refine ⟨_, hhit, rfl, _, ?_, ⟨rfl, rfl, rfl⟩, ?_⟩
    · rw [htail, List.length_append, hb0, hsum]
    · rw [htail, List.drop_left' hb0, hdrop]

theorem cbc_found_iff_sample :
    Finds (scan cbcCrates sampleKey
        (cbcBlocks (aes128 cbcCrates) sampleKey 0 zeroIv sampleBlocks).flatten
        [knownPlaintextOracle (ascii "role")] sampleConfig) (fun h =>
      h.algo = "aes-128" ∧ h.keyOffset = 0 ∧ h.mode = .cbc ∧ h.AgreesAfterFirst 16 sampleBlocks) :=
  (cbc_found_iff cbcCrates sampleKey [knownPlaintextOracle (ascii "role")] sampleConfig .aes128
    (aes128 cbcCrates) 0 zeroIv sampleBlocks ⟨by decide, rfl, by decide⟩
    ⟨by decide, rfl, by decide⟩ rfl rfl (by decide) (by decide) (by decide)
    ⟨_, List.mem_singleton_self _, by decide +kernel⟩).mpr (by
      rintro ⟨oracle, hmem, hv⟩
      obtain rfl := List.mem_singleton.mp hmem
      revert hv
      decide +kernel)

/-- A zero IV with a fragment that is in block 0 too: the ECB reading takes the window, and no CBC
hit is reported. -/
theorem cbc_hidden_by_ecb_reading :
    Planted cbcCrates sampleKey sampleConfig .aes128 (aes128 cbcCrates) 0 ∧
    Unhindered sampleKey (cbcBlocks (aes128 cbcCrates) sampleKey 0 zeroIv sampleBlocks).flatten
      sampleConfig .aes128 ∧
    Accepts [knownPlaintextOracle (ascii "admin")] ((sampleBlocks.drop 1).take 2).flatten ∧
    ¬ Finds (scan cbcCrates sampleKey
        (cbcBlocks (aes128 cbcCrates) sampleKey 0 zeroIv sampleBlocks).flatten
        [knownPlaintextOracle (ascii "admin")] sampleConfig) (fun h =>
      h.algo = "aes-128" ∧ h.keyOffset = 0 ∧ h.mode = .cbc ∧
        h.AgreesAfterFirst 16 sampleBlocks) := by
  refine ⟨⟨by decide, rfl, by decide⟩, ⟨by decide, rfl, by decide⟩,
    ⟨_, List.mem_singleton_self _, by decide +kernel⟩, ?_⟩
  have hmodes : (scan cbcCrates sampleKey
      (cbcBlocks (aes128 cbcCrates) sampleKey 0 zeroIv sampleBlocks).flatten
      [knownPlaintextOracle (ascii "admin")] sampleConfig).map (fun r => r.hits.map Hit.mode) =
      .ok [.ecb] := by decide +kernel
  refine not_finds_of_hits hmodes ?_
  rintro h hmem ⟨_, _, hcbc, _⟩
  rw [hcbc] at hmem
  simp at hmem

section FixedIv
variable {crates : Crates} {dump : Bytes} {oracles : List Oracle} {config : ScanConfig}
  {c : CipherChoice} {cipher : BlockCipher} {o : Nat} {iv : Bytes} {ps : List Bytes}

theorem fixedIv_text {block : Nat} (R : BlockRequest block) (D : Bytes → Bytes)
    (h : R.fixedIv = some iv) :
    (R.block0 D dump oracles config).headBlock :: R.cbcTail D =
      Modes.cbcDecrypt D Bytes.xor iv R.blocks := by
  obtain ⟨b, bs, hb⟩ := List.exists_cons_of_ne_nil R.nonempty
  simp only [BlockRequest.block0, h, Block0.fixed, BlockRequest.first, BlockRequest.cbcTail, hb]
  rfl

theorem Planted.ecbReading_whole (hp : Planted crates dump config c cipher o)
    (hiv : iv.length = cipher.blockLen) (hps : ∀ p ∈ ps, p.length = cipher.blockLen) :
    ∀ b ∈ ecbReading cipher dump o iv ps, b.length = cipher.blockLen := by
  have hread := Modes.ecbDecrypt_cbcEncrypt (masking_xor _) hp.inverse hiv hps
  rw [ecbReading, cbcBlocks, ← hread]
  exact length_of_mem_decrypted hp.lawful hp.length_key _ (hp.cbcBlocks_whole hiv hps)

theorem Planted.ecbReading_eq_iff (hp : Planted crates dump config c cipher o)
    (hiv : iv.length = cipher.blockLen) (hps : ∀ p ∈ ps, p.length = cipher.blockLen) :
    ecbReading cipher dump o iv ps = ps ↔
      ∀ b ∈ (iv :: cbcBlocks cipher dump o iv ps).dropLast, ∀ y ∈ b, y = 0 := by
  have hlen : (cbcBlocks cipher dump o iv ps).length = ps.length := Modes.length_cbcEncrypt iv ps
  have hmasks : ∀ b ∈ iv :: cbcBlocks cipher dump o iv ps, b.length = cipher.blockLen :=
    List.forall_mem_cons.mpr ⟨hiv, hp.cbcBlocks_whole hiv hps⟩
  have hcut : (iv :: cbcBlocks cipher dump o iv ps).dropLast =
      (iv :: cbcBlocks cipher dump o iv ps).take ps.length := by
    rw [List.dropLast_eq_take, List.length_cons, hlen, Nat.add_sub_cancel]
  rw [hcut, ecbReading]
  exact Bytes.zipWith_xor_eq_left_iff hps hmasks (by rw [List.length_cons, hlen]; omega)

/-- An accepted ECB reading is reported in place of the plaintext, right only where both are one. -/
theorem fixedIv_window_of_ecb (R : BlockRequest cipher.blockLen) {w : Bytes × Nat} {algo : String}
    {reading : List Bytes}
    (hecb : Modes.ecbDecrypt (cipher.decryption w.1) R.blocks = reading)
    (hlen : reading.length = ps.length) (hblock : 0 < cipher.blockLen)
    (hread : ∀ b ∈ reading, b.length = cipher.blockLen)
    (hps : ∀ p ∈ ps, p.length = cipher.blockLen)
    (hacc : Accepts oracles (reading.take 2).flatten) :
    (∃ h, blockWindow R cipher dump oracles config algo w = some h ∧ h.Reports ps.flatten) ↔
      reading = ps := by
  have haccHead : Accepts oracles (R.ecbHead (cipher.decryption w.1)) := by
    rw [BlockRequest.ecbHead, hecb]
    exact hacc
  obtain ⟨name, conf, hhit⟩ := @blockWindow_ecb dump oracles config cipher algo w R haccHead
  have hreports : (blockHit algo .ecb w.1 w.2 none none []
      (R.ecbPlain (cipher.decryption w.1)) name conf).Reports reading.flatten := by
    rw [BlockRequest.ecbPlain, hecb]
    exact ⟨rfl, rfl, rfl⟩
  constructor
  · rintro ⟨h, hh, hrep⟩
    obtain rfl := Option.some.inj (hhit.symm.trans hh)
    have hflat : reading.flatten = ps.flatten := by
      refine hreports.unique hrep ?_
      rw [Bytes.length_flatten_of_forall hread, Bytes.length_flatten_of_forall hps, hlen]
    rw [← Bytes.chunksExact_flatten hblock hread, hflat, Bytes.chunksExact_flatten hblock hps]
  · rintro rfl
    exact ⟨_, hhit, hreports⟩

theorem cbcHead_of_single (R : BlockRequest cipher.blockLen) {key : Bytes}
    (hRiv : R.fixedIv = some iv)
    (hcbc : Modes.cbcDecrypt (cipher.decryption key) Bytes.xor iv R.blocks = ps)
    (hone : ps.length = 1) :
    R.cbcHead (cipher.decryption key) = some (ps.take 2).flatten := by
  obtain ⟨b, hb⟩ := List.length_eq_one_iff.mp
    (show R.blocks.length = 1 by rw [← hone, ← hcbc, Modes.length_cbcDecrypt])
  rw [cbcHead_single R _ (by rw [hb]; rfl), hRiv, Option.map_some, ← hcbc, BlockRequest.first, hb]
  simp [Modes.cbcDecrypt]

/-- Without an accepted ECB reading the plaintext is reported when the oracles see block 0 or accept
the blocks after it. -/
theorem fixedIv_window_of_cbc (R : BlockRequest cipher.blockLen) {w : Bytes × Nat} {algo : String}
    (hRiv : R.fixedIv = some iv)
    (hcbc : Modes.cbcDecrypt (cipher.decryption w.1) Bytes.xor iv R.blocks = ps)
    (hacc : Accepts oracles (ps.take 2).flatten)
    (hnot : ¬ Accepts oracles (R.ecbHead (cipher.decryption w.1))) :
    (∃ h, blockWindow R cipher dump oracles config algo w = some h ∧ h.Reports ps.flatten) ↔
      ps.length = 1 ∨ Accepts oracles ((ps.drop 1).take 2).flatten := by
  have htext := @fixedIv_text dump oracles config iv _ R (cipher.decryption w.1) hRiv
  have found : ∀ head, R.cbcHead (cipher.decryption w.1) = some head → Accepts oracles head →
      ∃ h, blockWindow R cipher dump oracles config algo w = some h ∧ h.Reports ps.flatten := by
    intro head hjudged haccepted
    obtain ⟨name, conf, hhit⟩ := @blockWindow_cbc_accepted dump oracles config cipher algo w R _
      hnot hjudged haccepted
    refine ⟨_, hhit, ?_⟩
    rw [← hcbc, ← htext]
    exact ⟨rfl, rfl, rfl⟩
  by_cases hone : ps.length = 1
  · exact iff_of_true (found _ (cbcHead_of_single R hRiv hcbc hone) hacc) (.inl hone)
  · have hlen : R.blocks.length = ps.length := by rw [← hcbc, Modes.length_cbcDecrypt]
    have hpos : 0 < R.blocks.length := List.length_pos_iff.mpr R.nonempty
    have hjudged := cbcHead_many R (cipher.decryption w.1) (by omega)
    have htail : R.cbcTail (cipher.decryption w.1) = ps.drop 1 := by
      rw [← hcbc, ← htext, List.drop_one, List.tail_cons]
    rw [htail] at hjudged
    simp only [hone, false_or]
    constructor
    · rintro ⟨h, hh, _⟩
      rw [blockWindow_cbc R hnot, hjudged, Option.bind_some] at hh
      by_contra hreject
      rw [judge_eq_none.mpr hreject] at hh
      cases hh
    · exact found _ hjudged

theorem fixedIv_window_iff (R : BlockRequest cipher.blockLen) {w : Bytes × Nat} {algo : String}
    {reading : List Bytes} (hRiv : R.fixedIv = some iv)
    (hecb : Modes.ecbDecrypt (cipher.decryption w.1) R.blocks = reading)
    (hcbc : Modes.cbcDecrypt (cipher.decryption w.1) Bytes.xor iv R.blocks = ps)
    (hblock : 0 < cipher.blockLen) (hread : ∀ b ∈ reading, b.length = cipher.blockLen)
    (hps : ∀ p ∈ ps, p.length = cipher.blockLen) (hacc : Accepts oracles (ps.take 2).flatten) :
    (∃ h, blockWindow R cipher dump oracles config algo w = some h ∧ h.Reports ps.flatten) ↔
      reading = ps ∨ (¬ Accepts oracles (reading.take 2).flatten ∧
        (ps.length = 1 ∨ Accepts oracles ((ps.drop 1).take 2).flatten)) := by
  by_cases haccEcb : Accepts oracles (reading.take 2).flatten
  · have hlen : reading.length = ps.length := by
      rw [← hecb, Modes.ecbDecrypt, List.length_map, ← hcbc, Modes.length_cbcDecrypt]
    simp only [haccEcb, not_true_eq_false, false_and, or_false]
    exact fixedIv_window_of_ecb R hecb hlen hblock hread hps haccEcb
  · have hdiffer : reading ≠ ps := by
      rintro rfl
      exact haccEcb hacc
    have hnot : ¬ Accepts oracles (R.ecbHead (cipher.decryption w.1)) := by
      rw [BlockRequest.ecbHead, hecb]
      exact haccEcb
    simp only [hdiffer, false_or, haccEcb, not_false_eq_true, true_and]
    exact fixedIv_window_of_cbc R hRiv hcbc hacc hnot

end FixedIv

/-- With a fixed IV, a CBC ciphertext whose first two plaintext blocks are accepted is reported with
its whole plaintext exactly when both readings coincide, or no oracle takes the ECB reading and the
oracles see block 0 or accept the blocks after it. -/
theorem cbc_fixed_iv_found_iff (crates : Crates) (dump : Bytes) (oracles : List Oracle)
    (config : ScanConfig) (c : CipherChoice) (cipher : BlockCipher) (o : Nat) (iv : Bytes)
    (ps : List Bytes) (hplanted : Planted crates dump config c cipher o)
    (hfree : Unhindered dump (cbcBlocks cipher dump o iv ps).flatten config c)
    (hmode : config.mode = .block) (hfixed : config.fixedIv = some iv)
    (hiv : iv.length = cipher.blockLen) (hps : ∀ p ∈ ps, p.length = cipher.blockLen)
    (hne : ps ≠ []) (hacc : Accepts oracles (ps.take 2).flatten) :
    Finds (scan crates dump (cbcBlocks cipher dump o iv ps).flatten oracles config) (fun h =>
        h.algo = c.label ∧ h.keyOffset = o ∧ h.Reports ps.flatten) ↔
      (∀ b ∈ (iv :: cbcBlocks cipher dump o iv ps).dropLast, ∀ y ∈ b, y = 0) ∨
      (¬ Accepts oracles ((ecbReading cipher dump o iv ps).take 2).flatten ∧
        (ps.length = 1 ∨ Accepts oracles ((ps.drop 1).take 2).flatten)) := by
  have hcsNe : cbcBlocks cipher dump o iv ps ≠ [] := by
    have hlen : (cbcBlocks cipher dump o iv ps).length = ps.length := Modes.length_cbcEncrypt iv ps
    have hpos : 0 < ps.length := List.length_pos_iff.mpr hne
    exact List.ne_nil_of_length_pos (by omega)
  have horacles : oracles ≠ [] := by
    obtain ⟨oracle, hmem, _⟩ := hacc
    exact List.ne_nil_of_mem hmem
  obtain ⟨R, hblocks, hRiv, hfinds⟩ := hplanted.finds_iff hmode hcsNe
    (hplanted.cbcBlocks_whole hiv hps) (by simpa [hfixed] using hiv) hfree horacles
  have hcbc : Modes.cbcDecrypt (cipher.decryption (Bytes.slice dump o cipher.keyLen)) Bytes.xor iv
      R.blocks = ps := by
    rw [hblocks]
    exact Modes.cbcDecrypt_cbcEncrypt (masking_xor _) hplanted.inverse hiv hps
  rw [hfinds, ← hplanted.ecbReading_eq_iff hiv hps]
  exact fixedIv_window_iff R (hRiv.trans hfixed) (hplanted.cbc_readings hiv hps hblocks).1 hcbc
    hplanted.lawful.blockPos (hplanted.ecbReading_whole hiv hps) hps hacc

def knownIvConfig : ScanConfig := { sampleConfig with fixedIv := some countingIv }

theorem cbc_fixed_iv_found_iff_sample :
    Finds (scan cbcCrates sampleKey
        (cbcBlocks (aes128 cbcCrates) sampleKey 0 countingIv sampleBlocks).flatten
        [knownPlaintextOracle (ascii "admin")] knownIvConfig) (fun h =>
      h.algo = "aes-128" ∧ h.keyOffset = 0 ∧ h.Reports sampleBlocks.flatten) :=
  (cbc_fixed_iv_found_iff cbcCrates sampleKey [knownPlaintextOracle (ascii "admin")] knownIvConfig
    .aes128 (aes128 cbcCrates) 0 countingIv sampleBlocks ⟨by decide, rfl, by decide⟩
    ⟨by decide, rfl, by decide⟩ rfl rfl (by decide) (by decide) (by decide)
    ⟨_, List.mem_singleton_self _, by decide +kernel⟩).mpr (.inr ⟨by
      rintro ⟨oracle, hmem, hv⟩
      obtain rfl := List.mem_singleton.mp hmem
      revert hv
      decide +kernel, .inr ⟨_, List.mem_singleton_self _, by decide +kernel⟩⟩)

/-- Two blocks of JSON under a known IV: block 0 is never judged, and nothing is reported. -/
theorem cbc_fixed_iv_misses_json :
    Planted cbcCrates sampleKey knownIvConfig .aes128 (aes128 cbcCrates) 0 ∧
    Unhindered sampleKey (cbcBlocks (aes128 cbcCrates) sampleKey 0 countingIv sampleBlocks).flatten
      knownIvConfig .aes128 ∧
    Accepts [jsonOracle] (sampleBlocks.take 2).flatten ∧
    ¬ Finds (scan cbcCrates sampleKey
        (cbcBlocks (aes128 cbcCrates) sampleKey 0 countingIv sampleBlocks).flatten [jsonOracle]
        knownIvConfig) (fun h => h.keyOffset = 0 ∧ h.Reports sampleBlocks.flatten) := by
  refine ⟨⟨by decide, rfl, by decide⟩, ⟨by decide, rfl, by decide⟩,
    ⟨_, List.mem_singleton_self _, by decide +kernel⟩, ?_⟩
  have hnone : (scan cbcCrates sampleKey
      (cbcBlocks (aes128 cbcCrates) sampleKey 0 countingIv sampleBlocks).flatten [jsonOracle]
      knownIvConfig).map (fun r => r.hits.map Hit.mode) = .ok [] := by decide +kernel
  exact not_finds_of_hits hnone (fun h hmem => by cases hmem)

end Memhunt
