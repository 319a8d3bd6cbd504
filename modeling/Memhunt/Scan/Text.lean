import Memhunt.Scan.Completeness

/-! Text plaintexts: what the text oracles make of padded and of cut text, and which texts a scan
therefore finds. -/
namespace Memhunt
open Rust
open Utf8 (fromUtf8 toUtf8 isControl Continues scalar1)

section Utf8Oracle

theorem stripTrailingZeros_of_ne {data : Bytes} (h : ∀ b ∈ data, b ≠ 0) :
    stripTrailingZeros data = data := by
  rw [stripTrailingZeros, List.rdropWhile_eq_self_iff]
  intro hne
  simpa using h _ (List.getLast_mem hne)

theorem utf8Oracle_verify {data : Bytes} (hzero : ∀ b ∈ data, b ≠ 0) (hne : data ≠ []) :
    utf8Oracle.verify data = true ↔
      ∃ s, fromUtf8 data = some s ∧ s.length * 9 ≤ (s.filter isPrintable).length * 10 := by
  have hempty : data.isEmpty = false := by simpa using hne
  simp only [utf8Oracle, stripTrailingZeros_of_ne hzero, hempty, Bool.false_eq_true, if_false]
  cases fromUtf8 data with
  | none => simp
  | some s => simp

theorem utf8Oracle_clean {data : Bytes} {s : List Char} (hzero : ∀ b ∈ data, b ≠ 0)
    (hne : data ≠ []) (htext : fromUtf8 data = some s) (hclean : ∀ ch ∈ s, isPrintable ch = true) :
    utf8Oracle.verify data = true := by
  refine (utf8Oracle_verify hzero hne).mpr ⟨s, htext, ?_⟩
  rw [List.filter_eq_self.mpr hclean]
  omega

/-- Text without control characters has no NUL byte. -/
theorem ne_zero_of_clean {data : Bytes} {s : List Char} (htext : fromUtf8 data = some s)
    (hclean : ∀ ch ∈ s, isControl ch = false) : ∀ b ∈ data, b ≠ 0 := by
  rintro b hb rfl
  have hmem := Utf8.scalar1_mem htext hb (by decide)
  have hcontrol := hclean _ hmem
  revert hcontrol
  decide

theorem isPrintable_of_not_control {ch : Char} (h : isControl ch = false) :
    isPrintable ch = true := by
  simp [isPrintable, h]

theorem utf8_head_accepted_iff {text : Bytes} {s : List Char} (hne : text ≠ [])
    (htext : fromUtf8 text = some s) (hclean : ∀ ch ∈ s, isControl ch = false) :
    Accepts [utf8Oracle] (text.take headLen) ↔
      ∀ b, text[headLen]? = some b → ¬ Continues b := by
  have hzero : ∀ b ∈ text.take headLen, b ≠ 0 :=
    fun b hb => ne_zero_of_clean htext hclean b (List.mem_of_mem_take hb)
  have hhead : text.take headLen ≠ [] := by
    simpa [headLen, List.take_eq_nil_iff] using hne
  rcases Utf8.fromUtf8_take htext headLen with ⟨hcut, s', hs', hpre⟩ | ⟨⟨b, hb, hcont⟩, hnone⟩
  · refine iff_of_true ⟨utf8Oracle, List.mem_singleton_self _, ?_⟩ hcut
    exact utf8Oracle_clean hzero hhead hs'
      (fun ch hch => isPrintable_of_not_control (hclean ch (hpre.subset hch)))
  · refine iff_of_false ?_ (fun h => h b hb hcont)
    rintro ⟨oracle, hmem, hv⟩
    obtain rfl := List.mem_singleton.mp hmem
    obtain ⟨s', hs', _⟩ := (utf8Oracle_verify hzero hhead).mp hv
    rw [hnone] at hs'
    cases hs'

end Utf8Oracle

section Padded

def TextByte (b : UInt8) : Prop :=
  (0x20 ≤ b.toNat ∧ b.toNat ≤ 0x7e) ∨ b.toNat = 9 ∨ b.toNat = 10 ∨ b.toNat = 13

instance (b : UInt8) : Decidable (TextByte b) :=
  inferInstanceAs (Decidable ((0x20 ≤ b.toNat ∧ b.toNat ≤ 0x7e) ∨ b.toNat = 9 ∨ b.toNat = 10 ∨
    b.toNat = 13))

theorem isPrintable_scalar1 {b : UInt8} (h : b.toNat < 0x80) :
    isPrintable (scalar1 b) = true ↔ TextByte b := by
  have table : ∀ n < 0x80, isPrintable (Char.ofNat n) = true ↔
      (0x20 ≤ n ∧ n ≤ 0x7e) ∨ n = 9 ∨ n = 10 ∨ n = 13 := by decide +kernel
  exact table b.toNat h

theorem jsonOracle_verify {data : Bytes} (h : jsonOracle.verify data = true) :
    ∃ s, fromUtf8 data = some s ∧ ∀ ch ∈ s, isPrintable ch = true := by
  simp only [jsonOracle] at h
  split at h
  · cases h
  · cases htext : fromUtf8 data with
    | none => simp [htext] at h
    | some s => exact ⟨s, rfl, by simpa [htext] using h⟩

theorem TextByte.ascii {b : UInt8} (h : TextByte b) : b.toNat < 0x80 := by
  unfold TextByte at h
  omega

theorem ne_zero_of_pos {b : UInt8} (h : 0 < b.toNat) : b ≠ 0 := by
  rintro rfl
  cases h

theorem accepts_text {data : Bytes} (hdata : ∀ b ∈ data, TextByte b) (hne : data ≠ []) :
    Accepts [utf8Oracle, jsonOracle] data := by
  have hascii : ∀ b ∈ data, b.toNat < 0x80 := fun b hb => (hdata b hb).ascii
  have hzero : ∀ b ∈ data, b ≠ 0 := by
    intro b hb
    have htext := hdata b hb
    unfold TextByte at htext
    exact ne_zero_of_pos (by omega)
  refine ⟨utf8Oracle, List.mem_cons_self,
    utf8Oracle_clean hzero hne (Utf8.fromUtf8_ascii hascii) ?_⟩
  intro ch hch
  obtain ⟨b, hb, rfl⟩ := List.mem_map.mp hch
  exact (isPrintable_scalar1 (hascii b hb)).mpr (hdata b hb)

theorem toNat_pad {pad : Nat} (hle : pad ≤ 16) : (UInt8.ofNat pad).toNat = pad := by
  simp [Nat.mod_eq_of_lt (show pad < 256 by omega)]

section Tail
variable {m : Bytes} {pad : Nat}

theorem toNat_of_mem_tail (hle : pad ≤ 16) : ∀ b ∈ Padding.tail pad, b.toNat = pad := by
  intro b hb
  rw [(List.mem_replicate.mp hb).2, toNat_pad hle]

theorem padded_bytes (hm : ∀ b ∈ m, 0x20 ≤ b.toNat ∧ b.toNat ≤ 0x7e) (hpos : 0 < pad)
    (hle : pad ≤ 16) : ∀ b ∈ m ++ Padding.tail pad, 0 < b.toNat ∧ b.toNat < 0x80 := by
  intro b hb
  rcases List.mem_append.mp hb with hb | hb
  · have := hm b hb
    omega
  · have := toNat_of_mem_tail hle b hb
    omega

theorem not_printable_tail (hle : pad ≤ 16) (hpad : ¬ (pad = 9 ∨ pad = 10 ∨ pad = 13)) :
    ∀ b ∈ Padding.tail pad, ¬ isPrintable (scalar1 b) = true := by
  intro b hb hprintable
  have hvalue := toNat_of_mem_tail hle b hb
  have htext := (isPrintable_scalar1 (by omega)).mp hprintable
  rw [TextByte, hvalue] at htext
  omega

theorem length_printable_padded (hm : ∀ b ∈ m, 0x20 ≤ b.toNat ∧ b.toNat ≤ 0x7e) (hle : pad ≤ 16)
    (hpad : ¬ (pad = 9 ∨ pad = 10 ∨ pad = 13)) :
    (((m ++ Padding.tail pad).map scalar1).filter isPrintable).length = m.length := by
  have hleft : (m.map scalar1).filter isPrintable = m.map scalar1 := by
    rw [List.filter_eq_self]
    intro ch hch
    obtain ⟨b, hb, rfl⟩ := List.mem_map.mp hch
    exact (isPrintable_scalar1 (by have := hm b hb; omega)).mpr (.inl (hm b hb))
  have hright : ((Padding.tail pad).map scalar1).filter isPrintable = [] := by
    rw [List.filter_eq_nil_iff]
    intro ch hch
    obtain ⟨b, hb, rfl⟩ := List.mem_map.mp hch
    exact not_printable_tail hle hpad b hb
  rw [List.map_append, List.filter_append, hleft, hright, List.append_nil, List.length_map]

/-- Whether short padded text is accepted depends on the padding byte, or else on how much of the
block it fills. -/
theorem accepts_padded_iff (hm : ∀ b ∈ m, 0x20 ≤ b.toNat ∧ b.toNat ≤ 0x7e) (hpos : 0 < pad)
    (hle : pad ≤ 16) :
    Accepts [utf8Oracle, jsonOracle] (m ++ Padding.tail pad) ↔
      (pad = 9 ∨ pad = 10 ∨ pad = 13) ∨ 9 * (m.length + pad) ≤ 10 * m.length := by
  have hbytes := padded_bytes hm hpos hle
  have hne : m ++ Padding.tail pad ≠ [] := by
    rw [← List.length_pos_iff, List.length_append, Padding.length_tail]
    omega
  by_cases hpad : pad = 9 ∨ pad = 10 ∨ pad = 13
  · refine iff_of_true (accepts_text ?_ hne) (.inl hpad)
    intro b hb
    rcases List.mem_append.mp hb with hb | hb
    · exact .inl (hm b hb)
    · exact .inr (by rwa [toNat_of_mem_tail hle b hb])
  · have hzero : ∀ b ∈ m ++ Padding.tail pad, b ≠ 0 := fun b hb => ne_zero_of_pos (hbytes b hb).1
    have htext := Utf8.fromUtf8_ascii fun b hb => (hbytes b hb).2
    have hcount := length_printable_padded hm hle hpad
    have hlen : ((m ++ Padding.tail pad).map scalar1).length = m.length + pad := by
      rw [List.length_map, List.length_append, Padding.length_tail]
    simp only [hpad, false_or]
    constructor
    · rintro ⟨oracle, hmem, hv⟩
      rcases List.mem_cons.mp hmem with rfl | hmem
      · obtain ⟨s, hs, hshare⟩ := (utf8Oracle_verify hzero hne).mp hv
        obtain rfl := Option.some.inj (htext.symm.trans hs)
        rw [hcount, hlen] at hshare
        omega
      · obtain rfl := List.mem_singleton.mp hmem
        obtain ⟨s, hs, hall⟩ := jsonOracle_verify hv
        obtain rfl := Option.some.inj (htext.symm.trans hs)
        have hlast : UInt8.ofNat pad ∈ Padding.tail pad :=
          List.mem_replicate.mpr ⟨by omega, rfl⟩
        exact absurd (hall _ (List.mem_map_of_mem (List.mem_append_right m hlast)))
          (not_printable_tail hle hpad _ hlast)
    · intro hshare
      refine ⟨utf8Oracle, List.mem_cons_self, (utf8Oracle_verify hzero hne).mpr ⟨_, htext, ?_⟩⟩
      rw [hcount, hlen]
      omega

end Tail

/-- The judged head of PKCS#7-padded text: all text, or the whole of it with the padding. -/
theorem accepts_padded_head_iff {m : Bytes} (hm : ∀ b ∈ m, 0x20 ≤ b.toNat ∧ b.toNat ≤ 0x7e)
    {block : Nat} (hblock : block = 8 ∨ block = 16) :
    Accepts [utf8Oracle, jsonOracle] ((Padding.pkcs7 block m).take (2 * block)) ↔
      2 * block ≤ m.length ∨ block - m.length % block ∈ [9, 10, 13] ∨
        9 * (m.length + (block - m.length % block)) ≤ 10 * m.length := by
  have hmod := Nat.mod_lt m.length (show 0 < block by omega)
  by_cases hlong : 2 * block ≤ m.length
  · have hcut : (Padding.pkcs7 block m).take (2 * block) = m.take (2 * block) :=
      List.take_append_of_le_length hlong
    rw [hcut]
    refine iff_of_true (accepts_text (fun b hb => .inl (hm b (List.mem_of_mem_take hb))) ?_)
      (.inl hlong)
    rw [← List.length_pos_iff, List.length_take]
    omega
  · have hle : (Padding.pkcs7 block m).length ≤ 2 * block := by
      obtain ⟨k, hk⟩ := Padding.dvd_length_pkcs7 m (show 0 < block by omega)
      have hlen := Padding.length_pkcs7 block m
      rw [hk] at hlen ⊢
      rcases hblock with rfl | rfl <;> omega
    rw [List.take_of_length_le hle, Padding.pkcs7, accepts_padded_iff hm (by omega) (by omega)]
    simp [hlong]

end Padded

def paddedBlocks (cipher : BlockCipher) (dump : Bytes) (o : Nat) (m : Bytes) : List Bytes :=
  Modes.ecbEncrypt (cipher.encryption (Bytes.slice dump o cipher.keyLen))
    (Bytes.chunksExact cipher.blockLen (Padding.pkcs7 cipher.blockLen m))

/-- Padded ASCII text under ECB is found with the default oracles exactly when it fills the judged
head, or its padding bytes are tab, line feed or carriage return, or they are at most a tenth of
what is judged. -/
theorem padded_text_found_iff (crates : Crates) (dump : Bytes) (config : ScanConfig)
    (c : CipherChoice) (cipher : BlockCipher) (o : Nat) (m : Bytes)
    (hplanted : Planted crates dump config c cipher o)
    (hfree : Unhindered dump (paddedBlocks cipher dump o m).flatten config c)
    (hmode : config.mode = .block) (hiv : ∀ iv ∈ config.fixedIv, iv.length = cipher.blockLen)
    (hm : ∀ b ∈ m, 0x20 ≤ b.toNat ∧ b.toNat ≤ 0x7e) (hne : m ≠ []) :
    Finds (scan crates dump (paddedBlocks cipher dump o m).flatten [utf8Oracle, jsonOracle] config)
        (fun h => h.algo = c.label ∧ h.keyOffset = o ∧ h.mode = .ecb ∧
          h.padding = some "pkcs7" ∧ h.plaintextHex = Hex.encode m ∧
          h.plaintextUtf8 = toUtf8 m) ↔
      2 * cipher.blockLen ≤ m.length ∨
      cipher.blockLen - m.length % cipher.blockLen ∈ [9, 10, 13] ∨
      9 * (m.length + (cipher.blockLen - m.length % cipher.blockLen)) ≤ 10 * m.length := by
  have hblock : cipher.blockLen = 8 ∨ cipher.blockLen = 16 := by
    rw [(CipherChoice.lengths_of_adapter hplanted.adapter).2]
    exact c.blockLen_cases
  have hpos := hplanted.lawful.blockPos
  have hps : ∀ p ∈ Bytes.chunksExact cipher.blockLen (Padding.pkcs7 cipher.blockLen m),
      p.length = cipher.blockLen := fun p hp => Bytes.length_of_mem_chunksExact hp
  have hflat := Bytes.flatten_chunksExact hpos (Padding.dvd_length_pkcs7 m hpos)
  have hwhole : ∀ b ∈ paddedBlocks cipher dump o m, b.length = cipher.blockLen := by
    intro b hb
    obtain ⟨p, hp, rfl⟩ := List.mem_map.mp hb
    exact hplanted.inverse.maps (hps p hp)
  have hblocksNe : paddedBlocks cipher dump o m ≠ [] := by
    intro hnil
    have hlen := Padding.length_pkcs7 cipher.blockLen m
    have hmpos := List.length_pos_iff.mpr hne
    rw [paddedBlocks, Modes.ecbEncrypt, List.map_eq_nil_iff] at hnil
    rw [← hflat, hnil, List.flatten_nil, List.length_nil] at hlen
    omega
  obtain ⟨R, hblocks, _, hfinds⟩ := hplanted.finds_iff hmode hblocksNe hwhole hiv hfree
    (List.cons_ne_nil utf8Oracle [jsonOracle])
  have hback : Modes.ecbDecrypt (cipher.decryption (Bytes.slice dump o cipher.keyLen)) R.blocks =
      Bytes.chunksExact cipher.blockLen (Padding.pkcs7 cipher.blockLen m) := by
    rw [hblocks]
    exact Modes.ecbDecrypt_ecbEncrypt hplanted.inverse hps
  have hplain : R.ecbPlain (cipher.decryption (Bytes.slice dump o cipher.keyLen)) =
      Padding.pkcs7 cipher.blockLen m := by rw [BlockRequest.ecbPlain, hback, hflat]
  have hhead : R.ecbHead (cipher.decryption (Bytes.slice dump o cipher.keyLen)) =
      (Padding.pkcs7 cipher.blockLen m).take (2 * cipher.blockLen) := by
    rw [BlockRequest.ecbHead, hback, Bytes.flatten_take hps, hflat, verifyBlocks]
  have hecb := @blockWindow_ecb_iff dump [utf8Oracle, jsonOracle] config cipher c.label
    (Bytes.slice dump o cipher.keyLen, o) R
  rw [hplain, hhead, accepts_padded_head_iff hm hblock] at hecb
  rw [hfinds, ← hecb]
  unfold Hit.Reports
  rw [stripPadding_pkcs7 m hpos (by omega)]

theorem padded_text_found_iff_sample :
    Finds (scan paddedCrates sampleKey
        (paddedBlocks (aes128 paddedCrates) sampleKey 0 tabbedMessage).flatten
        [utf8Oracle, jsonOracle] sampleConfig) (fun h =>
      h.algo = "aes-128" ∧ h.keyOffset = 0 ∧ h.mode = .ecb ∧ h.padding = some "pkcs7" ∧
        h.plaintextHex = Hex.encode tabbedMessage ∧ h.plaintextUtf8 = toUtf8 tabbedMessage) :=
  (padded_text_found_iff paddedCrates sampleKey sampleConfig .aes128 (aes128 paddedCrates) 0
    tabbedMessage ⟨by decide, rfl, by decide⟩ ⟨by decide, rfl, by decide⟩ rfl (by decide)
    (by decide +kernel) (by decide +kernel)).mpr (by decide +kernel)

/-- Eleven bytes of text with five bytes of padding are not found. -/
theorem short_padded_text_missed :
    Planted paddedCrates sampleKey sampleConfig .aes128 (aes128 paddedCrates) 0 ∧
    Unhindered sampleKey (paddedBlocks (aes128 paddedCrates) sampleKey 0 shortMessage).flatten
      sampleConfig .aes128 ∧
    (∀ b ∈ shortMessage, 0x20 ≤ b.toNat ∧ b.toNat ≤ 0x7e) ∧
    ¬ Finds (scan paddedCrates sampleKey
        (paddedBlocks (aes128 paddedCrates) sampleKey 0 shortMessage).flatten
        [utf8Oracle, jsonOracle] sampleConfig) (fun h =>
      h.keyOffset = 0 ∧ h.mode = .ecb ∧ h.padding = some "pkcs7" ∧
        h.plaintextHex = Hex.encode shortMessage) := by
  refine ⟨⟨by decide, rfl, by decide⟩, ⟨by decide, rfl, by decide⟩, by decide +kernel, ?_⟩
  have hnone : (scan paddedCrates sampleKey
      (paddedBlocks (aes128 paddedCrates) sampleKey 0 shortMessage).flatten
      [utf8Oracle, jsonOracle] sampleConfig).map (fun r => r.hits.map Hit.mode) = .ok [] := by
    decide +kernel
  exact not_finds_of_hits hnone (fun h hmem => by cases hmem)

section Counter
variable {crates : Crates} {dump ciphertext : Bytes} {oracles : List Oracle} {config : ScanConfig}
  {c : CipherChoice} {cipher : BlockCipher} {nonce : Bytes}

/-- Every hit of a counter-mode scan shows a text whose head was accepted. -/
theorem accepted_of_counter_hit {r : ScanResult} {h : Hit} {text : Bytes}
    (hscan : scan crates dump ciphertext oracles config = .ok r) (hmem : h ∈ r.hits)
    (hmode : config.mode = .ctr) (hnonce : config.nonce = some nonce)
    (hnone : ∀ d ∈ config.ciphers, d.isStreamCipher = false)
    (hshows : h.Shows text) : Accepts oracles (text.take headLen) := by
  obtain ⟨d, hd, _, _, q, _, hw⟩ := hit_of_scan hscan hmem
  obtain ⟨cipher, hadapter⟩ := CipherChoice.adapter_ok crates (hnone d hd)
  have htag : config.gcmTag = none := by simp [ScanConfig.gcmTag, hmode]
  rw [windowHit_counter hadapter (by simp [hmode]), counterWindow_oracle htag hnonce] at hw
  obtain ⟨name, conf, hbest, rfl⟩ := judge_eq_some.mp hw
  rw [← Hex.encode_inj.mp hshows.2.1]
  exact accepts_iff_bestMatch.mpr ⟨name, conf, hbest⟩

end Counter

def ctrCiphertext (cipher : BlockCipher) (dump : Bytes) (o : Nat) (nonce text : Bytes) : Bytes :=
  Modes.counterMode (keystream cipher (Bytes.slice dump o cipher.keyLen) nonce .ctr) (· ^^^ ·) text

/-- Clean UTF-8 text under AES-CTR is found exactly when the cut after 32 bytes does not fall inside
a character. -/
theorem utf8_text_found_iff (crates : Crates) (dump : Bytes) (config : ScanConfig)
    (c : CipherChoice) (cipher : BlockCipher) (o : Nat) (nonce text : Bytes) (s : List Char)
    (hplanted : Planted crates dump config c cipher o)
    (hvalid : validateConfig config = .ok ()) (hmax : config.maxHits = 0)
    (hmode : config.mode = .ctr) (hnonce : config.nonce = some nonce) (hne : text ≠ [])
    (htext : fromUtf8 text = some s) (hclean : ∀ ch ∈ s, isControl ch = false) :
    Finds (scan crates dump (ctrCiphertext cipher dump o nonce text) [utf8Oracle] config)
        (fun h => h.keyOffset = o ∧ h.Shows text) ↔
      ∀ b, text[32]? = some b → ¬ Continues b := by
  have hnotBlock : config.mode ≠ .block := by simp [hmode]
  have htag : config.gcmTag = none := by simp [ScanConfig.gcmTag, hmode]
  have hfits : ∀ d, Fits (ctrCiphertext cipher dump o nonce text) config d := by
    refine fun d => ⟨?_, fun _ hblock => absurd hblock hnotBlock⟩
    rw [ctrCiphertext, ← List.length_pos_iff, Modes.length_counterMode, List.length_pos_iff]
    exact hne
  obtain ⟨r, hr⟩ := @Planted.scan_ok crates dump _ [utf8Oracle] config c cipher o hplanted
    ⟨hvalid, hmax, fun d _ _ _ => hfits d⟩ (hfits c) (List.cons_ne_nil _ _)
  have hnone : ∀ d ∈ config.ciphers, d.isStreamCipher = false := fun d hd =>
    ((validateConfig_ok hvalid).same_kind hd hplanted.listed).trans
      (CipherChoice.not_stream_of_adapter hplanted.adapter)
  have haccepted := utf8_head_accepted_iff hne htext hclean
  constructor
  · rintro ⟨r', hr', h, hmem, _, hshows⟩
    exact haccepted.mp (accepted_of_counter_hit hr' hmem hmode hnonce hnone hshows)
  · intro hcut
    have hscan := hr
    rw [ctrCiphertext, ← hmode] at hscan
    obtain ⟨h, hmem, _, hoffset, _, _, hshows⟩ :=
      hplanted.counter_hit hmax hnotBlock htag hnonce (haccepted.mpr hcut) hscan
    exact ⟨r, hr, h, hmem, hoffset, hshows⟩

def counterConfig : ScanConfig := { sampleConfig with mode := .ctr, nonce := some sampleCounter }

theorem utf8_text_found_iff_sample :
    Finds (scan counterCrates sampleKey (ctrCiphertext (aes128 counterCrates) sampleKey 0
        sampleCounter (ascii "the caller asked for the menu: tea")) [utf8Oracle] counterConfig)
      (fun h => h.keyOffset = 0 ∧ h.Shows (ascii "the caller asked for the menu: tea")) :=
  (utf8_text_found_iff counterCrates sampleKey counterConfig .aes128 (aes128 counterCrates) 0
    sampleCounter (ascii "the caller asked for the menu: tea")
    "the caller asked for the menu: tea".toList ⟨by decide, rfl, by decide⟩ (by decide) rfl rfl rfl
    (by decide) (by decide +kernel) (by simp [isControl])).mpr (by decide +kernel)

/-- The same text with a two-byte character across the cut. -/
def cutText : Bytes := ascii "the caller asked for the menu: " ++ [0xc3, 0xa9]

/-- The cut leaves half a character, and the oracle rejects the head. -/
theorem cut_character_missed :
    Planted counterCrates sampleKey counterConfig .aes128 (aes128 counterCrates) 0 ∧
    (∃ s, fromUtf8 cutText = some s ∧ ∀ ch ∈ s, isControl ch = false) ∧
    ¬ Finds (scan counterCrates sampleKey
        (ctrCiphertext (aes128 counterCrates) sampleKey 0 sampleCounter cutText) [utf8Oracle]
        counterConfig)
      (fun h => h.keyOffset = 0 ∧ h.Shows cutText) := by
  refine ⟨⟨by decide, rfl, by decide⟩,
    ⟨"the caller asked for the menu: é".toList, by decide +kernel, by simp [isControl]⟩, ?_⟩
  have hnone : (scan counterCrates sampleKey
      (ctrCiphertext (aes128 counterCrates) sampleKey 0 sampleCounter cutText) [utf8Oracle]
      counterConfig).map (fun r => r.hits.map Hit.mode) = .ok [] := by decide +kernel
  exact not_finds_of_hits hnone (fun h hmem => by cases hmem)

end Memhunt
