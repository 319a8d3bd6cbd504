import Memhunt.Spec.Stream
import Memhunt.Spec.Vectors

/-! CTR and GCM decryption against the standards: which counter block masks which byte, and the two
GCM paths on one key. -/
namespace Memhunt
open Rust
open Modes (counterMode)

/-- Byte for byte, `plaintext` is `ciphertext` masked with the encrypted counter blocks. -/
structure MaskedByCounters (cipher : BlockCipher) (key nonce : Bytes) (mode : CipherMode)
    (ciphertext plaintext : Bytes) : Prop where
  length : plaintext.length = ciphertext.length
  bytes : ∀ i j b, j < 16 → ciphertext[16 * i + j]? = some b →
    ∃ k, (cipher.encryptWithKey key (counterBlock nonce mode i)).2[j]? = some k ∧
      plaintext[16 * i + j]? = some (b ^^^ k)

/-- An AEAD crate releases a plaintext only as the standard computes it from the block cipher. -/
def AeadCrate.FollowsGcm {keyLen : Nat} (A : AeadCrate keyLen 12) (C : CipherCrate keyLen 16) :
    Prop :=
  ∀ key nonce aad buffer tag plaintext,
    A.decryptInPlaceDetached key nonce aad buffer tag = some plaintext →
      plaintext = Gcm.gctr (C.new key).encryptBlock (Gcm.inc32 (Gcm.j0 nonce)) buffer

structure Crates.FollowGcm (crates : Crates) : Prop where
  aes128 : crates.aes128Gcm.FollowsGcm crates.aes128
  aes192 : crates.aes192Gcm.FollowsGcm crates.aes192
  aes256 : crates.aes256Gcm.FollowsGcm crates.aes256

theorem maskedByCounters {cipher : BlockCipher} {key nonce : Bytes} {mode : CipherMode}
    (hkey : cipher.AcceptsKey key) (hnonce : NonceFits nonce mode) (ciphertext : Bytes) :
    MaskedByCounters cipher key nonce mode ciphertext
      (counterMode (keystream cipher key nonce mode) (· ^^^ ·) ciphertext) := by
  constructor
  case length => exact Modes.length_counterMode _ _
  case bytes =>
    intro i j b hj hb
    have hlen := (hkey _ (length_counterBlock hnonce i)).2
    have hblock : (cipher.encryptWithKey key (counterBlock nonce mode i)).2[j]? =
        some (keystream cipher key nonce mode (16 * i + j)) := by
      have hdiv : (16 * i + j) / 16 = i := by omega
      have hmod : (16 * i + j) % 16 = j := by omega
      have hjlt : j < (cipher.encryptWithKey key (counterBlock nonce mode i)).2.length := by omega
      rw [keystream, Modes.blockStream, hdiv, hmod, List.getD_eq_getElem?_getD,
        List.getElem?_eq_getElem hjlt, Option.getD_some]
    refine ⟨_, hblock, ?_⟩
    rw [counterMode, List.getElem?_mapIdx, hb, Option.map_some]

section Gcm
variable {key nonce tag aad ciphertext plaintext : Bytes}

theorem AeadCrate.decryptWith_plaintext {keyLen : Nat} {A : AeadCrate keyLen 12}
    {C : CipherCrate keyLen 16} (hA : A.FollowsGcm C) (algo : String) (hkey : key.length = keyLen)
    {iv : Block 12} {tag : Block 16}
    (h : A.decryptWith key iv aad ciphertext tag = some plaintext) :
    plaintext =
      counterMode (keystream (aesAdapter C algo) key iv.val .gcm) (· ^^^ ·) ciphertext := by
  rw [AeadCrate.decryptWith, dif_pos hkey] at h
  rw [hA _ _ _ _ _ _ h, Gcm.gctr_eq]
  congr 2
  funext i
  have hcounter : Gcm.inc32^[i] (Gcm.inc32 (Gcm.j0 iv)) =
      ⟨counterBlock iv.val .gcm i, length_counterBlock (.inr ⟨rfl, iv.length_val⟩) i⟩ :=
    Block.ext (Gcm.counters iv i)
  rw [hcounter]
  exact (congrArg Prod.snd (C.inPlace_of_length KeyedCipher.encryptBlock hkey
    (length_counterBlock (.inr ⟨rfl, iv.length_val⟩) i))).symm

theorem decryptGcmTagged_plaintext {crates : Crates} (hgcm : crates.FollowGcm) {c : CipherChoice}
    (haes : c.isAes = true) {cipher : BlockCipher} (hadapter : c.adapter crates = .ok cipher)
    (hkey : key.length = c.keyLen) (hnonce : nonce.length = 12) (htag : tag.length = 16)
    (h : decryptGcmTagged crates key nonce ciphertext tag aad = .ok (some plaintext)) :
    plaintext = counterMode (keystream cipher key nonce .gcm) (· ^^^ ·) ciphertext := by
  unfold decryptGcmTagged at h
  rw [fromSlice_ok hnonce, ok_bind, fromSlice_ok htag, ok_bind, hkey] at h
  cases c
  case aes128 =>
    cases hadapter
    simp only [CipherChoice.keyLen, pure_eq, Except.ok.injEq] at h hkey
    have htext := AeadCrate.decryptWith_plaintext hgcm.aes128 "aes-128" hkey h
    exact htext
  case aes192 =>
    cases hadapter
    simp only [CipherChoice.keyLen, pure_eq, Except.ok.injEq] at h hkey
    have htext := AeadCrate.decryptWith_plaintext hgcm.aes192 "aes-192" hkey h
    exact htext
  case aes256 =>
    cases hadapter
    simp only [CipherChoice.keyLen, pure_eq, Except.ok.injEq] at h hkey
    have htext := AeadCrate.decryptWith_plaintext hgcm.aes256 "aes-256" hkey h
    exact htext
  all_goals cases haes

end Gcm

/-- What a counter-mode hunt may report of one key: always the same plaintext, and without a tag
only where the oracles accept the beginning of it. -/
def ReportsPlaintext (crates : Crates) (c : CipherChoice) (cipher : BlockCipher)
    (key ciphertext plaintext : Bytes) (config : ScanConfig) : Prop :=
  ∀ oracles offset h, huntStreamWindow crates ciphertext cipher.blockLen cipher oracles config
      c.label (hitMode config.mode) key offset = .ok (some h) →
    h.Shows plaintext ∧ (config.gcmTag = none → Accepts oracles (plaintext.take headLen))

theorem finalizeStreamHit_shows (algo : String) (mode : Mode) (key : Bytes) (keyOffset : Nat)
    (nonce plaintext : Bytes) (matchedBy : String) (confidence : Confidence) :
    (finalizeStreamHit algo mode key keyOffset nonce plaintext matchedBy confidence).Shows
      plaintext :=
  ⟨rfl, rfl, rfl⟩

theorem reportsPlaintext {crates : Crates} {c : CipherChoice} (haes : c.isAes = true)
    {cipher : BlockCipher} (hadapter : c.adapter crates = .ok cipher) {key nonce : Bytes}
    (hkey : key.length = c.keyLen) {config : ScanConfig} (hnonce : config.nonce = some nonce)
    (hready : CounterReady config) (hgcm : config.gcmTag = none ∨ crates.FollowGcm)
    (ciphertext : Bytes) :
    ReportsPlaintext crates c cipher key ciphertext
      (counterMode (keystream cipher key nonce config.mode) (· ^^^ ·) ciphertext) config := by
  intro oracles offset h hhit
  obtain ⟨hkeyLen, hblockLen⟩ := CipherChoice.lengths_of_adapter hadapter
  have hblock : cipher.blockLen = 16 := hblockLen.trans (CipherChoice.blockLen_of_aes haes)
  rw [huntStreamWindow_ok (CipherChoice.adapter_lawful hadapter) hblock hready ciphertext oracles
    c.label (hkey.trans hkeyLen.symm) offset, Except.ok.injEq] at hhit
  cases htag : config.gcmTag with
  | none =>
      rw [counterWindow_oracle htag hnonce] at hhit
      obtain ⟨name, conf, hbest, rfl⟩ := judge_eq_some.mp hhit
      exact ⟨finalizeStreamHit_shows .., fun _ => accepts_iff_bestMatch.mpr ⟨name, conf, hbest⟩⟩
  | some tag =>
      have hmode : config.mode = .gcm ∧ config.tag = some tag := by
        simpa [ScanConfig.gcmTag] using htag
      have hnonceLen : nonce.length = 12 := by
        rcases hready.nonce with ⟨hctr, _⟩ | ⟨_, hlen⟩
        · rw [hmode.1] at hctr
          cases hctr
        · rwa [hnonce] at hlen
      have hfollow := hgcm.resolve_left (by rw [htag]; exact Option.some_ne_none tag)
      rw [counterWindow_tag htag hnonce, Option.map_eq_some_iff] at hhit
      obtain ⟨plaintext, hplain, rfl⟩ := hhit
      have htext := decryptGcmTagged_plaintext hfollow haes hadapter hkey hnonceLen
        (hready.tag tag hmode.2) (answer_eq_some.mp hplain)
      rw [hmode.1, ← htext]
      exact ⟨finalizeStreamHit_shows .., fun hnone => by cases hnone⟩

/-- The counter modes are the standard ones: masked block by block with the encrypted counters,
undone by themselves, and decrypting any first part of a ciphertext to the first part of its
plaintext. So both GCM paths report one plaintext for a key, and what the oracles accepted is the
beginning of it. -/
theorem stream_decrypt_standard (cipher : BlockCipher) (key nonce ciphertext : Bytes)
    (mode : CipherMode) (hkey : cipher.AcceptsKey key) (hnonce : NonceFits nonce mode) :
    ∃ plaintext, streamDecrypt cipher key ciphertext nonce mode = .ok (some plaintext) ∧
      MaskedByCounters cipher key nonce mode ciphertext plaintext ∧
      streamDecrypt cipher key plaintext nonce mode = .ok (some ciphertext) ∧
      (∀ n, streamDecrypt cipher key (ciphertext.take n) nonce mode =
        .ok (some (plaintext.take n))) ∧
      ∀ crates c config, c.isAes = true → c.adapter crates = .ok cipher → key.length = c.keyLen →
        config.mode = mode → config.nonce = some nonce →
        (∀ tag, config.tag = some tag → tag.length = 16) →
        (config.gcmTag = none ∨ crates.FollowGcm) →
        ReportsPlaintext crates c cipher key ciphertext plaintext config := by
  have hdecrypt := streamDecrypt_eq hkey hnonce
  refine ⟨_, hdecrypt ciphertext, maskedByCounters hkey hnonce ciphertext, ?_, ?_, ?_⟩
  · rw [hdecrypt, Modes.counterMode_twice Bytes.xor_twice]
  · intro n
    rw [hdecrypt, Modes.counterMode_take]
  · rintro crates c config haes hadapter hlen rfl hsome htag hgcm
    have hready : CounterReady config := ⟨by rw [hsome]; exact hnonce, htag⟩
    exact reportsPlaintext haes hadapter hlen hsome hready hgcm ciphertext

/-- A published message of zeros under a key of zeros: the encrypted second counter block, and the
tag. -/
def zerosCiphertext : Bytes :=
  [0x03, 0x88, 0xda, 0xce, 0x60, 0xb6, 0xa3, 0x92, 0xf3, 0x28, 0xc2, 0xb9, 0x71, 0xb2, 0xfe, 0x78]

def zerosTag : Bytes :=
  [0xab, 0x6e, 0x47, 0xd4, 0x2c, 0xec, 0x13, 0xbd, 0xf5, 0x3a, 0x67, 0xb2, 0x12, 0x57, 0xbd, 0xdf]

def zerosCrates : Crates :=
  { Crates.ofAnswers
      [(⟨List.replicate 15 0 ++ [2], by decide⟩, ⟨zerosCiphertext, by decide⟩)] with
    aes128Gcm := .ofSealed zeroIv (List.replicate 12 0) zerosCiphertext zerosTag zeroIv }

def zerosConfig (tag : Option Bytes) : ScanConfig :=
  { sampleConfig with mode := .gcm, nonce := some (List.replicate 12 0), tag := tag }

theorem stream_decrypt_standard_sample :
    ∃ plaintext, streamDecrypt (aes128 zerosCrates) zeroIv zerosCiphertext (List.replicate 12 0)
        .gcm = .ok (some plaintext) ∧
      ReportsPlaintext zerosCrates .aes128 (aes128 zerosCrates) zeroIv zerosCiphertext plaintext
        (zerosConfig (some zerosTag)) ∧
      ReportsPlaintext zerosCrates .aes128 (aes128 zerosCrates) zeroIv zerosCiphertext plaintext
        (zerosConfig none) := by
  have hkey : (aes128 zerosCrates).AcceptsKey zeroIv :=
    (aesAdapter_lawful zerosCrates.aes128 "aes-128" (by decide)).acceptsKey rfl (by decide)
  have hgcm : zerosCrates.FollowGcm := by
    constructor
    case aes128 =>
      intro key nonce aad buffer tag plaintext h
      obtain ⟨⟨hzero, hnonce, _, hbuffer, _⟩, htext⟩ := Option.ite_none_right_eq_some.mp h
      have hkey : key = ⟨zeroIv, by decide⟩ := Block.ext hzero
      have hblock : nonce = ⟨List.replicate 12 0, by decide⟩ := Block.ext hnonce
      rw [← Option.some.inj htext, hkey, hblock, hbuffer]
      decide +kernel
    all_goals
      intro key nonce aad buffer tag plaintext h
      cases h
  obtain ⟨plaintext, hplain, _, _, _, hreports⟩ := stream_decrypt_standard (aes128 zerosCrates)
    zeroIv (List.replicate 12 0) zerosCiphertext .gcm hkey (.inr ⟨rfl, by decide⟩)
  have hlen : zeroIv.length = CipherChoice.aes128.keyLen := by decide
  refine ⟨plaintext, hplain, ?_, ?_⟩
  · exact hreports zerosCrates .aes128 (zerosConfig (some zerosTag)) rfl rfl hlen rfl rfl
      (by rintro tag ⟨⟩; decide) (.inr hgcm)
  · exact hreports zerosCrates .aes128 (zerosConfig none) rfl rfl hlen rfl rfl
      (by rintro tag ⟨⟩) (.inl rfl)

end Memhunt
