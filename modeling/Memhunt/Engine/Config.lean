import Memhunt.CipherAdapter

/-! Scan configurations and their validation. -/
namespace Memhunt
open Rust

inductive CipherMode where
  | block
  | ctr
  | gcm
  deriving DecidableEq, Repr

inductive CipherChoice where
  | aes128
  | aes192
  | aes256
  | des
  | tdesEde3
  | sm4
  | chaCha20
  | xChaCha20
  deriving DecidableEq, Repr

namespace CipherChoice

def label : CipherChoice → String
  | aes128 => "aes-128"
  | aes192 => "aes-192"
  | aes256 => "aes-256"
  | des => "des"
  | tdesEde3 => "3des-ede3"
  | sm4 => "sm4"
  | chaCha20 => "chacha20"
  | xChaCha20 => "xchacha20"

def isAes : CipherChoice → Bool
  | aes128 | aes192 | aes256 => true
  | _ => false

def isStreamCipher : CipherChoice → Bool
  | chaCha20 | xChaCha20 => true
  | _ => false

def adapter (crates : Crates) : CipherChoice → Run BlockCipher
  | aes128 => .ok (Memhunt.aes128 crates)
  | aes192 => .ok (Memhunt.aes192 crates)
  | aes256 => .ok (Memhunt.aes256 crates)
  | des => .ok (Memhunt.des crates)
  | tdesEde3 => .ok (Memhunt.tdesEde3 crates)
  | sm4 => .ok (Memhunt.sm4 crates)
  | chaCha20 | xChaCha20 => crash .unreachableCode

def streamAdapter (crates : Crates) : CipherChoice → Run StreamCipherAdapter
  | chaCha20 => .ok (chacha20 crates)
  | xChaCha20 => .ok (xchacha20 crates)
  | _ => crash .unreachableCode

theorem label_inj {c c' : CipherChoice} (h : c.label = c'.label) : c = c' := by
  revert h
  cases c <;> cases c' <;> decide

theorem adapter_ok (crates : Crates) {c : CipherChoice} (h : c.isStreamCipher = false) :
    ∃ cipher, c.adapter crates = .ok cipher := by
  cases c <;> first | exact ⟨_, rfl⟩ | cases h

theorem not_stream_of_adapter {crates : Crates} {c : CipherChoice} {cipher : BlockCipher}
    (h : c.adapter crates = .ok cipher) : c.isStreamCipher = false := by
  cases c <;> first | rfl | cases h

theorem adapter_lawful {crates : Crates} {c : CipherChoice} {cipher : BlockCipher}
    (h : c.adapter crates = .ok cipher) : cipher.Lawful := by
  cases c
  case aes128 => cases h; exact aesAdapter_lawful _ _ (by omega)
  case aes192 => cases h; exact aesAdapter_lawful _ _ (by omega)
  case aes256 => cases h; exact aesAdapter_lawful _ _ (by omega)
  case des => cases h; exact cipher05Adapter_lawful _ _ (by omega) (by omega)
  case tdesEde3 => cases h; exact cipher05Adapter_lawful _ _ (by omega) (by omega)
  case sm4 => cases h; exact cipher05Adapter_lawful _ _ (by omega) (by omega)
  case chaCha20 => cases h
  case xChaCha20 => cases h

/-- Key, block and nonce length of the cipher a choice stands for; the nonce length is that of the
stream ciphers. -/
def keyLen : CipherChoice → Nat
  | aes128 | sm4 => 16
  | aes192 | tdesEde3 => 24
  | aes256 | chaCha20 | xChaCha20 => 32
  | des => 8

def blockLen : CipherChoice → Nat
  | des | tdesEde3 => 8
  | _ => 16

def nonceLen : CipherChoice → Nat
  | xChaCha20 => 24
  | _ => 12

theorem lengths_of_adapter {crates : Crates} {c : CipherChoice} {cipher : BlockCipher}
    (h : c.adapter crates = .ok cipher) :
    cipher.keyLen = c.keyLen ∧ cipher.blockLen = c.blockLen := by
  cases c <;> cases h <;> exact ⟨rfl, rfl⟩

theorem blockLen_cases (c : CipherChoice) : c.blockLen = 8 ∨ c.blockLen = 16 := by
  cases c <;> simp [blockLen]

theorem keyLen_pos (c : CipherChoice) : 0 < c.keyLen := by
  cases c <;> simp [keyLen]

theorem blockLen_of_aes {c : CipherChoice} (haes : c.isAes = true) : c.blockLen = 16 := by
  cases c <;> first | rfl | cases haes

theorem not_stream_of_aes {c : CipherChoice} (h : c.isAes = true) : c.isStreamCipher = false := by
  cases c <;> first | rfl | cases h

end CipherChoice

structure ScanConfig where
  ciphers : List CipherChoice
  mode : CipherMode
  /-- Stop after this many hits (0 = unlimited). -/
  maxHits : Nat
  scanIv : Bool
  /-- Use a fixed IV instead of scanning (skips CBC-without-IV limitations). -/
  fixedIv : Option Bytes
  nonce : Option Bytes
  tag : Option Bytes
  aad : Option Bytes

instance : Inhabited ScanConfig where
  default :=
    { ciphers := [.aes128, .aes192, .aes256], mode := .block, maxHits := 0, scanIv := true,
      fixedIv := none, nonce := none, tag := none, aad := none }

def validateStream (config : ScanConfig) : Run Unit :=
  if config.ciphers.any (fun choice => !choice.isStreamCipher) then
    fail "stream ciphers cannot be mixed with block ciphers"
  else if config.fixedIv.isSome then fail "use --nonce, not --iv, for stream ciphers"
  else match config.nonce with
    | none => fail "nonce is required for stream ciphers"
    | some nonce =>
        let hasXchacha := config.ciphers.any (fun c => c == .xChaCha20)
        let hasChacha := config.ciphers.any (fun c => c == .chaCha20)
        if hasXchacha && nonce.length != 24 then
          fail ("XChaCha20 requires a 24-byte nonce (got " ++ toString nonce.length ++ ")")
        else if hasChacha && nonce.length != 12 then
          fail ("ChaCha20 requires a 12-byte nonce (got " ++ toString nonce.length ++ ")")
        else if config.tag.any (fun tag => tag.length != 16) then
          fail "Poly1305 tag must be 16 bytes"
        else if config.mode = .ctr then
          fail "CTR is AES-only; chacha20 is already a stream cipher"
        else .ok ()

def validateMode (config : ScanConfig) : Run Unit :=
  match config.mode with
  | .block =>
      if config.nonce.isSome then fail "nonce is only valid for CTR or GCM"
      else if config.tag.isSome then fail "tag is only valid for GCM"
      else if config.aad.isSome then fail "aad is only valid for GCM"
      else .ok ()
  | .ctr =>
      if config.fixedIv.isSome then fail "use --nonce, not --iv, for CTR"
      else if config.tag.isSome then fail "tag is only valid for GCM"
      else if config.aad.isSome then fail "aad is only valid for GCM"
      else match config.nonce with
        | none => fail "nonce is required for CTR"
        | some nonce =>
            if nonce.length != 16 then fail "CTR nonce must be a 16-byte initial counter block"
            else .ok ()
  | .gcm =>
      if config.fixedIv.isSome then fail "use --nonce, not --iv, for GCM"
      else match config.nonce with
        | none => fail "nonce is required for GCM"
        | some nonce =>
            if nonce.length != 12 then fail "GCM nonce must be 12 bytes"
            else match config.tag with
              | some tag => if tag.length != 16 then fail "GCM tag must be 16 bytes" else .ok ()
              | none => if config.aad.isSome then fail "GCM aad requires a tag" else .ok ()

def validateConfig (config : ScanConfig) : Run Unit :=
  if config.ciphers.any CipherChoice.isStreamCipher then validateStream config
  else do
    validateMode config
    if config.mode != .block && config.ciphers.any (fun choice => !choice.isAes) then
      fail "CTR and GCM support AES keys only"
    else return ()

/-- What an accepted configuration satisfies, by the kind of its ciphers and its mode. -/
inductive ScanConfig.Valid (config : ScanConfig) : Prop
  | stream (nonce : Bytes) (hsome : ∃ c ∈ config.ciphers, c.isStreamCipher = true)
      (hall : ∀ c ∈ config.ciphers, c.isStreamCipher = true)
      (hiv : config.fixedIv = none) (hnonce : config.nonce = some nonce)
      (hxchacha : CipherChoice.xChaCha20 ∈ config.ciphers → nonce.length = 24)
      (hchacha : CipherChoice.chaCha20 ∈ config.ciphers → nonce.length = 12)
      (htag : ∀ tag, config.tag = some tag → tag.length = 16) (hmode : config.mode ≠ .ctr)
  | block (hnone : ∀ c ∈ config.ciphers, c.isStreamCipher = false) (hmode : config.mode = .block)
      (hnonce : config.nonce = none) (htag : config.tag = none) (haad : config.aad = none)
  | ctr (nonce : Bytes) (haes : ∀ c ∈ config.ciphers, c.isAes = true)
      (hmode : config.mode = .ctr) (hiv : config.fixedIv = none)
      (hnonce : config.nonce = some nonce) (hlen : nonce.length = 16) (htag : config.tag = none)
      (haad : config.aad = none)
  | gcm (nonce : Bytes) (haes : ∀ c ∈ config.ciphers, c.isAes = true)
      (hmode : config.mode = .gcm) (hiv : config.fixedIv = none)
      (hnonce : config.nonce = some nonce) (hlen : nonce.length = 12)
      (htag : ∀ tag, config.tag = some tag → tag.length = 16)
      (haad : config.tag = none → config.aad = none)

theorem validateStream_ok {config : ScanConfig} (h : validateStream config = .ok ())
    (hsome : ∃ c ∈ config.ciphers, c.isStreamCipher = true) : config.Valid := by
  unfold validateStream at h
  split at h
  · cases h
  rename_i hall
  split at h
  · cases h
  rename_i hiv
  cases hnonce : config.nonce with
  | none => simp only [hnonce, fail_ne_ok] at h
  | some nonce =>
      simp only [hnonce] at h
      split at h
      · cases h
      rename_i hx
      split at h
      · cases h
      rename_i hc
      split at h
      · cases h
      rename_i htag
      split at h
      · cases h
      rename_i hmode
      refine .stream nonce hsome ?_ (by simpa using hiv) hnonce ?_ ?_ ?_ hmode
      · simpa using hall
      · intro hmem
        by_contra hlen
        exact hx (by simp [hlen, hmem])
      · intro hmem
        by_contra hlen
        exact hc (by simp [hlen, hmem])
      · intro tag ht
        simpa [ht] using htag

theorem validateMode_block_ok {config : ScanConfig} (h : validateMode config = .ok ())
    (hmode : config.mode = .block) (hnone : ∀ c ∈ config.ciphers, c.isStreamCipher = false) :
    config.Valid := by
  simp only [validateMode, hmode] at h
  split at h
  · cases h
  rename_i hnonce
  split at h
  · cases h
  rename_i htag
  split at h
  · cases h
  rename_i haad
  exact .block hnone hmode (by simpa using hnonce) (by simpa using htag) (by simpa using haad)

theorem validateMode_ctr_ok {config : ScanConfig} (h : validateMode config = .ok ())
    (hmode : config.mode = .ctr) (haes : ∀ c ∈ config.ciphers, c.isAes = true) :
    config.Valid := by
  simp only [validateMode, hmode] at h
  split at h
  · cases h
  rename_i hiv
  split at h
  · cases h
  rename_i htag
  split at h
  · cases h
  rename_i haad
  cases hnonce : config.nonce with
  | none => simp only [hnonce, fail_ne_ok] at h
  | some nonce =>
      simp only [hnonce] at h
      split at h
      · cases h
      rename_i hlen
      exact .ctr nonce haes hmode (by simpa using hiv) hnonce (by simpa using hlen)
        (by simpa using htag) (by simpa using haad)

theorem validateMode_gcm_ok {config : ScanConfig} (h : validateMode config = .ok ())
    (hmode : config.mode = .gcm) (haes : ∀ c ∈ config.ciphers, c.isAes = true) :
    config.Valid := by
  simp only [validateMode, hmode] at h
  split at h
  · cases h
  rename_i hiv
  have hiv' : config.fixedIv = none := by simpa using hiv
  cases hnonce : config.nonce with
  | none => simp only [hnonce, fail_ne_ok] at h
  | some nonce =>
      simp only [hnonce] at h
      split at h
      · cases h
      rename_i hlen
      have hlen' : nonce.length = 12 := by simpa using hlen
      cases htag : config.tag with
      | some tag =>
          simp only [htag] at h
          split at h
          · cases h
          rename_i ht
          have htag' : ∀ tag', config.tag = some tag' → tag'.length = 16 := by
            intro tag' ht'
            obtain rfl := Option.some.inj (htag.symm.trans ht')
            simpa using ht
          exact .gcm nonce haes hmode hiv' hnonce hlen' htag' (by simp [htag])
      | none =>
          simp only [htag] at h
          split at h
          · cases h
          rename_i haad
          exact .gcm nonce haes hmode hiv' hnonce hlen' (by simp [htag])
            (fun _ => by simpa using haad)

theorem validateMode_ok {config : ScanConfig} (h : validateMode config = .ok ())
    (hnone : ∀ c ∈ config.ciphers, c.isStreamCipher = false)
    (haes : config.mode ≠ .block → ∀ c ∈ config.ciphers, c.isAes = true) : config.Valid := by
  cases hmode : config.mode with
  | block => exact validateMode_block_ok h hmode hnone
  | ctr => exact validateMode_ctr_ok h hmode (haes (by simp [hmode]))
  | gcm => exact validateMode_gcm_ok h hmode (haes (by simp [hmode]))

/-- An accepted configuration is one of the four kinds. -/
theorem validateConfig_ok {config : ScanConfig} (h : validateConfig config = .ok ()) :
    config.Valid := by
  unfold validateConfig at h
  split at h
  · rename_i hsome
    exact validateStream_ok h (by simpa using hsome)
  · rename_i hnone
    obtain ⟨u, hmode, h⟩ := bind_ok h
    split at h
    · cases h
    rename_i haes
    refine validateMode_ok hmode (by simpa using hnone) ?_
    intro hblock c hc
    by_contra hnot
    exact haes (by simpa [hblock] using ⟨c, hc, by simpa using hnot⟩)

theorem validateConfig_of_valid {config : ScanConfig} (h : config.Valid) :
    validateConfig config = .ok () := by
  have notStream : (∀ c ∈ config.ciphers, c.isStreamCipher = false) →
      ¬ (config.ciphers.any CipherChoice.isStreamCipher = true) := by
    intro hnone
    simpa using hnone
  have allAes : (∀ c ∈ config.ciphers, c.isAes = true) →
      config.ciphers.any (fun choice => !choice.isAes) = false := by
    intro haes
    simpa using haes
  cases h with
  | stream nonce hsome hall hiv hnonce hxchacha hchacha htag hmode =>
      have hstream : config.ciphers.any CipherChoice.isStreamCipher = true := by simpa using hsome
      have hmixed : config.ciphers.any (fun choice => !choice.isStreamCipher) = false := by
        simpa using hall
      have htag' : config.tag.any (fun tag => tag.length != 16) = false := by
        cases ht : config.tag with
        | none => rfl
        | some tag => simpa using htag tag ht
      have hx : (config.ciphers.any (fun c => c == .xChaCha20) && nonce.length != 24) = false := by
        by_cases hmem : CipherChoice.xChaCha20 ∈ config.ciphers
        · simp [hxchacha hmem]
        · simp [hmem]
      have hc : (config.ciphers.any (fun c => c == .chaCha20) && nonce.length != 12) = false := by
        by_cases hmem : CipherChoice.chaCha20 ∈ config.ciphers
        · simp [hchacha hmem]
        · simp [hmem]
      simp [validateConfig, validateStream, hstream, hmixed, hiv, hnonce, hx, hc, htag', hmode]
  | block hnone hmode hnonce htag haad =>
      simp [validateConfig, validateMode, notStream hnone, hmode, hnonce, htag, haad]
  | ctr nonce haes hmode hiv hnonce hlen htag haad =>
      have hnone := notStream (fun c hc => CipherChoice.not_stream_of_aes (haes c hc))
      simp [validateConfig, validateMode, hnone, hmode, hiv, hnonce, hlen, htag, haad,
        allAes haes]
  | gcm nonce haes hmode hiv hnonce hlen htag haad =>
      have hnone := notStream (fun c hc => CipherChoice.not_stream_of_aes (haes c hc))
      cases ht : config.tag with
      | none =>
          simp [validateConfig, validateMode, hnone, hmode, hiv, hnonce, hlen, ht, haad ht,
            allAes haes]
      | some tag =>
          simp [validateConfig, validateMode, hnone, hmode, hiv, hnonce, hlen, ht, htag tag ht,
            allAes haes]

/-- Stream ciphers and block ciphers are never in one accepted list. -/
theorem ScanConfig.Valid.same_kind {config : ScanConfig} (h : config.Valid) {c d : CipherChoice}
    (hc : c ∈ config.ciphers) (hd : d ∈ config.ciphers) : c.isStreamCipher = d.isStreamCipher := by
  cases h with
  | stream _ _ hall => rw [hall c hc, hall d hd]
  | block hnone => rw [hnone c hc, hnone d hd]
  | ctr _ haes =>
      rw [CipherChoice.not_stream_of_aes (haes c hc), CipherChoice.not_stream_of_aes (haes d hd)]
  | gcm _ haes =>
      rw [CipherChoice.not_stream_of_aes (haes c hc), CipherChoice.not_stream_of_aes (haes d hd)]

theorem validateStream_not_panics (config : ScanConfig) : ¬ Panics (validateStream config) := by
  unfold validateStream
  dsimp only
  repeat' split
  all_goals first | exact not_panics_fail _ | exact not_panics_ok _

theorem validateMode_not_panics (config : ScanConfig) : ¬ Panics (validateMode config) := by
  unfold validateMode
  repeat' split
  all_goals first | exact not_panics_fail _ | exact not_panics_ok _

theorem validateConfig_not_panics (config : ScanConfig) : ¬ Panics (validateConfig config) := by
  unfold validateConfig
  split
  · exact validateStream_not_panics config
  · refine not_panics_bind (validateMode_not_panics config) fun _ => ?_
    split
    · exact not_panics_fail _
    · exact not_panics_ok _

end Memhunt
