import Memhunt.Scan.Composition
import Memhunt.Spec.Vectors

/-! Scans by keystream: in the counter modes and for the stream ciphers, which keys are reported, and
with which plaintext. -/
namespace Memhunt
open Rust

/-- The crate's check of a tag, on a key, a nonce and a tag of any length. -/
def AeadCrate.opens {keyLen nonceLen : Nat} (A : AeadCrate keyLen nonceLen)
    (key nonce aad ciphertext tag : Bytes) : Option Bytes :=
  if h : key.length = keyLen ∧ nonce.length = nonceLen ∧ tag.length = 16 then
    A.decryptInPlaceDetached ⟨key, h.1⟩ ⟨nonce, h.2.1⟩ aad ciphertext ⟨tag, h.2.2⟩
  else none

namespace CipherChoice

/-- The authenticated cipher that belongs to the cipher, if there is one. -/
def opens (crates : Crates) (key nonce aad ciphertext tag : Bytes) : CipherChoice → Option Bytes
  | aes128 => crates.aes128Gcm.opens key nonce aad ciphertext tag
  | aes192 => crates.aes192Gcm.opens key nonce aad ciphertext tag
  | aes256 => crates.aes256Gcm.opens key nonce aad ciphertext tag
  | chaCha20 => crates.chacha20Poly1305.opens key nonce aad ciphertext tag
  | xChaCha20 => crates.xchacha20Poly1305.opens key nonce aad ciphertext tag
  | _ => none

/-- The ciphertext under the keystream of the cipher. -/
def unmask (crates : Crates) (mode : CipherMode) (key nonce ciphertext : Bytes)
    (c : CipherChoice) : Bytes :=
  match c.adapter crates with
  | .ok cipher => Modes.counterMode (keystream cipher key nonce mode) (· ^^^ ·) ciphertext
  | .error _ => Modes.counterMode (c.keystreamBytes crates key nonce) (· ^^^ ·) ciphertext

end CipherChoice

/-- What a key makes of the ciphertext, where it is worth a report: with a tag the plaintext that
the check of the tag lets through, without one the ciphertext under the keystream, where an oracle
accepts its beginning. -/
inductive Recovers (crates : Crates) (ciphertext : Bytes) (oracles : List Oracle)
    (config : ScanConfig) (c : CipherChoice) (key : Bytes) : Bytes → Prop where
  | sealed {nonce tag plaintext : Bytes} (hnonce : config.nonce = some nonce)
      (htag : config.tag = some tag)
      (hopens : c.opens crates key nonce (config.aad.getD []) ciphertext tag = some plaintext) :
      Recovers crates ciphertext oracles config c key plaintext
  | masked {nonce : Bytes} (hnonce : config.nonce = some nonce) (htag : config.tag = none)
      (haccepts : Accepts oracles ((c.unmask crates config.mode key nonce ciphertext).take 32)) :
      Recovers crates ciphertext oracles config c key
        (c.unmask crates config.mode key nonce ciphertext)

section Sealed
variable {crates : Crates} {c : CipherChoice} {key nonce ciphertext tag : Bytes}

theorem AeadCrate.decryptWith_eq {keyLen nonceLen : Nat} (A : AeadCrate keyLen nonceLen)
    (hkey : key.length = keyLen) (hnonce : nonce.length = nonceLen) (htag : tag.length = 16)
    (aad : Bytes) :
    A.decryptWith key ⟨nonce, hnonce⟩ aad ciphertext ⟨tag, htag⟩ =
      A.opens key nonce aad ciphertext tag := by
  rw [AeadCrate.decryptWith, dif_pos hkey, AeadCrate.opens, dif_pos ⟨hkey, hnonce, htag⟩]

/-- The crate is picked by the length of the key, and that is the length of the cipher's own. -/
theorem decryptGcmTagged_opens (haes : c.isAes = true) (hkey : key.length = c.keyLen)
    (hnonce : nonce.length = 12) (htag : tag.length = 16) (aad : Bytes) :
    decryptGcmTagged crates key nonce ciphertext tag aad =
      .ok (c.opens crates key nonce aad ciphertext tag) := by
  unfold decryptGcmTagged
  rw [fromSlice_ok hnonce, ok_bind, fromSlice_ok htag, ok_bind, hkey]
  cases c
  case aes128 => exact congrArg Except.ok (AeadCrate.decryptWith_eq _ hkey hnonce htag aad)
  case aes192 => exact congrArg Except.ok (AeadCrate.decryptWith_eq _ hkey hnonce htag aad)
  case aes256 => exact congrArg Except.ok (AeadCrate.decryptWith_eq _ hkey hnonce htag aad)
  all_goals cases haes

theorem decryptPoly1305Tagged_opens (hstream : c.isStreamCipher = true)
    (hkey : key.length = c.keyLen) (hnonce : nonce.length = c.nonceLen) (htag : tag.length = 16)
    (aad : Bytes) :
    decryptPoly1305Tagged crates c.label key nonce ciphertext tag aad =
      .ok (c.opens crates key nonce aad ciphertext tag) := by
  unfold decryptPoly1305Tagged
  cases c
  case chaCha20 =>
    have hnonce' : nonce.length = 12 := hnonce
    rw [CipherChoice.label, if_pos rfl, fromSlice_ok hnonce', ok_bind, fromSlice_ok htag, ok_bind]
    exact congrArg Except.ok (AeadCrate.decryptWith_eq _ hkey hnonce' htag aad)
  case xChaCha20 =>
    have hnonce' : nonce.length = 24 := hnonce
    rw [CipherChoice.label, if_neg (by decide), if_pos rfl, fromSlice_ok hnonce', ok_bind,
      fromSlice_ok htag, ok_bind]
    exact congrArg Except.ok (AeadCrate.decryptWith_eq _ hkey hnonce' htag aad)
  all_goals cases hstream

end Sealed

section Windows
variable {crates : Crates} {dump ciphertext : Bytes} {oracles : List Oracle} {config : ScanConfig}
  {c : CipherChoice} {key plaintext : Bytes} {o : Nat}

theorem shows_streamHit {algo : String} {mode : Mode} {nonce text : Bytes} {name : String}
    {conf : Confidence} :
    (finalizeStreamHit algo mode key o nonce text name conf).Shows plaintext ↔
      plaintext = text := by
  constructor
  · exact fun h => (Hex.encode_inj.mp h.2.1).symm
  · rintro rfl
    exact ⟨rfl, rfl, rfl⟩

/-- Both windows end alike: a plaintext that a tag lets through, or one that the oracles judge. -/
theorem recovers_of_tag {nonce tag : Bytes} (hnonce : config.nonce = some nonce)
    (htag : config.tag = some tag) {algo : String} {mode : Mode} {name : String} :
    (∃ h, (c.opens crates key nonce (config.aad.getD []) ciphertext tag).map (fun plaintext =>
        finalizeStreamHit algo mode key o nonce plaintext name .high) = some h ∧
          h.Shows plaintext) ↔
      Recovers crates ciphertext oracles config c key plaintext := by
  constructor
  · rintro ⟨h, hmap, hshows⟩
    obtain ⟨text, hopens, rfl⟩ := Option.map_eq_some_iff.mp hmap
    obtain rfl := shows_streamHit.mp hshows
    exact .sealed hnonce htag hopens
  · intro h
    cases h with
    | sealed hnonce' htag' hopens =>
        obtain rfl := Option.some.inj (hnonce.symm.trans hnonce')
        obtain rfl := Option.some.inj (htag.symm.trans htag')
        exact ⟨_, by rw [hopens, Option.map_some], shows_streamHit.mpr rfl⟩
    | masked _ hnone =>
        rw [htag] at hnone
        cases hnone

theorem recovers_of_oracles {nonce : Bytes} (hnonce : config.nonce = some nonce)
    (htag : config.tag = none) {algo : String} {mode : Mode} :
    (∃ h, judge oracles ((c.unmask crates config.mode key nonce ciphertext).take headLen)
        (finalizeStreamHit algo mode key o nonce (c.unmask crates config.mode key nonce ciphertext)) =
          some h ∧ h.Shows plaintext) ↔
      Recovers crates ciphertext oracles config c key plaintext := by
  constructor
  · rintro ⟨h, hjudge, hshows⟩
    obtain ⟨name, conf, hbest, rfl⟩ := judge_eq_some.mp hjudge
    obtain rfl := shows_streamHit.mp hshows
    exact .masked hnonce htag (accepts_iff_bestMatch.mpr ⟨name, conf, hbest⟩)
  · intro h
    cases h with
    | sealed _ hsome =>
        rw [htag] at hsome
        cases hsome
    | masked hnonce' _ haccepts =>
        obtain rfl := Option.some.inj (hnonce.symm.trans hnonce')
        obtain ⟨name, conf, hbest⟩ := accepts_iff_bestMatch.mp haccepts
        exact ⟨_, judge_eq_some.mpr ⟨name, conf, hbest, rfl⟩, shows_streamHit.mpr rfl⟩

theorem answer_ok {α : Type} (r : Option α) : answer (.ok r) = r := rfl

theorem unmask_stream (hstream : c.isStreamCipher = true) (mode : CipherMode) (nonce : Bytes) :
    c.unmask crates mode key nonce ciphertext =
      Modes.counterMode (c.keystreamBytes crates key nonce) (· ^^^ ·) ciphertext := by
  rw [CipherChoice.unmask, CipherChoice.adapter_of_stream crates hstream]
  rfl

theorem unmask_counter {cipher : BlockCipher} (hadapter : c.adapter crates = .ok cipher)
    (mode : CipherMode) (nonce : Bytes) :
    c.unmask crates mode key nonce ciphertext =
      Modes.counterMode (keystream cipher key nonce mode) (· ^^^ ·) ciphertext := by
  rw [CipherChoice.unmask, hadapter]

theorem streamWindow_recovers (hvalid : config.Valid) (hc : c ∈ config.ciphers)
    (hstream : c.isStreamCipher = true) {nonce : Bytes} (hnonce : config.nonce = some nonce)
    (hkey : key.length = c.keyLen) :
    (∃ h, streamWindow crates c ciphertext oracles config (key, o) = some h ∧ h.Shows plaintext) ↔
      Recovers crates ciphertext oracles config c key plaintext := by
  have hready := hvalid.streamReady hc hstream
  have hlen := hready.nonce
  rw [hnonce, Option.getD_some] at hlen
  unfold streamWindow
  cases htag : config.tag with
  | some tag =>
      simp only [hnonce, Option.getD_some,
        decryptPoly1305Tagged_opens hstream hkey hlen (hready.tag tag htag), answer_ok]
      exact recovers_of_tag hnonce htag
  | none =>
      simp only [hnonce, Option.getD_some, ← unmask_stream hstream config.mode]
      exact recovers_of_oracles hnonce htag

theorem counterWindow_recovers {cipher : BlockCipher} (hadapter : c.adapter crates = .ok cipher)
    (haes : c.isAes = true) (hready : CounterReady config) {nonce : Bytes}
    (hnonce : config.nonce = some nonce)
    (htagged : config.tag ≠ none → config.mode = .gcm ∧ nonce.length = 12)
    (hkey : key.length = c.keyLen) :
    (∃ h, counterWindow crates cipher ciphertext oracles config c.label (key, o) = some h ∧
        h.Shows plaintext) ↔
      Recovers crates ciphertext oracles config c key plaintext := by
  cases htag : config.tag with
  | some tag =>
      obtain ⟨hmode, hlen⟩ := htagged (by rw [htag]; exact Option.some_ne_none tag)
      have hgcm : config.gcmTag = some tag := by rw [ScanConfig.gcmTag, if_pos hmode, htag]
      rw [counterWindow_tag hgcm hnonce]
      simp only [decryptGcmTagged_opens haes hkey hlen (hready.tag tag htag), answer_ok]
      exact recovers_of_tag hnonce htag
  | none =>
      have hgcm : config.gcmTag = none := by rw [ScanConfig.gcmTag, htag, ite_self]
      rw [counterWindow_oracle hgcm hnonce, ← unmask_counter hadapter]
      exact recovers_of_oracles hnonce htag

/-- Where a request asks for a keystream at all, the verdict on a window is the recovery of a
plaintext from it. -/
theorem windowHit_recovers (hvalid : config.Valid) (hc : c ∈ config.ciphers)
    (hneeds : c.isStreamCipher = true ∨ config.mode ≠ .block) (hkey : key.length = c.keyLen) :
    (∃ h, windowHit crates dump ciphertext oracles config c (key, o) = some h ∧
        h.Shows plaintext) ↔
      Recovers crates ciphertext oracles config c key plaintext := by
  have hcounter : ∀ {nonce : Bytes}, c.isAes = true → config.mode ≠ .block →
      config.nonce = some nonce → (config.tag ≠ none → config.mode = .gcm ∧ nonce.length = 12) →
      ((∃ h, windowHit crates dump ciphertext oracles config c (key, o) = some h ∧
        h.Shows plaintext) ↔ Recovers crates ciphertext oracles config c key plaintext) := by
    intro nonce haes hmode hnonce htagged
    have hblock := CipherChoice.not_stream_of_aes haes
    obtain ⟨cipher, hadapter⟩ := CipherChoice.adapter_ok crates hblock
    rw [windowHit_counter hadapter hmode]
    exact counterWindow_recovers hadapter haes (hvalid.counterReady hmode hc hblock) hnonce htagged
      hkey
  have haccepted := hvalid
  cases hvalid with
  | stream nonce hsome hall hiv hnonce =>
      rw [windowHit_stream (hall c hc)]
      exact streamWindow_recovers haccepted hc (hall c hc) hnonce hkey
  | block hnone hmode =>
      rcases hneeds with hstream | hmode'
      · rw [hnone c hc] at hstream
        cases hstream
      · exact absurd hmode hmode'
  | ctr nonce haes hmode hiv hnonce hlen htag =>
      have hnot : config.mode ≠ .block := by
        rw [hmode]
        exact fun h => nomatch h
      exact hcounter (haes c hc) hnot hnonce fun hsome => absurd htag hsome
  | gcm nonce haes hmode hiv hnonce hlen =>
      have hnot : config.mode ≠ .block := by
        rw [hmode]
        exact fun h => nomatch h
      exact hcounter (haes c hc) hnot hnonce fun _ => ⟨hmode, hlen⟩

theorem shows_of_windowHit (hneeds : c.isStreamCipher = true ∨ config.mode ≠ .block)
    {w : Bytes × Nat} {h : Hit} (hw : windowHit crates dump ciphertext oracles config c w = some h) :
    ∃ plaintext, h.Shows plaintext := by
  have hstream : ∀ {mode : Mode} {nonce text : Bytes} {name : String} {conf : Confidence},
      finalizeStreamHit c.label mode w.1 w.2 nonce text name conf = h →
        ∃ plaintext, h.Shows plaintext := by
    rintro mode nonce text name conf rfl
    exact ⟨text, shows_streamHit.mpr rfl⟩
  unfold windowHit at hw
  split at hw
  · unfold streamWindow at hw
    cases htag : config.tag with
    | some tag =>
        simp only [htag] at hw
        obtain ⟨text, _, heq⟩ := Option.map_eq_some_iff.mp hw
        exact hstream heq
    | none =>
        simp only [htag] at hw
        obtain ⟨name, conf, _, heq⟩ := judge_eq_some.mp hw
        exact hstream heq
  · rename_i cipher hadapter
    have hmode : config.mode ≠ .block := by
      refine hneeds.resolve_left ?_
      rw [CipherChoice.not_stream_of_adapter hadapter]
      exact Bool.false_ne_true
    rw [if_neg hmode] at hw
    unfold counterWindow at hw
    cases htag : config.gcmTag with
    | some tag =>
        simp only [htag] at hw
        obtain ⟨text, _, heq⟩ := Option.map_eq_some_iff.mp hw
        exact hstream heq
    | none =>
        simp only [htag] at hw
        obtain ⟨name, conf, _, heq⟩ := judge_eq_some.mp hw
        exact hstream heq

end Windows

section Hits
variable {crates : Crates} {dump ciphertext : Bytes} {oracles : List Oracle} {config : ScanConfig}
  {r : ScanResult}

/-- What a scan without a limit reports of one cipher at one offset is the verdict on the window. -/
theorem hits_at (hmax : config.maxHits = 0)
    (hscan : scan crates dump ciphertext oracles config = .ok r) {c : CipherChoice}
    (hc : c ∈ config.ciphers) (o : Nat) (p : Hit → Prop) :
    (∃ h ∈ r.hits, h.algo = c.label ∧ h.keyOffset = o ∧ p h) ↔
      o + c.keyLen ≤ dump.length ∧
        ∃ h, windowHit crates dump ciphertext oracles config c
          (Bytes.slice dump o c.keyLen, o) = some h ∧ p h := by
  rw [hits_of_scan hmax hscan]
  constructor
  · rintro ⟨h, hmem, halgo, hoffset, hph⟩
    obtain ⟨d, _, hd⟩ := List.mem_flatMap.mp hmem
    obtain rfl : d = c := CipherChoice.label_inj ((algo_of_mem_cipherHits hd).symm.trans halgo)
    obtain ⟨q, hq, hw⟩ := Windows.mem_search.mp hd
    obtain rfl : q = o := (foundAt_windowHit hw).offset.symm.trans hoffset
    exact ⟨hq, h, hw, hph⟩
  · rintro ⟨ho, h, hw, hph⟩
    have hfound := foundAt_windowHit hw
    exact ⟨h, List.mem_flatMap.mpr ⟨c, hc, Windows.mem_search.mpr ⟨o, ho, hw⟩⟩, hfound.algo,
      hfound.offset, hph⟩

end Hits

/-- A scan by keystream, with a tag or without, reports exactly the keys that a plaintext is
recovered with, each once for each cipher and with that plaintext. -/
theorem keystream_scan_exact (crates : Crates) (dump ciphertext : Bytes) (oracles : List Oracle)
    (config : ScanConfig) (r : ScanResult) (hmax : config.maxHits = 0)
    (hkeystream : config.mode ≠ .block ∨ ∃ c ∈ config.ciphers, c.isStreamCipher = true)
    (hscan : scan crates dump ciphertext oracles config = .ok r) :
    (∀ c ∈ config.ciphers, ∀ o plaintext,
      (∃ h ∈ r.hits, h.algo = c.label ∧ h.keyOffset = o ∧ h.Shows plaintext) ↔
        o + c.keyLen ≤ dump.length ∧
          Recovers crates ciphertext oracles config c (Bytes.slice dump o c.keyLen) plaintext) ∧
    (∀ h ∈ r.hits, ∃ c ∈ config.ciphers, ∃ plaintext, h.algo = c.label ∧ h.Shows plaintext) ∧
    (config.ciphers.Nodup → (r.hits.map fun h => (h.algo, h.keyOffset)).Nodup) := by
  have hvalid := (admitted_of_scan hscan).valid
  have hneeds : ∀ c ∈ config.ciphers, c.isStreamCipher = true ∨ config.mode ≠ .block := by
    intro c hc
    rcases hkeystream with hmode | ⟨d, hd, hstream⟩
    · exact .inr hmode
    · exact .inl ((hvalid.same_kind hc hd).trans hstream)
  refine ⟨?_, ?_, fun hnodup => hits_of_scan hmax hscan ▸ nodup_hits hnodup⟩
  · intro c hc o plaintext
    rw [hits_at hmax hscan hc o]
    refine and_congr_right fun ho => ?_
    exact windowHit_recovers hvalid hc (hneeds c hc) (Bytes.length_slice ho)
  · intro h hmem
    obtain ⟨c, hc, _, _, o, _, hw⟩ := hit_of_scan hscan hmem
    obtain ⟨plaintext, hshows⟩ := shows_of_windowHit (hneeds c hc) hw
    exact ⟨c, hc, plaintext, (foundAt_windowHit hw).algo, hshows⟩

/-- The dump holds the key of the sealed message behind four other bytes. -/
def unsealingDump : Bytes := [1, 2, 3, 4] ++ sealedKey

def unsealingConfig : ScanConfig :=
  { (default : ScanConfig) with
    ciphers := [.chaCha20], nonce := some sealedNonce, tag := some sealedTag }

theorem keystream_scan_exact_sample : ∃ r,
    scan sealedCrates unsealingDump sealedCiphertext [utf8Oracle] unsealingConfig = .ok r ∧
    ∃ h ∈ r.hits, h.algo = "chacha20" ∧ h.keyOffset = 4 ∧ h.Shows samplePlaintext := by
  have hcount : (scan sealedCrates unsealingDump sealedCiphertext [utf8Oracle]
      unsealingConfig).map (fun r => r.hits.length) = .ok 1 := by decide +kernel
  obtain ⟨r, hscan, _⟩ := ok_of_map hcount
  refine ⟨r, hscan, ((keystream_scan_exact sealedCrates unsealingDump sealedCiphertext [utf8Oracle]
    unsealingConfig r rfl (.inr ⟨.chaCha20, by decide, rfl⟩) hscan).1 .chaCha20 (by decide) 4
    samplePlaintext).mpr ⟨by decide, ?_⟩⟩
  exact .sealed rfl rfl (by decide +kernel)

end Memhunt
