import Memhunt.Engine.Stream

/-! What the counter modes and the stream ciphers decide about one key window, as plain functions,
and the code's agreement with them. -/
namespace Memhunt
open Rust

def headLen : Nat := 32

def hitMode : CipherMode → Mode
  | .gcm => .gcm
  | _ => .ctr

namespace CipherChoice

def keystreamBytes (crates : Crates) (key nonce : Bytes) : CipherChoice → Nat → UInt8
  | xChaCha20 => crates.xchacha20.bytes key nonce
  | _ => crates.chacha20.bytes key nonce

/-- How many bytes of keystream it has. -/
def keystreamLimit (crates : Crates) : CipherChoice → Nat
  | xChaCha20 => crates.xchacha20.limit
  | _ => crates.chacha20.limit

end CipherChoice

/-- A tag decides alone; without one the oracles judge the head of the counter-mode decryption. -/
def counterWindow (crates : Crates) (cipher : BlockCipher) (ciphertext : Bytes)
    (oracles : List Oracle) (config : ScanConfig) (algo : String) (w : Bytes × Nat) : Option Hit :=
  let nonce := config.nonce.getD []
  match config.gcmTag with
  | some tag =>
      (answer (decryptGcmTagged crates w.1 nonce ciphertext tag (config.aad.getD []))).map
        fun plaintext =>
          finalizeStreamHit algo (hitMode config.mode) w.1 w.2 nonce plaintext "gcm-tag" .high
  | none =>
      let plaintext :=
        Modes.counterMode (keystream cipher w.1 nonce config.mode) (· ^^^ ·) ciphertext
      judge oracles (plaintext.take headLen)
        (finalizeStreamHit algo (hitMode config.mode) w.1 w.2 nonce plaintext)

section CounterWindow
variable {crates : Crates} {cipher : BlockCipher} {ciphertext : Bytes} {oracles : List Oracle}
  {config : ScanConfig} {nonce : Bytes}

theorem counterWindow_tag {tag : Bytes} (htag : config.gcmTag = some tag)
    (hnonce : config.nonce = some nonce) (algo : String) (w : Bytes × Nat) :
    counterWindow crates cipher ciphertext oracles config algo w =
      (answer (decryptGcmTagged crates w.1 nonce ciphertext tag (config.aad.getD []))).map
        fun plaintext =>
          finalizeStreamHit algo (hitMode config.mode) w.1 w.2 nonce plaintext "gcm-tag" .high := by
  simp only [counterWindow, htag, hnonce, Option.getD_some]

theorem counterWindow_oracle (htag : config.gcmTag = none) (hnonce : config.nonce = some nonce)
    (algo : String) (w : Bytes × Nat) :
    counterWindow crates cipher ciphertext oracles config algo w =
      judge oracles ((Modes.counterMode (keystream cipher w.1 nonce config.mode) (· ^^^ ·)
          ciphertext).take headLen)
        (finalizeStreamHit algo (hitMode config.mode) w.1 w.2 nonce
          (Modes.counterMode (keystream cipher w.1 nonce config.mode) (· ^^^ ·) ciphertext)) := by
  simp only [counterWindow, htag, hnonce, Option.getD_some]

end CounterWindow

def streamWindow (crates : Crates) (c : CipherChoice) (ciphertext : Bytes) (oracles : List Oracle)
    (config : ScanConfig) (w : Bytes × Nat) : Option Hit :=
  let nonce := config.nonce.getD []
  match config.tag with
  | some tag =>
      (answer (decryptPoly1305Tagged crates c.label w.1 nonce ciphertext tag
        (config.aad.getD []))).map
        fun plaintext => finalizeStreamHit c.label .stream w.1 w.2 nonce plaintext "poly1305-tag" .high
  | none =>
      let plaintext := Modes.counterMode (c.keystreamBytes crates w.1 nonce) (· ^^^ ·) ciphertext
      judge oracles (plaintext.take headLen)
        (finalizeStreamHit c.label .stream w.1 w.2 nonce plaintext)

structure CounterReady (config : ScanConfig) : Prop where
  nonce : NonceFits (config.nonce.getD []) config.mode
  tag : ∀ tag, config.tag = some tag → tag.length = 16

structure StreamReady (config : ScanConfig) (c : CipherChoice) : Prop where
  stream : c.isStreamCipher = true
  nonce : (config.nonce.getD []).length = c.nonceLen
  tag : ∀ tag, config.tag = some tag → tag.length = 16

theorem ScanConfig.Valid.counterReady {config : ScanConfig} (h : config.Valid)
    (hmode : config.mode ≠ .block) {c : CipherChoice} (hc : c ∈ config.ciphers)
    (hstream : c.isStreamCipher = false) : CounterReady config := by
  cases h with
  | stream _ _ hall =>
      rw [hall c hc] at hstream
      cases hstream
  | block _ hblock => exact absurd hblock hmode
  | ctr nonce _ hctr _ hnonce hlen htag =>
      exact ⟨.inl ⟨hctr, by rw [hnonce]; exact hlen⟩, fun tag ht => by rw [htag] at ht; cases ht⟩
  | gcm nonce _ hgcm _ hnonce hlen htag =>
      exact ⟨.inr ⟨hgcm, by rw [hnonce]; exact hlen⟩, htag⟩

theorem ScanConfig.Valid.streamReady {config : ScanConfig} (h : config.Valid) {c : CipherChoice}
    (hc : c ∈ config.ciphers) (hstream : c.isStreamCipher = true) : StreamReady config c := by
  have clash : c.isStreamCipher = false → StreamReady config c := by
    intro hn
    rw [hn] at hstream
    cases hstream
  cases h with
  | stream nonce _ _ _ hnonce hxchacha hchacha htag =>
      refine ⟨hstream, ?_, htag⟩
      rw [hnonce]
      cases c
      case chaCha20 => exact hchacha hc
      case xChaCha20 => exact hxchacha hc
      all_goals cases hstream
  | block hnone => exact clash (hnone c hc)
  | ctr _ haes => exact clash (CipherChoice.not_stream_of_aes (haes c hc))
  | gcm _ haes => exact clash (CipherChoice.not_stream_of_aes (haes c hc))

theorem fromSlice_ok {n : Nat} {xs : Bytes} (h : xs.length = n) :
    fromSlice n xs = .ok ⟨xs, h⟩ := dif_pos h

theorem decryptGcmTagged_returns (crates : Crates) (key ciphertext aad : Bytes) {nonce tag : Bytes}
    (hnonce : nonce.length = 12) (htag : tag.length = 16) :
    ∃ r, decryptGcmTagged crates key nonce ciphertext tag aad = .ok r := by
  unfold decryptGcmTagged
  rw [fromSlice_ok hnonce, ok_bind, fromSlice_ok htag, ok_bind]
  split
  all_goals exact ⟨_, rfl⟩

theorem decryptPoly1305Tagged_returns (crates : Crates) {c : CipherChoice}
    (hstream : c.isStreamCipher = true) (key ciphertext aad : Bytes) {nonce tag : Bytes}
    (hnonce : nonce.length = c.nonceLen) (htag : tag.length = 16) :
    ∃ r, decryptPoly1305Tagged crates c.label key nonce ciphertext tag aad = .ok r := by
  unfold decryptPoly1305Tagged
  cases c
  case chaCha20 =>
    have hnonce' : nonce.length = 12 := hnonce
    rw [CipherChoice.label, if_pos rfl, fromSlice_ok hnonce', ok_bind, fromSlice_ok htag, ok_bind]
    exact ⟨_, rfl⟩
  case xChaCha20 =>
    have hnonce' : nonce.length = 24 := hnonce
    rw [CipherChoice.label, if_neg (by decide), if_pos rfl, fromSlice_ok hnonce', ok_bind,
      fromSlice_ok htag, ok_bind]
    exact ⟨_, rfl⟩
  all_goals cases hstream

/-- On a key of the right length the code decides as specified. -/
theorem huntStreamWindow_ok {crates : Crates} {cipher : BlockCipher} (hc : cipher.Lawful)
    (hblock : cipher.blockLen = 16) {config : ScanConfig} (hready : CounterReady config)
    (ciphertext : Bytes) (oracles : List Oracle) (algo : String) {key : Bytes}
    (hkey : key.length = cipher.keyLen) (offset : Nat) :
    huntStreamWindow crates ciphertext cipher.blockLen cipher oracles config algo
        (hitMode config.mode) key offset =
      .ok (counterWindow crates cipher ciphertext oracles config algo (key, offset)) := by
  have hslice : sliceTo ciphertext (min (verifyBlocks * cipher.blockLen) ciphertext.length) =
      .ok (ciphertext.take headLen) := by
    rw [sliceTo_ok (Nat.min_le_right _ _), hblock]
    exact congrArg Except.ok List.take_eq_take_min.symm
  have hhead := streamDecrypt_ok hc hblock hkey hready.nonce (ciphertext.take headLen)
  have hfull := streamDecrypt_ok hc hblock hkey hready.nonce ciphertext
  rw [Modes.counterMode_take] at hhead
  unfold huntStreamWindow counterWindow
  cases htag : config.gcmTag with
  | some tag =>
      have hgcm : config.mode = .gcm ∧ config.tag = some tag := by
        simpa [ScanConfig.gcmTag] using htag
      have hlen : (config.nonce.getD []).length = 12 := by
        rcases hready.nonce with ⟨hctr, _⟩ | ⟨_, hlen⟩
        · rw [hgcm.1] at hctr
          cases hctr
        · exact hlen
      obtain ⟨r, hr⟩ := decryptGcmTagged_returns crates key ciphertext (config.aad.getD []) hlen
        (hready.tag tag hgcm.2)
      simp only [hr, ok_bind, answer]
      cases r with
      | none => rfl
      | some plaintext => rfl
  | none =>
      simp only [hslice, ok_bind, hhead, hfull, judge]
      cases bestMatch oracles _ with
      | none => rfl
      | some m => rfl

theorem huntStream_ok {crates : Crates} {cipher : BlockCipher} (hc : cipher.Lawful)
    (hblock : cipher.blockLen = 16) {config : ScanConfig} (hready : CounterReady config)
    (dump ciphertext : Bytes) (oracles : List Oracle) (algo : String) :
    huntStream crates dump ciphertext cipher.blockLen cipher oracles config algo false =
      .ok (Windows.search (counterWindow crates cipher ciphertext oracles config algo)
        cipher.keyLen dump, dump.length + 1 - cipher.keyLen) := by
  have hvisit : Windows.visit false cipher.keyLen dump
      (huntStreamWindow crates ciphertext cipher.blockLen cipher oracles config algo
        (hitMode config.mode)) = _ :=
    Windows.visit_ok hc.keyPos fun o ho =>
      huntStreamWindow_ok hc hblock hready ciphertext oracles algo (Bytes.length_slice ho) o
  unfold huntStream
  rcases hready.nonce with ⟨hmode, _⟩ | ⟨hmode, _⟩
  · rw [hmode] at hvisit ⊢
    exact hvisit
  · rw [hmode] at hvisit ⊢
    exact hvisit

theorem CipherChoice.xorKeystream_eq {crates : Crates} {c : CipherChoice}
    {adapter : StreamCipherAdapter} (h : c.streamAdapter crates = .ok adapter) {key nonce : Bytes}
    (hk : key.length = c.keyLen) (hn : nonce.length = c.nonceLen) (data : Bytes) :
    adapter.xorKeystream key nonce data =
      if data.length ≤ c.keystreamLimit crates then
        .ok (true, Modes.counterMode (c.keystreamBytes crates key nonce) (· ^^^ ·) data)
      else crash .streamExhausted := by
  cases c
  case chaCha20 =>
    cases h
    exact StreamCrate.xorKeystream_eq _ hk hn data
  case xChaCha20 =>
    cases h
    exact StreamCrate.xorKeystream_eq _ hk hn data
  all_goals cases h

theorem CipherChoice.keyLen_of_streamAdapter {crates : Crates} {c : CipherChoice}
    {adapter : StreamCipherAdapter} (h : c.streamAdapter crates = .ok adapter) :
    adapter.keyLen = c.keyLen := by
  cases c <;> cases h <;> rfl

theorem CipherChoice.streamAdapter_ok (crates : Crates) {c : CipherChoice}
    (h : c.isStreamCipher = true) : ∃ adapter, c.streamAdapter crates = .ok adapter := by
  cases c <;> first | exact ⟨_, rfl⟩ | cases h

theorem huntStreamCipherWindow_tag {crates : Crates} {c : CipherChoice}
    (adapter : StreamCipherAdapter) {config : ScanConfig} (hready : StreamReady config c)
    {tag : Bytes} (htag : config.tag = some tag) (ciphertext : Bytes) (oracles : List Oracle)
    (key : Bytes) (offset : Nat) :
    huntStreamCipherWindow crates ciphertext adapter oracles config c.label key offset =
      .ok (streamWindow crates c ciphertext oracles config (key, offset)) := by
  obtain ⟨r, hr⟩ := decryptPoly1305Tagged_returns crates hready.stream key ciphertext
    (config.aad.getD []) hready.nonce (hready.tag tag htag)
  unfold huntStreamCipherWindow streamWindow
  simp only [htag, hr, ok_bind, answer]
  cases r with
  | none => rfl
  | some plaintext => rfl

/-- On a key of the right length the code decides as specified, or the ciphertext is longer than
the keystream. -/
theorem huntStreamCipherWindow_ok_or_crash {crates : Crates} {c : CipherChoice}
    {adapter : StreamCipherAdapter} (hadapter : c.streamAdapter crates = .ok adapter)
    {config : ScanConfig} (hready : StreamReady config c) (ciphertext : Bytes)
    (oracles : List Oracle) {key : Bytes} (hkey : key.length = c.keyLen) (offset : Nat) :
    huntStreamCipherWindow crates ciphertext adapter oracles config c.label key offset =
        .ok (streamWindow crates c ciphertext oracles config (key, offset)) ∨
      (c.keystreamLimit crates < ciphertext.length ∧
        huntStreamCipherWindow crates ciphertext adapter oracles config c.label key offset =
          crash .streamExhausted) := by
  have hslice : sliceTo ciphertext (min (verifyBlocks * 16) ciphertext.length) =
      .ok (ciphertext.take headLen) := by
    rw [sliceTo_ok (Nat.min_le_right _ _)]
    exact congrArg Except.ok List.take_eq_take_min.symm
  have hxor := fun data => CipherChoice.xorKeystream_eq hadapter hkey hready.nonce data
  cases htag : config.tag with
  | some tag =>
      exact .inl (huntStreamCipherWindow_tag adapter hready htag ciphertext oracles key offset)
  | none =>
      unfold huntStreamCipherWindow streamWindow
      simp only [htag, hslice, ok_bind, hxor]
      by_cases hhead : (ciphertext.take headLen).length ≤ c.keystreamLimit crates
      · rw [if_pos hhead, ok_bind, Modes.counterMode_take]
        simp only [judge]
        cases bestMatch oracles _ with
        | none => exact .inl rfl
        | some m =>
            by_cases hfull : ciphertext.length ≤ c.keystreamLimit crates
            · rw [if_pos hfull]
              exact .inl rfl
            · rw [if_neg hfull]
              exact .inr ⟨by omega, rfl⟩
      · have hlong : c.keystreamLimit crates < ciphertext.length := by
          have := List.length_take_le headLen ciphertext
          have := List.length_take_le' headLen ciphertext
          omega
        rw [if_neg hhead]
        exact .inr ⟨hlong, rfl⟩

/-- With a tag no keystream is asked for, so none can run out. -/
theorem huntStreamCipher_tag {crates : Crates} {c : CipherChoice} {adapter : StreamCipherAdapter}
    (hadapter : c.streamAdapter crates = .ok adapter) {config : ScanConfig}
    (hready : StreamReady config c) {tag : Bytes} (htag : config.tag = some tag)
    (dump ciphertext : Bytes) (oracles : List Oracle) :
    huntStreamCipher crates dump ciphertext adapter oracles config c.label false =
      .ok (Windows.search (streamWindow crates c ciphertext oracles config) c.keyLen dump,
        dump.length + 1 - c.keyLen) := by
  unfold huntStreamCipher
  rw [CipherChoice.keyLen_of_streamAdapter hadapter]
  exact Windows.visit_ok c.keyLen_pos fun o _ =>
    huntStreamCipherWindow_tag adapter hready htag ciphertext oracles _ o

theorem huntStreamCipher_ok_or_crash {crates : Crates} {c : CipherChoice}
    {adapter : StreamCipherAdapter} (hadapter : c.streamAdapter crates = .ok adapter)
    {config : ScanConfig} (hready : StreamReady config c) (dump ciphertext : Bytes)
    (oracles : List Oracle) :
    huntStreamCipher crates dump ciphertext adapter oracles config c.label false =
        .ok (Windows.search (streamWindow crates c ciphertext oracles config) c.keyLen dump,
          dump.length + 1 - c.keyLen) ∨
      (c.keystreamLimit crates < ciphertext.length ∧
        huntStreamCipher crates dump ciphertext adapter oracles config c.label false =
          crash .streamExhausted) := by
  have hwindow := fun o (ho : o + c.keyLen ≤ dump.length) =>
    huntStreamCipherWindow_ok_or_crash hadapter hready ciphertext oracles
      (Bytes.length_slice ho) o
  unfold huntStreamCipher
  rw [CipherChoice.keyLen_of_streamAdapter hadapter]
  by_cases hlimit : c.keystreamLimit crates < ciphertext.length
  · rcases Windows.visit_ok_or_crash c.keyLen_pos fun o ho => (hwindow o ho).imp_right And.right
      with hok | hcrash
    · exact .inl hok
    · exact .inr ⟨hlimit, hcrash⟩
  · exact .inl (Windows.visit_ok c.keyLen_pos fun o ho =>
      (hwindow o ho).resolve_right fun h => hlimit h.1)

end Memhunt
