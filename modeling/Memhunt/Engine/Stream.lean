import Memhunt.Engine.Config
import Memhunt.Engine.Finalize
import Memhunt.Lib.Counter
import Memhunt.Lib.Windows

/-! CTR, GCM and the pure stream ciphers: keystream decryption and the hunt over key windows. -/
namespace Memhunt
open Rust

def verifyBlocks : Nat := 2

/-- `u128` addition with wraparound on the whole block. -/
def incrementCounter (counter : Block 16) : Block 16 :=
  ⟨Bytes.toBE 16 ((Bytes.fromBE counter.val + 1) % 2 ^ 128), Bytes.length_toBE _ _⟩

/-- `u32` addition with wraparound on the last four bytes. -/
def incrementCounter32 (counter : Block 16) : Block 16 :=
  ⟨counter.val.take 12 ++ Bytes.toBE 4 ((Bytes.fromBE (counter.val.drop 12) + 1) % 2 ^ 32), by
    simp⟩

/-- Copying the nonce into the first 12 bytes panics on any other length. -/
def gcmJ0 (nonce : Bytes) : Run (Block 16) :=
  if h : nonce.length = 12 then .ok ⟨nonce ++ [0, 0, 0, 1], by simp [h]⟩
  else crash .sliceLength

/-- The counter of the first keystream block; no value where the source returns early. -/
def initialCounter (nonce : Bytes) (mode : CipherMode) : Run (Option (Block 16)) :=
  match mode with
  | .ctr => if h : nonce.length = 16 then .ok (some ⟨nonce, h⟩) else .ok none
  | .gcm => do
      let counter ← gcmJ0 nonce
      return some (incrementCounter32 counter)
  | .block => .ok none

def nextCounter (mode : CipherMode) (counter : Block 16) : Option (Block 16) :=
  match mode with
  | .ctr => some (incrementCounter counter)
  | .gcm => some (incrementCounter32 counter)
  | .block => none

def streamChunks (cipher : BlockCipher) (key : Bytes) (mode : CipherMode) :
    Block 16 → List Bytes → Bytes → Option Bytes
  | _, [], plaintext => some plaintext
  | counter, chunk :: rest, plaintext =>
      match cipher.encryptWithKey key counter.val with
      | (false, _) => none
      | (true, keystream) =>
          match nextCounter mode counter with
          | none => none
          | some counter =>
              streamChunks cipher key mode counter rest (plaintext ++ Bytes.xor chunk keystream)

def streamDecrypt (cipher : BlockCipher) (key ciphertext nonce : Bytes) (mode : CipherMode) :
    Run (Option Bytes) := do
  match ← initialCounter nonce mode with
  | none => return none
  | some counter => return streamChunks cipher key mode counter (Bytes.chunks 16 ciphertext) []

/-- `from_slice`, which panics on a wrong length. -/
def fromSlice (n : Nat) (xs : Bytes) : Run (Block n) :=
  if h : xs.length = n then .ok ⟨xs, h⟩ else crash .sliceLength

/-- `new_from_slice(key).ok()?.decrypt_in_place_detached(..).ok()?` -/
def AeadCrate.decryptWith {keyLen nonceLen : Nat} (A : AeadCrate keyLen nonceLen) (key : Bytes)
    (nonce : Block nonceLen) (aad buffer : Bytes) (tag : Block 16) : Option Bytes :=
  if h : key.length = keyLen then A.decryptInPlaceDetached ⟨key, h⟩ nonce aad buffer tag else none

def decryptGcmTagged (crates : Crates) (key nonce ciphertext tag aad : Bytes) :
    Run (Option Bytes) := do
  let nonce ← fromSlice 12 nonce
  let tag ← fromSlice 16 tag
  match key.length with
  | 16 => return crates.aes128Gcm.decryptWith key nonce aad ciphertext tag
  | 24 => return crates.aes192Gcm.decryptWith key nonce aad ciphertext tag
  | 32 => return crates.aes256Gcm.decryptWith key nonce aad ciphertext tag
  | _ => return none

def decryptPoly1305Tagged (crates : Crates) (algo : String)
    (key nonce ciphertext tag aad : Bytes) : Run (Option Bytes) :=
  if algo = "chacha20" then do
    let nonce ← fromSlice 12 nonce
    let tag ← fromSlice 16 tag
    return crates.chacha20Poly1305.decryptWith key nonce aad ciphertext tag
  else if algo = "xchacha20" then do
    let nonce ← fromSlice 24 nonce
    let tag ← fromSlice 16 tag
    return crates.xchacha20Poly1305.decryptWith key nonce aad ciphertext tag
  else return none

/-- The tag, in the mode that checks one. -/
def ScanConfig.gcmTag (config : ScanConfig) : Option Bytes :=
  if config.mode = .gcm then config.tag else none

def huntStreamWindow (crates : Crates) (ciphertext : Bytes) (block : Nat) (cipher : BlockCipher)
    (oracles : List Oracle) (config : ScanConfig) (algo : String) (mode : Mode)
    (key : Bytes) (offset : Nat) : Run (Option Hit) := do
  let nonce := config.nonce.getD []
  let verifyLen := min (verifyBlocks * block) ciphertext.length
  let aad := config.aad.getD []
  match config.gcmTag with
  | some tag =>
      match ← decryptGcmTagged crates key nonce ciphertext tag aad with
      | none => return none
      | some plaintext =>
          return some (finalizeStreamHit algo mode key offset nonce plaintext "gcm-tag" .high)
  | none =>
      let start ← sliceTo ciphertext verifyLen
      match ← streamDecrypt cipher key start nonce config.mode with
      | none => return none
      | some head =>
          match bestMatch oracles head with
          | none => return none
          | some (name, confidence) =>
              match ← streamDecrypt cipher key ciphertext nonce config.mode with
              | none => return none
              | some plaintext =>
                  return some
                    (finalizeStreamHit algo mode key offset nonce plaintext name confidence)

def huntStream (crates : Crates) (dump ciphertext : Bytes) (block : Nat) (cipher : BlockCipher)
    (oracles : List Oracle) (config : ScanConfig) (algo : String) (stop : Bool) :
    Run (List Hit × Nat) :=
  match config.mode with
  | .ctr =>
      Windows.visit stop cipher.keyLen dump
        (huntStreamWindow crates ciphertext block cipher oracles config algo .ctr)
  | .gcm =>
      Windows.visit stop cipher.keyLen dump
        (huntStreamWindow crates ciphertext block cipher oracles config algo .gcm)
  | .block => return ([], 0)

def huntStreamCipherWindow (crates : Crates) (ciphertext : Bytes) (adapter : StreamCipherAdapter)
    (oracles : List Oracle) (config : ScanConfig) (algo : String) (key : Bytes) (offset : Nat) :
    Run (Option Hit) := do
  let nonce := config.nonce.getD []
  let verifyLen := min (verifyBlocks * 16) ciphertext.length
  let aad := config.aad.getD []
  match config.tag with
  | some tag =>
      match ← decryptPoly1305Tagged crates algo key nonce ciphertext tag aad with
      | none => return none
      | some plaintext =>
          return some
            (finalizeStreamHit algo .stream key offset nonce plaintext "poly1305-tag" .high)
  | none =>
      let head ← sliceTo ciphertext verifyLen
      match ← adapter.xorKeystream key nonce head with
      | (false, _) => return none
      | (true, head) =>
          match bestMatch oracles head with
          | none => return none
          | some (name, confidence) =>
              match ← adapter.xorKeystream key nonce ciphertext with
              | (false, _) => return none
              | (true, plaintext) =>
                  return some
                    (finalizeStreamHit algo .stream key offset nonce plaintext name confidence)

def huntStreamCipher (crates : Crates) (dump ciphertext : Bytes) (adapter : StreamCipherAdapter)
    (oracles : List Oracle) (config : ScanConfig) (algo : String) (stop : Bool) :
    Run (List Hit × Nat) :=
  Windows.visit stop adapter.keyLen dump
    (huntStreamCipherWindow crates ciphertext adapter oracles config algo)

/-- Counter block `i` of a message: the nonce plus `i` for CTR, the nonce and a 32-bit counter
starting at 2 for GCM. Both wrap around. -/
def counterBlock (nonce : Bytes) (mode : CipherMode) (i : Nat) : Bytes :=
  match mode with
  | .ctr => Bytes.toBE 16 ((Bytes.fromBE nonce + i) % 2 ^ 128)
  | .gcm => nonce ++ Bytes.toBE 4 ((2 + i) % 2 ^ 32)
  | .block => []

def keystream (cipher : BlockCipher) (key nonce : Bytes) (mode : CipherMode) : Nat → UInt8 :=
  Modes.blockStream 16 fun i => (cipher.encryptWithKey key (counterBlock nonce mode i)).2

def NonceFits (nonce : Bytes) (mode : CipherMode) : Prop :=
  (mode = .ctr ∧ nonce.length = 16) ∨ (mode = .gcm ∧ nonce.length = 12)

theorem length_counterBlock {nonce : Bytes} {mode : CipherMode} (h : NonceFits nonce mode)
    (i : Nat) : (counterBlock nonce mode i).length = 16 := by
  rcases h with ⟨rfl, hlen⟩ | ⟨rfl, hlen⟩ <;> simp [counterBlock, hlen]

theorem initialCounter_ok {nonce : Bytes} {mode : CipherMode} (h : NonceFits nonce mode) :
    initialCounter nonce mode =
      .ok (some ⟨counterBlock nonce mode 0, length_counterBlock h 0⟩) := by
  rcases h with ⟨rfl, hlen⟩ | ⟨rfl, hlen⟩
  · have hback : Bytes.toBE 16 ((Bytes.fromBE nonce + 0) % 2 ^ 128) = nonce := by
      have hmod := Bytes.toBE_mod 16 (Bytes.fromBE nonce)
      rw [show 256 ^ 16 = 2 ^ 128 by decide] at hmod
      rw [Nat.add_zero, hmod, Bytes.toBE_fromBE hlen]
    simp only [initialCounter, hlen, dif_pos, counterBlock, hback]
  · have htake : (nonce ++ [0, 0, 0, 1]).take 12 = nonce := List.take_left' hlen
    have hdrop : (nonce ++ [(0 : UInt8), 0, 0, 1]).drop 12 = [0, 0, 0, 1] := List.drop_left' hlen
    have hone : Bytes.fromBE [0, 0, 0, 1] = 1 := rfl
    have hj0 : gcmJ0 nonce = .ok ⟨nonce ++ [0, 0, 0, 1], by simp [hlen]⟩ := dif_pos hlen
    have hfirst : initialCounter nonce .gcm =
        .ok (some (incrementCounter32 ⟨nonce ++ [0, 0, 0, 1], by simp [hlen]⟩)) := by
      simp only [initialCounter, hj0]
      rfl
    rw [hfirst]
    simp only [incrementCounter32, htake, hdrop, hone, counterBlock]

theorem nextCounter_ok {nonce : Bytes} {mode : CipherMode} (h : NonceFits nonce mode) (i : Nat) :
    nextCounter mode ⟨counterBlock nonce mode i, length_counterBlock h i⟩ =
      some ⟨counterBlock nonce mode (i + 1), length_counterBlock h (i + 1)⟩ := by
  rcases h with ⟨rfl, hlen⟩ | ⟨rfl, hlen⟩
  · have hstep : (Bytes.fromBE (Bytes.toBE 16 ((Bytes.fromBE nonce + i) % 2 ^ 128)) + 1) % 2 ^ 128 =
        (Bytes.fromBE nonce + (i + 1)) % 2 ^ 128 := by
      rw [Bytes.fromBE_toBE]
      omega
    simp only [nextCounter, incrementCounter, counterBlock, hstep]
  · have hstep : (Bytes.fromBE (Bytes.toBE 4 ((2 + i) % 2 ^ 32)) + 1) % 2 ^ 32 =
        (2 + (i + 1)) % 2 ^ 32 := by
      rw [Bytes.fromBE_toBE]
      omega
    simp only [nextCounter, incrementCounter32, counterBlock, List.take_left' hlen,
      List.drop_left' hlen, hstep]

theorem streamChunks_cons {cipher : BlockCipher} {key : Bytes} {mode : CipherMode}
    {counter next : Block 16} {ks : Bytes} (hks : cipher.encryptWithKey key counter.val = (true, ks))
    (hnext : nextCounter mode counter = some next) (chunk : Bytes) (rest : List Bytes)
    (plaintext : Bytes) :
    streamChunks cipher key mode counter (chunk :: rest) plaintext =
      streamChunks cipher key mode next rest (plaintext ++ Bytes.xor chunk ks) := by
  simp only [streamChunks, hks, hnext]

/-- What is asked of a cipher and one key of it here: every block of 16 bytes is encrypted. -/
def BlockCipher.AcceptsKey (cipher : BlockCipher) (key : Bytes) : Prop :=
  ∀ b : Bytes, b.length = 16 →
    (cipher.encryptWithKey key b).1 = true ∧ (cipher.encryptWithKey key b).2.length = 16

theorem BlockCipher.Lawful.acceptsKey {cipher : BlockCipher} (hc : cipher.Lawful)
    (hblock : cipher.blockLen = 16) {key : Bytes} (hkey : key.length = cipher.keyLen) :
    cipher.AcceptsKey key := by
  intro b hb
  have hencrypts := hc.encrypts hkey (hb.trans hblock.symm)
  rwa [hblock] at hencrypts

section Decrypt
variable {cipher : BlockCipher} {key nonce : Bytes} {mode : CipherMode}
  (hkey : cipher.AcceptsKey key) (hnonce : NonceFits nonce mode)

include hkey hnonce

/-- Invariant of the chunk loop: what is decrypted so far, and the counter block of the chunk. -/
theorem streamChunks_ok (chunks : List Bytes) (i : Nat) (plaintext : Bytes) :
    streamChunks cipher key mode ⟨counterBlock nonce mode i, length_counterBlock hnonce i⟩ chunks
        plaintext =
      some (plaintext ++ Modes.counterChain
        (fun j => (cipher.encryptWithKey key (counterBlock nonce mode j)).2) (· + 1) (· ^^^ ·) i
        chunks) := by
  induction chunks generalizing i plaintext with
  | nil => simp only [streamChunks, Modes.counterChain, List.append_nil]
  | cons chunk chunks ih =>
      have hflag : cipher.encryptWithKey key (counterBlock nonce mode i) =
          (true, (cipher.encryptWithKey key (counterBlock nonce mode i)).2) :=
        Prod.ext (hkey _ (length_counterBlock hnonce i)).1 rfl
      rw [streamChunks_cons hflag (nextCounter_ok hnonce i), ih, Modes.counterChain,
        List.append_assoc]
      rfl

theorem streamDecrypt_eq (ciphertext : Bytes) :
    streamDecrypt cipher key ciphertext nonce mode =
      .ok (some (Modes.counterMode (keystream cipher key nonce mode) (· ^^^ ·) ciphertext)) := by
  have hsteps : ∀ i, (· + 1)^[i] 0 = i := fun i =>
    (Nat.succ_iterate 0 i).trans (Nat.zero_add i)
  have hloop := streamChunks_ok hkey hnonce (Bytes.chunks 16 ciphertext) 0 []
  rw [Modes.counterChain_chunks (Nat.succ_pos 15) _
    (fun i => (hkey _ (length_counterBlock hnonce _)).2), List.nil_append] at hloop
  simp only [hsteps] at hloop
  simp only [streamDecrypt, initialCounter_ok hnonce, ok_bind, pure_eq, hloop, keystream]

end Decrypt

theorem streamDecrypt_ok {cipher : BlockCipher} (hc : cipher.Lawful)
    (hblock : cipher.blockLen = 16) {key nonce : Bytes} (hkey : key.length = cipher.keyLen)
    {mode : CipherMode} (hnonce : NonceFits nonce mode) (ciphertext : Bytes) :
    streamDecrypt cipher key ciphertext nonce mode =
      .ok (some (Modes.counterMode (keystream cipher key nonce mode) (· ^^^ ·) ciphertext)) :=
  streamDecrypt_eq (hc.acceptsKey hblock hkey) hnonce ciphertext

end Memhunt
