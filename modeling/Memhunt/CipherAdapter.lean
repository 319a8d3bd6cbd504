import Memhunt.Lib.Modes
import Memhunt.Lib.Bytes

/-! The cipher crates, as parameters, and the adapters through which the engine uses them.

A crate value carries what its documentation promises: keys and blocks have fixed lengths by
type, and decryption inverts encryption. Nothing else is known about any cipher. -/
namespace Memhunt
open Rust

structure KeyedCipher (blockLen : Nat) where
  encryptBlock : Block blockLen → Block blockLen
  decryptBlock : Block blockLen → Block blockLen
  decrypt_encrypt : ∀ b, decryptBlock (encryptBlock b) = b

structure CipherCrate (keyLen blockLen : Nat) where
  new : Block keyLen → KeyedCipher blockLen

/-- `KeyInit::new_from_slice(key).ok()`: keys of the wrong length are rejected. -/
def CipherCrate.newFromSlice {keyLen blockLen : Nat} (C : CipherCrate keyLen blockLen)
    (key : Bytes) : Option (KeyedCipher blockLen) :=
  if h : key.length = keyLen then some (C.new ⟨key, h⟩) else none

/-- A stream cipher crate: the keystream of a key and nonce, and how much of it there is. -/
structure StreamCrate (keyLen nonceLen : Nat) where
  keystream : Block keyLen → Block nonceLen → Nat → UInt8
  limit : Nat

/-- An AEAD crate: the plaintext, when the tag verifies. -/
structure AeadCrate (keyLen nonceLen : Nat) where
  decryptInPlaceDetached : Block keyLen → Block nonceLen → (aad buffer : Bytes) → Block 16 →
    Option Bytes

structure Crates where
  aes128 : CipherCrate 16 16
  aes192 : CipherCrate 24 16
  aes256 : CipherCrate 32 16
  des : CipherCrate 8 8
  tdesEde3 : CipherCrate 24 8
  sm4 : CipherCrate 16 16
  chacha20 : StreamCrate 32 12
  xchacha20 : StreamCrate 32 24
  aes128Gcm : AeadCrate 16 12
  aes192Gcm : AeadCrate 24 12
  aes256Gcm : AeadCrate 32 12
  chacha20Poly1305 : AeadCrate 32 12
  xchacha20Poly1305 : AeadCrate 32 24

/-- The trait object of the engine. The in-place calls return their flag and the block as left. -/
structure BlockCipher where
  algo : String
  keyLen : Nat
  blockLen : Nat
  decryptWithKey : (key block : Bytes) → Bool × Bytes
  encryptWithKey : (key block : Bytes) → Bool × Bytes

/-- `block.get_mut(..n)`: the first `n` bytes, if there are so many. -/
def getMut (n : Nat) (block : Bytes) : Option (Block n) :=
  if h : (block.take n).length = n then some ⟨block.take n, h⟩ else none

/-- Re-key and transform the first block of the buffer in place. A rejected key or a short buffer
gives `false` and leaves the buffer alone. -/
def CipherCrate.inPlace {keyLen blockLen : Nat} (C : CipherCrate keyLen blockLen)
    (f : KeyedCipher blockLen → Block blockLen → Block blockLen) (key block : Bytes) :
    Bool × Bytes :=
  match C.newFromSlice key with
  | none => (false, block)
  | some cipher =>
      match getMut blockLen block with
      | none => (false, block)
      | some b => (true, (f cipher b).val ++ block.drop blockLen)

def aesAdapter {keyLen : Nat} (C : CipherCrate keyLen 16) (algo : String) : BlockCipher where
  algo := algo
  keyLen := keyLen
  blockLen := 16
  decryptWithKey := C.inPlace KeyedCipher.decryptBlock
  encryptWithKey := C.inPlace KeyedCipher.encryptBlock

/-- Cipher 0.5 family: the array view of the block has the crate's own block length. -/
def cipher05Adapter {keyLen blockLen : Nat} (C : CipherCrate keyLen blockLen) (algo : String) :
    BlockCipher where
  algo := algo
  keyLen := keyLen
  blockLen := blockLen
  decryptWithKey := C.inPlace KeyedCipher.decryptBlock
  encryptWithKey := C.inPlace KeyedCipher.encryptBlock

def aes128 (crates : Crates) : BlockCipher := aesAdapter crates.aes128 "aes-128"
def aes192 (crates : Crates) : BlockCipher := aesAdapter crates.aes192 "aes-192"
def aes256 (crates : Crates) : BlockCipher := aesAdapter crates.aes256 "aes-256"
def des (crates : Crates) : BlockCipher := cipher05Adapter crates.des "des"
def tdesEde3 (crates : Crates) : BlockCipher := cipher05Adapter crates.tdesEde3 "3des-ede3"
def sm4 (crates : Crates) : BlockCipher := cipher05Adapter crates.sm4 "sm4"

/-- The stream cipher trait object; the keystream may run out, which panics. -/
structure StreamCipherAdapter where
  algo : String
  keyLen : Nat
  nonceLen : Nat
  xorKeystream : (key nonce data : Bytes) → Run (Bool × Bytes)

def StreamCrate.applyKeystream {keyLen nonceLen : Nat} (C : StreamCrate keyLen nonceLen)
    (key : Block keyLen) (nonce : Block nonceLen) (data : Bytes) : Run Bytes :=
  if data.length ≤ C.limit then .ok (Modes.counterMode (C.keystream key nonce) (· ^^^ ·) data)
  else crash .streamExhausted

/-- The body of `xor_keystream` for one crate: both slices must have the crate's lengths. -/
def StreamCrate.xorKeystream {keyLen nonceLen : Nat} (C : StreamCrate keyLen nonceLen)
    (key nonce data : Bytes) : Run (Bool × Bytes) :=
  if hk : key.length = keyLen then
    if hn : nonce.length = nonceLen then do
      let data ← C.applyKeystream ⟨key, hk⟩ ⟨nonce, hn⟩ data
      return (true, data)
    else return (false, data)
  else return (false, data)

def chacha20 (crates : Crates) : StreamCipherAdapter where
  algo := "chacha20"
  keyLen := 32
  nonceLen := 12
  xorKeystream := crates.chacha20.xorKeystream

def xchacha20 (crates : Crates) : StreamCipherAdapter where
  algo := "xchacha20"
  keyLen := 32
  nonceLen := 24
  xorKeystream := crates.xchacha20.xorKeystream

/-- What the engine relies on: on keys and blocks of the announced lengths both directions
succeed, keep the length, and decryption inverts encryption. -/
structure BlockCipher.Lawful (c : BlockCipher) : Prop where
  keyPos : 0 < c.keyLen
  blockPos : 0 < c.blockLen
  decrypts : ∀ {k b}, k.length = c.keyLen → b.length = c.blockLen →
    (c.decryptWithKey k b).1 = true ∧ (c.decryptWithKey k b).2.length = c.blockLen
  encrypts : ∀ {k b}, k.length = c.keyLen → b.length = c.blockLen →
    (c.encryptWithKey k b).1 = true ∧ (c.encryptWithKey k b).2.length = c.blockLen
  decrypt_encrypt : ∀ {k b}, k.length = c.keyLen → b.length = c.blockLen →
    (c.decryptWithKey k (c.encryptWithKey k b).2).2 = b

def StreamCrate.bytes {keyLen nonceLen : Nat} (C : StreamCrate keyLen nonceLen)
    (key nonce : Bytes) (t : Nat) : UInt8 :=
  if hk : key.length = keyLen then
    if hn : nonce.length = nonceLen then C.keystream ⟨key, hk⟩ ⟨nonce, hn⟩ t else 0
  else 0

theorem StreamCrate.xorKeystream_eq {keyLen nonceLen : Nat} (C : StreamCrate keyLen nonceLen)
    {key nonce : Bytes} (hk : key.length = keyLen) (hn : nonce.length = nonceLen) (data : Bytes) :
    C.xorKeystream key nonce data =
      if data.length ≤ C.limit then
        .ok (true, Modes.counterMode (C.bytes key nonce) (· ^^^ ·) data)
      else crash .streamExhausted := by
  have hbytes : C.bytes key nonce = C.keystream ⟨key, hk⟩ ⟨nonce, hn⟩ := by
    funext t
    simp only [StreamCrate.bytes, dif_pos hk, dif_pos hn]
  simp only [StreamCrate.xorKeystream, dif_pos hk, dif_pos hn, StreamCrate.applyKeystream, hbytes]
  split
  · rfl
  · rfl

theorem getMut_of_length {n : Nat} {block : Bytes} (h : block.length = n) :
    getMut n block = some ⟨block, h⟩ := by
  have htake : block.take n = block := List.take_of_length_le (by omega)
  unfold getMut
  rw [dif_pos (by rw [htake]; exact h)]
  exact congrArg some (Block.ext htake)

theorem CipherCrate.newFromSlice_of_length {keyLen blockLen : Nat}
    (C : CipherCrate keyLen blockLen) {key : Bytes} (h : key.length = keyLen) :
    C.newFromSlice key = some (C.new ⟨key, h⟩) := dif_pos h

theorem CipherCrate.inPlace_of_length {keyLen blockLen : Nat} (C : CipherCrate keyLen blockLen)
    (f : KeyedCipher blockLen → Block blockLen → Block blockLen) {k b : Bytes}
    (hk : k.length = keyLen) (hb : b.length = blockLen) :
    C.inPlace f k b = (true, (f (C.new ⟨k, hk⟩) ⟨b, hb⟩).val) := by
  simp only [CipherCrate.inPlace, C.newFromSlice_of_length hk, getMut_of_length hb,
    List.drop_of_length_le (show b.length ≤ blockLen by omega), List.append_nil]

theorem cipher05Adapter_lawful {keyLen blockLen : Nat} (C : CipherCrate keyLen blockLen)
    (algo : String) (hk : 0 < keyLen) (hb : 0 < blockLen) : (cipher05Adapter C algo).Lawful where
  keyPos := hk
  blockPos := hb
  decrypts hk hb := by
    simp only [cipher05Adapter, C.inPlace_of_length _ hk hb, Block.length_val, and_self]
  encrypts hk hb := by
    simp only [cipher05Adapter, C.inPlace_of_length _ hk hb, Block.length_val, and_self]
  decrypt_encrypt hk hb := by
    simp only [cipher05Adapter, C.inPlace_of_length _ hk hb,
      C.inPlace_of_length _ hk (Block.length_val _)]
    exact congrArg Block.val (KeyedCipher.decrypt_encrypt _ ⟨_, hb⟩)

theorem aesAdapter_lawful {keyLen : Nat} (C : CipherCrate keyLen 16) (algo : String)
    (hk : 0 < keyLen) : (aesAdapter C algo).Lawful := cipher05Adapter_lawful C algo hk (by omega)

end Memhunt
