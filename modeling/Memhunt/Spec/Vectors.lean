import Memhunt.Engine.Config
import Memhunt.Engine.Finalize

/-! Crates given by known answers: permutations of the blocks that agree with a real cipher under
one key on the listed pairs, and are lawful everywhere. -/
namespace Memhunt

/-- Exchange plaintext and ciphertext of each pair. -/
def answersPerm {n : Nat} (pairs : List (Block n × Block n)) : Equiv.Perm (Block n) :=
  (pairs.map fun pc => Equiv.swap pc.1 pc.2).foldr (fun f g => f.trans g) (Equiv.refl (Block n))

def KeyedCipher.ofAnswers {n : Nat} (pairs : List (Block n × Block n)) : KeyedCipher n where
  encryptBlock := answersPerm pairs
  decryptBlock := (answersPerm pairs).symm
  decrypt_encrypt b := (answersPerm pairs).symm_apply_apply b

def CipherCrate.ofAnswers {keyLen n : Nat} (pairs : List (Block n × Block n)) :
    CipherCrate keyLen n where
  new _ := .ofAnswers pairs

/-- The number of keystream bytes behind a 32-bit block counter. -/
def chachaLimit : Nat := 64 * (2 ^ 32 - 1)

/-- Crates whose AES-128 gives the listed answers; the other ciphers are not keyed. -/
def Crates.ofAnswers (pairs : List (Block 16 × Block 16)) : Crates where
  aes128 := .ofAnswers pairs
  aes192 := .ofAnswers []
  aes256 := .ofAnswers []
  des := .ofAnswers []
  tdesEde3 := .ofAnswers []
  sm4 := .ofAnswers []
  chacha20 := { keystream := fun _ _ _ => 0, limit := chachaLimit }
  xchacha20 := { keystream := fun _ _ _ => 0, limit := chachaLimit }
  aes128Gcm := { decryptInPlaceDetached := fun _ _ _ _ _ => none }
  aes192Gcm := { decryptInPlaceDetached := fun _ _ _ _ _ => none }
  aes256Gcm := { decryptInPlaceDetached := fun _ _ _ _ _ => none }
  chacha20Poly1305 := { decryptInPlaceDetached := fun _ _ _ _ _ => none }
  xchacha20Poly1305 := { decryptInPlaceDetached := fun _ _ _ _ _ => none }

def ascii (text : String) : Bytes := text.toList.map fun c => UInt8.ofNat c.toNat

/-- A published AES-128 key. -/
def sampleKey : Bytes :=
  [0x2b, 0x7e, 0x15, 0x16, 0x28, 0xae, 0xd2, 0xa6, 0xab, 0xf7, 0x15, 0x88, 0x09, 0xcf, 0x4f, 0x3c]

def samplePlaintext : Bytes := ascii "\x7b\"user\":\"admin\"\x7d"

def sampleCiphertext : Bytes :=
  [0x96, 0x95, 0x49, 0x85, 0xd2, 0xce, 0xf8, 0x80, 0x6f, 0x38, 0x1d, 0x31, 0xe6, 0x75, 0x55, 0xb4]

def sampleCrates : Crates :=
  .ofAnswers [(⟨samplePlaintext, by decide⟩, ⟨sampleCiphertext, by decide⟩)]

/-- AES-128 alone, in block mode, without limit or IV. -/
def sampleConfig : ScanConfig := { (default : ScanConfig) with ciphers := [.aes128] }

def sampleHit : Hit :=
  blockHit "aes-128" .ecb sampleKey 0 none none [] samplePlaintext "json" .high

def sampleResult : ScanResult :=
  { hits := [sampleHit], stats := { dumpSize := 16, candidatesTried := 1 } }

def sampleBlocks : List Bytes :=
  [ascii "\x7b\"user\":\"admin\",", ascii "\"role\":\"admin\" \x7d"]

def zeroIv : Bytes := List.replicate 16 0

def countingIv : Bytes := (List.range 16).map UInt8.ofNat

/-- AES-128 on the inputs of the CBC encryption of the two blocks, under each of the two IVs. -/
def cbcCrates : Crates :=
  .ofAnswers [
    (⟨[0x7b, 0x22, 0x75, 0x73, 0x65, 0x72, 0x22, 0x3a, 0x22, 0x61, 0x64, 0x6d, 0x69, 0x6e, 0x22,
        0x2c], by decide⟩,
      ⟨[0x26, 0xbb, 0xea, 0xe1, 0x79, 0xc4, 0x8e, 0x36, 0xd1, 0x7c, 0x2d, 0x57, 0x73, 0x3d, 0x1b,
        0x4a], by decide⟩),
    (⟨[0x04, 0xc9, 0x85, 0x8d, 0x1c, 0xe6, 0xb4, 0x14, 0xb0, 0x18, 0x40, 0x3e, 0x1d, 0x1f, 0x3b,
        0x37], by decide⟩,
      ⟨[0xe3, 0xd9, 0xe1, 0x2a, 0x4c, 0x5d, 0x93, 0x73, 0xce, 0xab, 0x0d, 0xa4, 0xbb, 0x3f, 0xa0,
        0x9d], by decide⟩),
    (⟨[0x7b, 0x23, 0x77, 0x70, 0x61, 0x77, 0x24, 0x3d, 0x2a, 0x68, 0x6e, 0x66, 0x65, 0x63, 0x2c,
        0x23], by decide⟩,
      ⟨[0xd7, 0xe6, 0x99, 0x27, 0x0d, 0xb6, 0xe0, 0x1b, 0x97, 0xd8, 0xce, 0xba, 0xe4, 0x1a, 0x0c,
        0xb5], by decide⟩),
    (⟨[0xf5, 0x94, 0xf6, 0x4b, 0x68, 0x94, 0xda, 0x39, 0xf6, 0xbc, 0xa3, 0xd3, 0x8a, 0x38, 0x2c,
        0xc8], by decide⟩,
      ⟨[0x8e, 0x66, 0xa3, 0x50, 0xfa, 0x10, 0x81, 0x07, 0x3a, 0x7a, 0xbf, 0xce, 0xc3, 0x59, 0xe8,
        0x00], by decide⟩)]

def shortMessage : Bytes := ascii "hello world"

def tabbedMessage : Bytes := ascii "goodbye"

def paddedCrates : Crates :=
  .ofAnswers [
    (⟨shortMessage ++ List.replicate 5 5, by decide⟩,
      ⟨[0x0a, 0xf4, 0x34, 0x83, 0x58, 0x7b, 0x14, 0x03, 0x97, 0x39, 0xff, 0x1b, 0x1d, 0xd3, 0x6c,
        0xf4], by decide⟩),
    (⟨tabbedMessage ++ List.replicate 9 9, by decide⟩,
      ⟨[0x9f, 0xad, 0xee, 0xb0, 0x27, 0xda, 0x1d, 0xbd, 0xb9, 0x1a, 0xff, 0xfb, 0x49, 0x5a, 0x40,
        0xca], by decide⟩)]

/-- An initial counter block whose last byte wraps around. -/
def sampleCounter : Bytes := (List.range 16).map fun i => UInt8.ofNat (0xf0 + i)

def counterCrates : Crates :=
  .ofAnswers [
    (⟨sampleCounter, by decide⟩,
      ⟨[0xec, 0x8c, 0xdf, 0x73, 0x98, 0x60, 0x7c, 0xb0, 0xf2, 0xd2, 0x16, 0x75, 0xea, 0x9e, 0xa1,
        0xe4], by decide⟩),
    (⟨sampleCounter.take 14 ++ [0xff, 0x00], by decide⟩,
      ⟨[0x36, 0x2b, 0x7c, 0x3c, 0x67, 0x73, 0x51, 0x63, 0x18, 0xa0, 0x77, 0xd7, 0xfc, 0x50, 0x73,
        0xae], by decide⟩),
    (⟨sampleCounter.take 14 ++ [0xff, 0x01], by decide⟩,
      ⟨[0x6a, 0x2c, 0xc3, 0x78, 0x78, 0x89, 0x37, 0x4f, 0xbe, 0xb4, 0xc8, 0x1b, 0x17, 0xba, 0x6c,
        0x44], by decide⟩)]

/-- An AEAD that opens one sealed message and nothing else. -/
def AeadCrate.ofSealed {keyLen nonceLen : Nat} (key nonce ciphertext tag plaintext : Bytes) :
    AeadCrate keyLen nonceLen where
  decryptInPlaceDetached k n aad buffer t :=
    if k.val = key ∧ n.val = nonce ∧ aad = [] ∧ buffer = ciphertext ∧ t.val = tag then
      some plaintext
    else none

def sealedKey : Bytes := (List.range 32).map UInt8.ofNat

def sealedNonce : Bytes := List.replicate 12 0

def sealedCiphertext : Bytes :=
  [0x63, 0x9a, 0x37, 0x42, 0xc8, 0x94, 0x84, 0xeb, 0x31, 0x00, 0x38, 0x0c, 0xc6, 0x2d, 0x6c, 0x5a]

def sealedTag : Bytes :=
  [0xb7, 0x60, 0xf3, 0x08, 0xeb, 0x5f, 0x28, 0xef, 0x2e, 0x90, 0xd1, 0x1a, 0x44, 0xfc, 0x16, 0x7c]

/-- ChaCha20-Poly1305 on the sealed message. -/
def sealedCrates : Crates :=
  { Crates.ofAnswers [] with
    chacha20Poly1305 := .ofSealed sealedKey sealedNonce sealedCiphertext sealedTag samplePlaintext }

end Memhunt
