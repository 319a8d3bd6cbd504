import Memhunt.Engine.Config
import Memhunt.Lib.SortDedup
import Memhunt.Lib.Text

/-! Cipher lists as the command line and the server take them: parsing, and what an accepted list
says about its tokens. -/
namespace Memhunt
open Rust

structure CipherSelection where
  ciphers : List CipherChoice
  mode : CipherMode
  deriving DecidableEq, Repr

namespace CipherChoice

/-- The derived order: that of the declaration. -/
def rank : CipherChoice → Nat
  | aes128 => 0
  | aes192 => 1
  | aes256 => 2
  | des => 3
  | tdesEde3 => 4
  | sm4 => 5
  | chaCha20 => 6
  | xChaCha20 => 7

theorem rank_injective : Function.Injective rank := by
  intro a b h
  cases a <;> cases b <;> first | rfl | cases h

def all : List CipherChoice := [aes128, aes192, aes256, des, tdesEde3, sm4, chaCha20, xChaCha20]

/-- Split the mode suffix off a token. -/
def splitMode (lower : List Char) : List Char × CipherMode :=
  match Text.stripSuffix "-ctr".toList lower with
  | some token => (token, .ctr)
  | none =>
      match Text.stripSuffix "-gcm".toList lower with
      | some token => (token, .gcm)
      | none => (lower, .block)

def unknownCipher (other : String) : String :=
  "unknown cipher '" ++ other ++ "' (aes-128 | aes-192 | aes-256 | des | 3des | sm4 | chacha20 | " ++
    "xchacha20 | all | aes-<size>-ctr | aes-<size>-gcm)"

/-- The match on one token: the ciphers it adds, and the mode it sets, if it sets one. -/
def parseToken (token : String) (tokenMode : CipherMode) :
    Run (List CipherChoice × Option CipherMode) :=
  match token with
  | "aes-128" | "aes128" => .ok ([aes128], none)
  | "aes-192" | "aes192" => .ok ([aes192], none)
  | "aes-256" | "aes256" => .ok ([aes256], none)
  | "aes" => .ok ([aes128, aes192, aes256], none)
  | "chacha20" | "chacha" => .ok ([chaCha20], none)
  | "xchacha20" | "xchacha" => .ok ([xChaCha20], none)
  | "chacha20poly1305" | "chacha20-poly1305" => .ok ([chaCha20], some .gcm)
  | "xchacha20poly1305" | "xchacha20-poly1305" => .ok ([xChaCha20], some .gcm)
  | other =>
      if other = "des" ∧ tokenMode = .block then .ok ([des], none)
      else if (other = "3des" ∨ other = "3des-ede3" ∨ other = "tdes") ∧ tokenMode = .block then
        .ok ([tdesEde3], none)
      else if other = "sm4" ∧ tokenMode = .block then .ok ([sm4], none)
      else if other = "all" ∧ tokenMode = .block then .ok (all, none)
      else fail (unknownCipher other)

def checkMode (mode : Option CipherMode) (tokenMode : CipherMode) : Run CipherMode :=
  match mode with
  | some mode => if mode ≠ tokenMode then fail "cipher list cannot mix modes" else .ok mode
  | none => .ok tokenMode

/-- The loop over the tokens, with the ciphers and the mode so far. -/
def parseParts : List (List Char) → List CipherChoice → Option CipherMode →
    Run (List CipherChoice × Option CipherMode)
  | [], out, mode => .ok (out, mode)
  | part :: parts, out, mode => do
      let lower := Text.toAsciiLowercase part
      let (token, tokenMode) := splitMode lower
      let mode ← checkMode mode tokenMode
      let (found, set) ← parseToken (String.ofList token) tokenMode
      parseParts parts (out ++ found) (some (set.getD mode))

def tokenModeRequiresAes (mode : CipherMode) : Bool := mode != .block

/-- Parse a cipher list. Tokens may select CTR or GCM with a suffix. -/
def parseList (spec : String) : Run CipherSelection := do
  let (out, mode) ← parseParts (Text.words spec) [] none
  if out.isEmpty then fail "no cipher specified"
  else if tokenModeRequiresAes (mode.getD .block) && out.any (fun choice => !choice.isAes) then
    fail "CTR and GCM support AES keys only"
  else return { ciphers := SortDedup.sortDedup rank out, mode := mode.getD .block }

end CipherChoice

end Memhunt
