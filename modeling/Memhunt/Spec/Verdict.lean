import Memhunt.Spec.Block
import Memhunt.Spec.Stream

/-! Which requests are admitted, and the verdict on a window under any listed cipher. -/
namespace Memhunt
open Rust

/-- The request passes the checks made before any cipher is looked at. -/
def Admitted (oracles : List Oracle) (config : ScanConfig) : Prop :=
  validateConfig config = .ok () ∧ ¬ ((config.mode ≠ .gcm ∨ config.tag = none) ∧ oracles = [])

/-- Ciphertext and fixed IV have lengths the cipher can use. -/
def Fits (ciphertext : Bytes) (config : ScanConfig) (c : CipherChoice) : Prop :=
  ciphertext ≠ [] ∧ (c.isStreamCipher = false → config.mode = .block →
    c.blockLen ∣ ciphertext.length ∧ ∀ iv ∈ config.fixedIv, iv.length = c.blockLen)

/-- The loop looks at the cipher at all. -/
def Reaches (dump : Bytes) (c : CipherChoice) : Prop :=
  c.isStreamCipher = true ∨ c.keyLen ≤ dump.length

instance (ciphertext : Bytes) (config : ScanConfig) (c : CipherChoice) :
    Decidable (Fits ciphertext config c) :=
  inferInstanceAs (Decidable (ciphertext ≠ [] ∧ (c.isStreamCipher = false →
    config.mode = .block →
    c.blockLen ∣ ciphertext.length ∧ ∀ iv ∈ config.fixedIv, iv.length = c.blockLen)))

instance (dump : Bytes) (c : CipherChoice) : Decidable (Reaches dump c) :=
  inferInstanceAs (Decidable (c.isStreamCipher = true ∨ c.keyLen ≤ dump.length))

def BlockRequest.of (block : Nat) (ciphertext : Bytes) (fixedIv : Option Bytes) :
    Option (BlockRequest block) :=
  if h : 0 < block ∧ ciphertext ≠ [] ∧ block ∣ ciphertext.length ∧
      ∀ iv ∈ fixedIv, iv.length = block then
    some (.ofCiphertext fixedIv h.1 h.2.1 h.2.2.1 h.2.2.2)
  else none

section Verdict
variable (crates : Crates) (dump ciphertext : Bytes) (oracles : List Oracle) (config : ScanConfig)

/-- The verdict on one window under one listed cipher. -/
def windowHit (c : CipherChoice) (w : Bytes × Nat) : Option Hit :=
  match c.adapter crates with
  | .error _ => streamWindow crates c ciphertext oracles config w
  | .ok cipher =>
      if config.mode = .block then
        (BlockRequest.of cipher.blockLen ciphertext config.fixedIv).bind fun R =>
          blockWindow R cipher dump oracles config c.label w
      else counterWindow crates cipher ciphertext oracles config c.label w

/-- Everything one listed cipher finds in the dump, by increasing offset. -/
def cipherHits (c : CipherChoice) : List Hit :=
  Windows.search (windowHit crates dump ciphertext oracles config c) c.keyLen dump

variable {crates dump ciphertext oracles config}

theorem BlockRequest.of_fits {c : CipherChoice} (hfits : Fits ciphertext config c)
    (hstream : c.isStreamCipher = false) (hmode : config.mode = .block) {block : Nat}
    (hblock : block = c.blockLen) (hpos : 0 < block) :
    ∃ R : BlockRequest block, BlockRequest.of block ciphertext config.fixedIv = some R ∧
      R.blocks = Bytes.chunksExact block ciphertext ∧ R.fixedIv = config.fixedIv := by
  subst hblock
  obtain ⟨hne, hrest⟩ := hfits
  obtain ⟨hdvd, hiv⟩ := hrest hstream hmode
  exact ⟨_, dif_pos ⟨hpos, hne, hdvd, hiv⟩, rfl, rfl⟩

theorem CipherChoice.adapter_of_stream (crates : Crates) {c : CipherChoice}
    (h : c.isStreamCipher = true) : c.adapter crates = crash .unreachableCode := by
  cases c <;> first | rfl | cases h

theorem windowHit_stream {c : CipherChoice} (h : c.isStreamCipher = true) :
    windowHit crates dump ciphertext oracles config c =
      streamWindow crates c ciphertext oracles config := by
  funext w
  rw [windowHit, CipherChoice.adapter_of_stream crates h]
  rfl

theorem windowHit_block {c : CipherChoice} {cipher : BlockCipher}
    (hadapter : c.adapter crates = .ok cipher) (hmode : config.mode = .block)
    {R : BlockRequest cipher.blockLen}
    (hR : BlockRequest.of cipher.blockLen ciphertext config.fixedIv = some R) :
    windowHit crates dump ciphertext oracles config c =
      blockWindow R cipher dump oracles config c.label := by
  funext w
  simp only [windowHit, hadapter, if_pos hmode, hR, Option.bind_some]

theorem windowHit_counter {c : CipherChoice} {cipher : BlockCipher}
    (hadapter : c.adapter crates = .ok cipher) (hmode : config.mode ≠ .block) :
    windowHit crates dump ciphertext oracles config c =
      counterWindow crates cipher ciphertext oracles config c.label := by
  funext w
  simp only [windowHit, hadapter, if_neg hmode]

theorem cipherHits_of_not_reaches {c : CipherChoice} (h : ¬ Reaches dump c) :
    cipherHits crates dump ciphertext oracles config c = [] := by
  have hshort : dump.length < c.keyLen := Nat.lt_of_not_le fun hle => h (.inr hle)
  have hzero : dump.length + 1 - c.keyLen = 0 := by omega
  rw [cipherHits, Windows.search, Windows.zipIdx_windows, hzero]
  rfl

structure Hit.FoundAt (h : Hit) (c : CipherChoice) (w : Bytes × Nat) : Prop where
  algo : h.algo = c.label
  key : h.keyHex = Hex.encode w.1
  offset : h.keyOffset = w.2

theorem foundAt_blockHit {c : CipherChoice} {mode : Mode} {w : Bytes × Nat} {ivHex : Option String}
    {ivOffset : Option Nat} {cands : List IvCandidate} {plaintext : Bytes} {name : String}
    {conf : Confidence} :
    (blockHit c.label mode w.1 w.2 ivHex ivOffset cands plaintext name conf).FoundAt c w :=
  ⟨rfl, rfl, rfl⟩

theorem foundAt_streamHit {c : CipherChoice} {mode : Mode} {w : Bytes × Nat}
    {nonce plaintext : Bytes} {name : String} {conf : Confidence} :
    (finalizeStreamHit c.label mode w.1 w.2 nonce plaintext name conf).FoundAt c w :=
  ⟨rfl, rfl, rfl⟩

theorem foundAt_blockWindow {c : CipherChoice} {block : Nat} {R : BlockRequest block}
    {cipher : BlockCipher} {w : Bytes × Nat} {h : Hit}
    (hw : blockWindow R cipher dump oracles config c.label w = some h) : h.FoundAt c w := by
  rw [blockWindow, Option.or_eq_some_iff] at hw
  rcases hw with hecb | ⟨_, hcbc⟩
  · obtain ⟨name, conf, _, rfl⟩ := judge_eq_some.mp hecb
    exact foundAt_blockHit
  · obtain ⟨head, _, hjudge⟩ := Option.bind_eq_some_iff.mp hcbc
    obtain ⟨name, conf, _, rfl⟩ := judge_eq_some.mp hjudge
    exact foundAt_blockHit

theorem foundAt_counterWindow {c : CipherChoice} {cipher : BlockCipher} {w : Bytes × Nat} {h : Hit}
    (hw : counterWindow crates cipher ciphertext oracles config c.label w = some h) :
    h.FoundAt c w := by
  unfold counterWindow at hw
  cases htag : config.gcmTag with
  | some tag =>
      simp only [htag] at hw
      obtain ⟨plaintext, _, rfl⟩ := Option.map_eq_some_iff.mp hw
      exact foundAt_streamHit
  | none =>
      simp only [htag] at hw
      obtain ⟨name, conf, _, rfl⟩ := judge_eq_some.mp hw
      exact foundAt_streamHit

theorem foundAt_streamWindow {c : CipherChoice} {w : Bytes × Nat} {h : Hit}
    (hw : streamWindow crates c ciphertext oracles config w = some h) : h.FoundAt c w := by
  unfold streamWindow at hw
  cases htag : config.tag with
  | some tag =>
      simp only [htag] at hw
      obtain ⟨plaintext, _, rfl⟩ := Option.map_eq_some_iff.mp hw
      exact foundAt_streamHit
  | none =>
      simp only [htag] at hw
      obtain ⟨name, conf, _, rfl⟩ := judge_eq_some.mp hw
      exact foundAt_streamHit

/-- Whatever the mode, a verdict names its cipher, its key and its offset. -/
theorem foundAt_windowHit {c : CipherChoice} {w : Bytes × Nat} {h : Hit}
    (hw : windowHit crates dump ciphertext oracles config c w = some h) : h.FoundAt c w := by
  unfold windowHit at hw
  split at hw
  · exact foundAt_streamWindow hw
  · split at hw
    · obtain ⟨R, _, hR⟩ := Option.bind_eq_some_iff.mp hw
      exact foundAt_blockWindow hR
    · exact foundAt_counterWindow hw

theorem cipherHits_increasing (c : CipherChoice) :
    ((cipherHits crates dump ciphertext oracles config c).map Hit.keyOffset).Pairwise (· < ·) :=
  Windows.search_increasing Hit.keyOffset
    (fun _ _ _ hw => (foundAt_windowHit hw).offset) c.keyLen dump

theorem algo_of_mem_cipherHits {c : CipherChoice} {h : Hit}
    (hmem : h ∈ cipherHits crates dump ciphertext oracles config c) : h.algo = c.label := by
  obtain ⟨o, _, ho⟩ := Windows.mem_search.mp hmem
  exact (foundAt_windowHit ho).algo

end Verdict
end Memhunt
