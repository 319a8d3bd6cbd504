import Memhunt.Spec.Scan
import Memhunt.Spec.Vectors

/-! A dump scanned piece by piece, where every window of the dump lies in some piece. -/
namespace Memhunt
open Rust
open Bytes (slice)

/-- The hit as it reads with `n` more bytes in front of the dump. -/
def Hit.shift (n : Nat) (h : Hit) : Hit :=
  { h with
    keyOffset := n + h.keyOffset
    ivOffset := h.ivOffset.map (n + ·)
    ivCandidates := h.ivCandidates.map fun c => { c with ivOffset := n + c.ivOffset } }

/-- What a hit says of its key, whatever IV goes with it. -/
structure KeyReport where
  algo : String
  mode : Mode
  keyHex : String
  keyOffset : Nat
  nonceHex : Option String
  matchedBy : String
  confidence : Confidence
  deriving DecidableEq, Repr

def Hit.keyReport (h : Hit) : KeyReport :=
  { algo := h.algo, mode := h.mode, keyHex := h.keyHex, keyOffset := h.keyOffset,
    nonceHex := h.nonceHex, matchedBy := h.matchedBy, confidence := h.confidence }

/-- A hit in a piece that starts at `n` and the hit in the dump. Only an IV that was searched for can
differ, with the plaintext it gives. -/
structure Hit.Moved (config : ScanConfig) (n : Nat) (inDump inPiece : Hit) : Prop where
  key : inDump.keyReport = (inPiece.shift n).keyReport
  whole : inPiece.mode ≠ .cbc ∨ config.fixedIv.isSome ∨ config.scanIv = false →
    inDump = inPiece.shift n

theorem Hit.Moved.of_eq {config : ScanConfig} {n : Nat} {h h' : Hit} (heq : h = h'.shift n) :
    h.Moved config n h' where
  key := congrArg Hit.keyReport heq
  whole _ := heq

section Window
variable {crates : Crates} {ciphertext : Bytes} {oracles : List Oracle} {config : ScanConfig}

theorem judge_rel {α β : Type} {R : α → β → Prop} (oracles : List Oracle) (head : Bytes)
    {f : String → Confidence → α} {g : String → Confidence → β} (h : ∀ name conf,
      R (f name conf) (g name conf)) : Option.Rel R (judge oracles head f) (judge oracles head g) := by
  unfold judge
  cases bestMatch oracles head with
  | none => exact .none
  | some m => exact .some (h m.1 m.2)

theorem fixedIv_of {block : Nat} {fixedIv : Option Bytes} {R : BlockRequest block}
    (h : BlockRequest.of block ciphertext fixedIv = some R) : R.fixedIv = fixedIv := by
  unfold BlockRequest.of at h
  split at h
  · cases h
    rfl
  · cases h

theorem block0_moved {block : Nat} (R : BlockRequest block) (D : Bytes → Bytes)
    (d₁ d₂ : Bytes) (h : R.fixedIv.isSome ∨ config.scanIv = false) :
    R.block0 D d₁ oracles config = R.block0 D d₂ oracles config ∧
      (R.block0 D d₂ oracles config).ivOffset = none ∧
      (R.block0 D d₂ oracles config).ivCandidates = [] := by
  unfold BlockRequest.block0
  cases hiv : R.fixedIv with
  | some iv => exact ⟨rfl, rfl, rfl⟩
  | none =>
      have hscan : config.scanIv = false := h.resolve_left (by simp [hiv])
      simp only [hscan, Bool.false_and, Bool.false_eq_true, if_false]
      exact ⟨trivial, rfl, rfl⟩

theorem cbcHit_moved {block : Nat} {R : BlockRequest block} (hR : R.fixedIv = config.fixedIv)
    (D : Bytes → Bytes) (d₁ d₂ : Bytes) (algo : String) (s : Bytes) (n o : Nat) (name : String)
    (conf : Confidence) :
    (R.cbcHit D d₁ oracles config algo (s, n + o) name conf).Moved config n
      (R.cbcHit D d₂ oracles config algo (s, o) name conf) where
  key := rfl
  whole := by
    rintro (hmode | hiv)
    · exact absurd rfl hmode
    · rw [← hR] at hiv
      obtain ⟨heq, hoffset, hcands⟩ := @block0_moved oracles config _ R D d₁ d₂ hiv
      simp only [BlockRequest.cbcHit, Hit.shift, blockHit, heq, hoffset, hcands, Option.map_none,
        List.map_nil]

theorem blockWindow_moved {block : Nat} {R : BlockRequest block} (hR : R.fixedIv = config.fixedIv)
    (cipher : BlockCipher) (d₁ d₂ : Bytes) (algo : String) (s : Bytes) (n o : Nat) :
    Option.Rel (Hit.Moved config n) (blockWindow R cipher d₁ oracles config algo (s, n + o))
      (blockWindow R cipher d₂ oracles config algo (s, o)) := by
  unfold blockWindow
  dsimp only
  have hecb := judge_rel oracles (R.ecbHead (cipher.decryption s))
    (R := Hit.Moved config n) fun name conf => @Hit.Moved.of_eq config n
      (blockHit algo .ecb s (n + o) none none [] (R.ecbPlain (cipher.decryption s)) name conf)
      (blockHit algo .ecb s o none none [] (R.ecbPlain (cipher.decryption s)) name conf) rfl
  generalize judge oracles (R.ecbHead (cipher.decryption s)) (blockHit algo .ecb s (n + o) _ _ _ _) =
    inDump at hecb ⊢
  generalize judge oracles (R.ecbHead (cipher.decryption s)) (blockHit algo .ecb s o _ _ _ _) =
    inPiece at hecb ⊢
  cases hecb with
  | some h => exact .some h
  | none =>
      cases R.cbcHead (cipher.decryption s) with
      | none => exact .none
      | some head => exact judge_rel oracles head fun name conf =>
          cbcHit_moved hR (cipher.decryption s) d₁ d₂ algo s n o name conf

theorem counterWindow_moved (cipher : BlockCipher) (algo : String) (s : Bytes) (n o : Nat) :
    Option.Rel (Hit.Moved config n)
      (counterWindow crates cipher ciphertext oracles config algo (s, n + o))
      (counterWindow crates cipher ciphertext oracles config algo (s, o)) := by
  unfold counterWindow
  cases config.gcmTag with
  | none => exact judge_rel oracles _ fun name conf => .of_eq rfl
  | some tag =>
      dsimp only
      cases answer (decryptGcmTagged crates s _ ciphertext tag _) with
      | none => exact .none
      | some plaintext => exact .some (.of_eq rfl)

theorem streamWindow_moved (c : CipherChoice) (s : Bytes) (n o : Nat) :
    Option.Rel (Hit.Moved config n) (streamWindow crates c ciphertext oracles config (s, n + o))
      (streamWindow crates c ciphertext oracles config (s, o)) := by
  unfold streamWindow
  cases config.tag with
  | none => exact judge_rel oracles _ fun name conf => .of_eq rfl
  | some tag =>
      dsimp only
      cases answer (decryptPoly1305Tagged crates c.label s _ ciphertext tag _) with
      | none => exact .none
      | some plaintext => exact .some (.of_eq rfl)

/-- A window is judged alike in every dump and at every offset. -/
theorem windowHit_moved (c : CipherChoice) (d₁ d₂ s : Bytes) (n o : Nat) :
    Option.Rel (Hit.Moved config n) (windowHit crates d₁ ciphertext oracles config c (s, n + o))
      (windowHit crates d₂ ciphertext oracles config c (s, o)) := by
  unfold windowHit
  cases c.adapter crates with
  | error e => exact streamWindow_moved c s n o
  | ok cipher =>
      dsimp only
      by_cases hmode : config.mode = .block
      · rw [if_pos hmode, if_pos hmode]
        cases hR : BlockRequest.of cipher.blockLen ciphertext config.fixedIv with
        | none => exact .none
        | some R => exact blockWindow_moved (fixedIv_of hR) cipher d₁ d₂ c.label s n o
      · rw [if_neg hmode, if_neg hmode]
        exact counterWindow_moved cipher c.label s n o

end Window

section Pieces
variable {crates : Crates} {dump ciphertext : Bytes} {oracles : List Oracle} {config : ScanConfig}
  {pieces : List (Nat × Nat)}

theorem cipherHits_pieces {c : CipherChoice}
    (hcovers : Windows.Covers pieces c.keyLen dump.length) :
    (∀ h ∈ cipherHits crates dump ciphertext oracles config c, ∃ p ∈ pieces,
      ∃ h' ∈ cipherHits crates (slice dump p.1 p.2) ciphertext oracles config c,
        h.Moved config p.1 h') ∧
    ∀ p ∈ pieces, ∀ h' ∈ cipherHits crates (slice dump p.1 p.2) ciphertext oracles config c,
      ∃ h ∈ cipherHits crates dump ciphertext oracles config c, h.Moved config p.1 h' := by
  have hrel := fun p : Nat × Nat => Windows.search_rel (R := Hit.Moved config p.1)
    (f := fun w => windowHit crates dump ciphertext oracles config c (w.1, p.1 + w.2))
    (g := windowHit crates (slice dump p.1 p.2) ciphertext oracles config c)
    (fun w o => windowHit_moved c dump (slice dump p.1 p.2) w p.1 o) c.keyLen
    (slice dump p.1 p.2)
  constructor
  · intro h hmem
    obtain ⟨p, hp, hin⟩ := hcovers.mem_search.mp hmem
    exact ⟨p, hp, (hrel p).1 h hin⟩
  · intro p hp h' hmem
    obtain ⟨h, hin, hmoved⟩ := (hrel p).2 h' hmem
    exact ⟨h, hcovers.mem_search.mpr ⟨p, hp, hin⟩, hmoved⟩

theorem scan_ok_iff (hmax : config.maxHits = 0) (hchacha : ciphertext.length ≤ crates.chacha20.limit)
    (hxchacha : ciphertext.length ≤ crates.xchacha20.limit) :
    (∃ r, scan crates dump ciphertext oracles config = .ok r) ↔
      Admitted oracles config ∧
        ∀ c ∈ config.ciphers, Reaches dump c → Fits ciphertext config c := by
  constructor
  · rintro ⟨r, hr⟩
    have hadm := admitted_of_scan hr
    refine ⟨hadm, ?_⟩
    intro c hc hreach
    obtain ⟨part, hpart⟩ := parts_of_scan hmax hr c hc
    have hout := @cipherPart_outcome crates dump ciphertext oracles config hadm.valid c hc
    rw [hpart] at hout
    cases hout with
    | skipped hnot => exact absurd hreach hnot
    | found _ hfits => exact hfits
  · rintro ⟨hadm, hfits⟩
    have hparts : ∀ c ∈ config.ciphers,
        ∃ part, cipherPart crates dump ciphertext oracles config c = .ok part := by
      intro c hc
      have hlimit : ciphertext.length ≤ c.keystreamLimit crates := by
        cases c <;> first | exact hchacha | exact hxchacha
      have hout := @cipherPart_outcome crates dump ciphertext oracles config hadm.valid c hc
      generalize cipherPart crates dump ciphertext oracles config c = part at hout ⊢
      cases hout with
      | skipped => exact ⟨_, rfl⟩
      | rejected hreach hnot => exact absurd (hfits c hc hreach) hnot
      | found => exact ⟨_, rfl⟩
      | exhausted _ _ hlong => omega
    obtain ⟨r, hr, _⟩ := scan_of_parts hadm hmax hparts
    exact ⟨r, hr⟩

theorem reaches_pieces {c : CipherChoice} (hne : pieces ≠ [])
    (hcovers : Windows.Covers pieces c.keyLen dump.length) :
    Reaches dump c ↔ ∃ p ∈ pieces, Reaches (slice dump p.1 p.2) c := by
  have hlen : ∀ p ∈ pieces, (slice dump p.1 p.2).length = p.2 :=
    fun p hp => Bytes.length_slice (hcovers.within p hp)
  constructor
  · rintro (hstream | hle)
    · obtain ⟨p, hp⟩ := List.exists_mem_of_ne_nil pieces hne
      exact ⟨p, hp, .inl hstream⟩
    · obtain ⟨p, hp, hlong⟩ := hcovers.longest.mp hle
      exact ⟨p, hp, .inr ((hlen p hp).symm ▸ hlong)⟩
  · rintro ⟨p, hp, hstream | hle⟩
    · exact .inl hstream
    · exact .inr (hcovers.longest.mpr ⟨p, hp, hlen p hp ▸ hle⟩)

end Pieces

/-- A dump can be scanned piece by piece: the scan of the whole returns exactly where those of the
pieces do, and their hits, moved to where the pieces start, are its hits. -/
theorem scan_in_pieces (crates : Crates) (dump ciphertext : Bytes) (oracles : List Oracle)
    (config : ScanConfig) (pieces : List (Nat × Nat)) (hmax : config.maxHits = 0)
    (hchacha : ciphertext.length ≤ crates.chacha20.limit)
    (hxchacha : ciphertext.length ≤ crates.xchacha20.limit) (hne : pieces ≠ [])
    (hcovers : ∀ c ∈ config.ciphers, Windows.Covers pieces c.keyLen dump.length) :
    ((∃ r, scan crates dump ciphertext oracles config = .ok r) ↔
      ∀ p ∈ pieces, ∃ r, scan crates (slice dump p.1 p.2) ciphertext oracles config = .ok r) ∧
    ∀ r, scan crates dump ciphertext oracles config = .ok r →
      (∀ h ∈ r.hits, ∃ p ∈ pieces, ∃ part,
        scan crates (slice dump p.1 p.2) ciphertext oracles config = .ok part ∧
          ∃ h' ∈ part.hits, h.Moved config p.1 h') ∧
      ∀ p ∈ pieces, ∀ part,
        scan crates (slice dump p.1 p.2) ciphertext oracles config = .ok part →
          ∀ h' ∈ part.hits, ∃ h ∈ r.hits, h.Moved config p.1 h' := by
  have hreturns : (∃ r, scan crates dump ciphertext oracles config = .ok r) ↔
      ∀ p ∈ pieces, ∃ r, scan crates (slice dump p.1 p.2) ciphertext oracles config = .ok r := by
    rw [scan_ok_iff hmax hchacha hxchacha]
    constructor
    · rintro ⟨hadm, hfits⟩ p hp
      refine (scan_ok_iff hmax hchacha hxchacha).mpr ⟨hadm, ?_⟩
      intro c hc hreach
      exact hfits c hc ((reaches_pieces hne (hcovers c hc)).mpr ⟨p, hp, hreach⟩)
    · intro h
      have hparts : ∀ p ∈ pieces, Admitted oracles config ∧ ∀ c ∈ config.ciphers,
          Reaches (slice dump p.1 p.2) c → Fits ciphertext config c :=
        fun p hp => (scan_ok_iff hmax hchacha hxchacha).mp (h p hp)
      obtain ⟨p, hp⟩ := List.exists_mem_of_ne_nil pieces hne
      refine ⟨(hparts p hp).1, ?_⟩
      intro c hc hreach
      obtain ⟨q, hq, hpiece⟩ := (reaches_pieces hne (hcovers c hc)).mp hreach
      exact (hparts q hq).2 c hc hpiece
  refine ⟨hreturns, ?_⟩
  intro r hr
  constructor
  · intro h hmem
    rw [hits_of_scan hmax hr] at hmem
    obtain ⟨c, hc, hin⟩ := List.mem_flatMap.mp hmem
    obtain ⟨p, hp, h', hin', hmoved⟩ := (cipherHits_pieces (hcovers c hc)).1 h hin
    obtain ⟨part, hpart⟩ := hreturns.mp ⟨r, hr⟩ p hp
    refine ⟨p, hp, part, hpart, h', ?_, hmoved⟩
    rw [hits_of_scan hmax hpart]
    exact List.mem_flatMap.mpr ⟨c, hc, hin'⟩
  · intro p hp part hpart h' hmem
    rw [hits_of_scan hmax hpart] at hmem
    obtain ⟨c, hc, hin⟩ := List.mem_flatMap.mp hmem
    obtain ⟨h, hin', hmoved⟩ := (cipherHits_pieces (hcovers c hc)).2 p hp h' hin
    refine ⟨h, ?_, hmoved⟩
    rw [hits_of_scan hmax hr]
    exact List.mem_flatMap.mpr ⟨c, hc, hin'⟩

theorem covers_sample : ∀ c ∈ sampleConfig.ciphers,
    Windows.Covers (Windows.pieces 8 16 16) c.keyLen sampleKey.length := by
  intro c hc
  obtain rfl := List.mem_singleton.mp hc
  exact Windows.covers_pieces (by decide) (by decide) 16

/-- A key that lies across the end of the first eight bytes is found in the piece that runs on. -/
theorem scan_in_pieces_sample :
    ∃ p ∈ Windows.pieces 8 16 16, ∃ part,
      scan sampleCrates (slice sampleKey p.1 p.2) sampleCiphertext [jsonOracle] sampleConfig =
        .ok part ∧ ∃ h ∈ part.hits, sampleHit.Moved sampleConfig p.1 h :=
  ((scan_in_pieces sampleCrates sampleKey sampleCiphertext [jsonOracle] sampleConfig
    (Windows.pieces 8 16 16) rfl (by decide) (by decide) (by decide) covers_sample).2 sampleResult
    (by decide +kernel)).1 sampleHit List.mem_cons_self

end Memhunt
