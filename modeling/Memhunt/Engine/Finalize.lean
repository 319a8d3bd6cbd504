import Memhunt.Lib.Hex
import Memhunt.Lib.Padding
import Memhunt.Oracle

/-! From a decrypted ciphertext to the reported hit: block splitting, padding, plausibility. -/
namespace Memhunt
open Rust
open Utf8 (fromUtf8 toUtf8)

/-- Split ciphertext into blocks; errors when empty or not block-aligned. -/
def splitBlocks (ciphertext : Bytes) (block : Nat) : Run (List Bytes) :=
  if ciphertext.isEmpty then fail "ciphertext is empty"
  else if ciphertext.length % block != 0 then
    fail ("ciphertext length " ++ toString ciphertext.length ++
      " is not a multiple of the block size (" ++ toString block ++ ")")
  else .ok (Bytes.chunksExact block ciphertext)

/-- The flag and the buffer as left: cut when it ends in a whole PKCS#7 padding. -/
def stripPkcs7 (plaintext : Bytes) : Run (Bool × Bytes) :=
  match plaintext.getLast? with
  | none => .ok (false, plaintext)
  | some x =>
      let n := x.toNat
      if n = 0 ∨ n > plaintext.length ∨ n > 255 then .ok (false, plaintext)
      else do
        let last ← sliceFrom plaintext (plaintext.length - n)
        if last.all (· == UInt8.ofNat n) then
          return (true, plaintext.take (plaintext.length - n))
        else return (false, plaintext)

/-- `while plaintext.last() == Some(&0) { plaintext.pop(); }` -/
def stripZero (plaintext : Bytes) : Bool × Bytes := (true, plaintext.rdropWhile (· == 0))

/-- 0..=1000 score of how plaintext-like a block is: valid UTF-8 and mostly printable. -/
def block0Plausibility (block : Bytes) : Run Nat :=
  match fromUtf8 block with
  | none => .ok 0
  | some s =>
      if s.isEmpty then .ok 0
      else
        let printable := (s.filter isPrintable).length
        divide (printable * 1000) s.length

def finalizeHit (algo : String) (mode : Mode) (key : Bytes) (keyOffset : Nat)
    (ivHex : Option String) (ivOffset : Option Nat) (ivCandidates : List IvCandidate)
    (plaintext : Bytes) (matchedBy : String) (confidence : Confidence) : Run Hit := do
  let (isPkcs7, plaintext) ← stripPkcs7 plaintext
  let (padding, plaintext) :=
    if isPkcs7 then (some "pkcs7", plaintext)
    else
      let (isZero, plaintext) := stripZero plaintext
      if isZero then (some "zero", plaintext) else (none, plaintext)
  return { algo, mode, keyHex := Hex.encode key, keyOffset, ivHex, ivOffset, nonceHex := none,
           padding, plaintextUtf8 := toUtf8 plaintext, plaintextHex := Hex.encode plaintext,
           matchedBy, confidence, ivCandidates }

def finalizeStreamHit (algo : String) (mode : Mode) (key : Bytes) (keyOffset : Nat)
    (nonce plaintext : Bytes) (matchedBy : String) (confidence : Confidence) : Hit :=
  { algo, mode, keyHex := Hex.encode key, keyOffset, ivHex := none, ivOffset := none,
    nonceHex := some (Hex.encode nonce), padding := none, plaintextUtf8 := toUtf8 plaintext,
    plaintextHex := Hex.encode plaintext, matchedBy, confidence, ivCandidates := [] }

/-- The name and the result of the padding removal a hit goes through. -/
def stripPadding (plaintext : Bytes) : String × Bytes :=
  match Padding.unpadPkcs7 plaintext with
  | some m => ("pkcs7", m)
  | none => ("zero", Padding.unpadZero plaintext)

/-- The hit shows this text, with its padding taken off. -/
def Hit.Reports (h : Hit) (plaintext : Bytes) : Prop :=
  h.padding = some (stripPadding plaintext).1 ∧
  h.plaintextHex = Hex.encode (stripPadding plaintext).2 ∧
  h.plaintextUtf8 = toUtf8 (stripPadding plaintext).2

def Hit.Shows (h : Hit) (plaintext : Bytes) : Prop :=
  h.padding = none ∧ h.plaintextHex = Hex.encode plaintext ∧ h.plaintextUtf8 = toUtf8 plaintext

theorem stripPadding_pkcs7 (m : Bytes) {block : Nat} (hpos : 0 < block) (hlt : block < 256) :
    stripPadding (Padding.pkcs7 block m) = ("pkcs7", m) := by
  rw [stripPadding, Padding.unpadPkcs7_pkcs7 m hpos hlt]

theorem stripPadding_inj {p q : Bytes} (h : stripPadding p = stripPadding q)
    (hlen : p.length = q.length) : p = q := by
  unfold stripPadding at h
  cases hp : Padding.unpadPkcs7 p with
  | some m =>
      cases hq : Padding.unpadPkcs7 q with
      | some m' =>
          simp only [hp, hq, Prod.mk.injEq, true_and] at h
          exact Padding.unpadPkcs7_inj hp (h ▸ hq) hlen
      | none => simp [hp, hq] at h
  | none =>
      cases hq : Padding.unpadPkcs7 q with
      | some m' => simp [hp, hq] at h
      | none =>
          simp only [hp, hq, Prod.mk.injEq, true_and] at h
          exact Padding.unpadZero_inj h hlen

/-- A hit shows at most one text of a given length. -/
theorem Hit.Reports.unique {h : Hit} {p q : Bytes} (hp : h.Reports p) (hq : h.Reports q)
    (hlen : p.length = q.length) : p = q := by
  have name : (stripPadding p).1 = (stripPadding q).1 := Option.some.inj (hp.1.symm.trans hq.1)
  have text : (stripPadding p).2 = (stripPadding q).2 :=
    Hex.encode_inj.mp (hp.2.1.symm.trans hq.2.1)
  exact stripPadding_inj (Prod.ext name text) hlen

theorem stripPkcs7_ok (plaintext : Bytes) :
    stripPkcs7 plaintext = .ok (match Padding.unpadPkcs7 plaintext with
      | some m => (true, m)
      | none => (false, plaintext)) := by
  unfold stripPkcs7 Padding.unpadPkcs7
  cases plaintext.getLast? with
  | none => rfl
  | some x =>
      have hx : x.toNat < 256 := x.toNat_lt
      by_cases hguard : x.toNat = 0 ∨ x.toNat > plaintext.length ∨ x.toNat > 255
      · have hnot : ¬ (0 < x.toNat ∧ x.toNat ≤ plaintext.length ∧
            (plaintext.drop (plaintext.length - x.toNat)).all
              (· == UInt8.ofNat x.toNat) = true) := by
          intro hpad
          omega
        simp only [if_pos hguard, if_neg hnot]
      · have hslice : sliceFrom plaintext (plaintext.length - x.toNat) =
            .ok (plaintext.drop (plaintext.length - x.toNat)) := sliceFrom_ok (by omega)
        have hpos : 0 < x.toNat := by omega
        have hle : x.toNat ≤ plaintext.length := by omega
        simp only [if_neg hguard, hslice, ok_bind, pure_eq, hpos, hle, true_and]
        split <;> rfl

def blockHit (algo : String) (mode : Mode) (key : Bytes) (keyOffset : Nat)
    (ivHex : Option String) (ivOffset : Option Nat) (ivCandidates : List IvCandidate)
    (plaintext : Bytes) (matchedBy : String) (confidence : Confidence) : Hit :=
  { algo, mode, keyHex := Hex.encode key, keyOffset, ivHex, ivOffset, nonceHex := none,
    padding := some (stripPadding plaintext).1,
    plaintextUtf8 := toUtf8 (stripPadding plaintext).2,
    plaintextHex := Hex.encode (stripPadding plaintext).2, matchedBy, confidence, ivCandidates }

theorem finalizeHit_ok (algo : String) (mode : Mode) (key : Bytes) (keyOffset : Nat)
    (ivHex : Option String) (ivOffset : Option Nat) (ivCandidates : List IvCandidate)
    (plaintext : Bytes) (matchedBy : String) (confidence : Confidence) :
    finalizeHit algo mode key keyOffset ivHex ivOffset ivCandidates plaintext matchedBy
      confidence =
    .ok (blockHit algo mode key keyOffset ivHex ivOffset ivCandidates plaintext matchedBy
      confidence) := by
  unfold finalizeHit blockHit stripPadding
  rw [stripPkcs7_ok, ok_bind]
  cases Padding.unpadPkcs7 plaintext with
  | some m => rfl
  | none => rfl

theorem splitBlocks_ok {ciphertext : Bytes} {block : Nat} (hne : ciphertext ≠ [])
    (hdvd : block ∣ ciphertext.length) :
    splitBlocks ciphertext block = .ok (Bytes.chunksExact block ciphertext) := by
  have hmod : ciphertext.length % block = 0 := Nat.mod_eq_zero_of_dvd hdvd
  simp [splitBlocks, hne, hmod]

theorem splitBlocks_errs {ciphertext : Bytes} {block : Nat}
    (h : ¬ (ciphertext ≠ [] ∧ block ∣ ciphertext.length)) :
    Errs (splitBlocks ciphertext block) := by
  unfold splitBlocks
  by_cases hne : ciphertext = []
  · simp [hne]
  · have hmod : ciphertext.length % block ≠ 0 :=
      fun hm => h ⟨hne, Nat.dvd_of_mod_eq_zero hm⟩
    simp [hne, hmod]

def plausibility (block : Bytes) : Nat :=
  match fromUtf8 block with
  | none => 0
  | some s => (s.filter isPrintable).length * 1000 / s.length

theorem block0Plausibility_ok (block : Bytes) :
    block0Plausibility block = .ok (plausibility block) := by
  unfold block0Plausibility plausibility
  cases fromUtf8 block with
  | none => rfl
  | some s =>
      cases s with
      | nil => rfl
      | cons c s => exact divide_ok (show (c :: s).length ≠ 0 by simp)

end Memhunt
