import Memhunt.Engine.Finalize
import Memhunt.Spec.Vectors

/-! The padding that a hit reports: whether the bytes taken off were padding of the cipher's block
size, and whether the label says how to put them back. -/
namespace Memhunt
open Rust
open Padding (pkcs7 unpadPkcs7 unpadZero)
open Utf8 (toUtf8)

/-- The label of a hit and the text it shows. -/
def Hit.Labels (h : Hit) (padding : Option String) (plaintext : Bytes) : Prop :=
  h.padding = padding ∧ h.plaintextHex = Hex.encode plaintext ∧ h.plaintextUtf8 = toUtf8 plaintext

theorem Hit.Labels.unique {h : Hit} {l l' : Option String} {p p' : Bytes} (hp : h.Labels l p)
    (hp' : h.Labels l' p') : l = l' ∧ p = p' :=
  ⟨hp.1.symm.trans hp'.1, Hex.encode_inj.mp (hp.2.1.symm.trans hp'.2.1)⟩

section Finalize
variable (algo : String) (mode : Mode) (key : Bytes) (keyOffset : Nat) (ivHex : Option String)
  (ivOffset : Option Nat) (ivCandidates : List IvCandidate) (matchedBy : String)
  (confidence : Confidence)

theorem blockHit_labels (plaintext : Bytes) :
    (blockHit algo mode key keyOffset ivHex ivOffset ivCandidates plaintext matchedBy
      confidence).Labels (some (stripPadding plaintext).1) (stripPadding plaintext).2 :=
  ⟨rfl, rfl, rfl⟩

end Finalize

theorem stripPadding_of_unpadPkcs7 {d m : Bytes} (h : unpadPkcs7 d = some m) :
    stripPadding d = ("pkcs7", m) := by
  rw [stripPadding, h]

theorem stripPadding_of_none {d : Bytes} (h : unpadPkcs7 d = none) :
    stripPadding d = ("zero", unpadZero d) := by
  rw [stripPadding, h]

section BlockSize
variable {block : Nat} {d m : Bytes}

/-- The text ends in more than a block of bytes that all hold their number. -/
def LongRun (block : Nat) (d : Bytes) : Prop :=
  ∃ n m, block < n ∧ n < 256 ∧ d = m ++ Padding.tail n

theorem append_tail_eq_pkcs7_iff {n : Nat} (hblock : 0 < block) (hn : 0 < n)
    (hdvd : block ∣ (m ++ Padding.tail n).length) :
    m ++ Padding.tail n = pkcs7 block m ↔ n ≤ block := by
  have hmod := Nat.mod_lt m.length hblock
  have hsum : block ∣ m.length + n := by simpa using hdvd
  constructor
  · intro h
    have hlen := congrArg List.length h
    rw [List.length_append, Padding.length_tail, Padding.length_pkcs7] at hlen
    omega
  · intro hle
    have hdiv := Nat.div_add_mod m.length block
    have hrest : block ∣ m.length % block + n := by
      rw [← hdiv, Nat.add_assoc] at hsum
      exact (Nat.dvd_add_right (Nat.dvd_mul_right block _)).mp hsum
    obtain ⟨k, hk⟩ := hrest
    have hpos : 0 < k := Nat.pos_of_ne_zero (by rintro rfl; omega)
    have hlt : k < 2 := Nat.lt_of_mul_lt_mul_left (show block * k < block * 2 by omega)
    have hone : k = 1 := by omega
    subst hone
    rw [pkcs7]
    congr 2
    omega

theorem pkcs7_eq_iff (hblock : 0 < block) (hlt : block < 256) (hdvd : block ∣ d.length) :
    d = pkcs7 block m ↔ unpadPkcs7 d = some m ∧ ¬ LongRun block d := by
  constructor
  · rintro rfl
    have hunpad := Padding.unpadPkcs7_pkcs7 m hblock hlt
    refine ⟨hunpad, ?_⟩
    rintro ⟨n, m', hn, hn256, h⟩
    have hm : m = m' := by
      rw [h, Padding.unpadPkcs7_append_tail m' (by omega) hn256] at hunpad
      exact (Option.some.inj hunpad).symm
    subst hm
    rw [h] at hdvd
    have := (append_tail_eq_pkcs7_iff hblock (by omega) hdvd).mp h.symm
    omega
  · rintro ⟨hunpad, hrun⟩
    obtain ⟨n, hpos, hn256, rfl⟩ := Padding.unpadPkcs7_some hunpad
    refine (append_tail_eq_pkcs7_iff hblock hpos hdvd).mpr ?_
    by_contra hlong
    exact hrun ⟨n, m, Nat.lt_of_not_le hlong, hn256, rfl⟩

end BlockSize

/-- The hit of a text shows PKCS#7 padding exactly where the text is padded to the block size, and
then shows the padded message. -/
def Pkcs7Exact (block : Nat) (d : Bytes) (h : Hit) : Prop :=
  ∀ m, h.Labels (some "pkcs7") m ↔ d = pkcs7 block m

/-- For the block sizes of the ciphers the removal is exact unless the text ends in a run that is
longer than a block. -/
theorem pkcs7_exact_iff (algo : String) (mode : Mode) (key : Bytes) (keyOffset : Nat)
    (ivHex : Option String) (ivOffset : Option Nat) (ivCandidates : List IvCandidate)
    (matchedBy : String) (confidence : Confidence) (block : Nat) (hblock : block = 8 ∨ block = 16)
    (d : Bytes) (hdvd : block ∣ d.length) :
    ∃ h, finalizeHit algo mode key keyOffset ivHex ivOffset ivCandidates d matchedBy confidence =
        .ok h ∧ (Pkcs7Exact block d h ↔ ¬ LongRun block d) := by
  have hpos : 0 < block := by omega
  have hlt : block < 256 := by omega
  refine ⟨_, finalizeHit_ok .., ?_⟩
  have hlabels := blockHit_labels algo mode key keyOffset ivHex ivOffset ivCandidates matchedBy
    confidence d
  generalize blockHit algo mode key keyOffset ivHex ivOffset ivCandidates d matchedBy confidence =
    h at hlabels
  constructor
  · rintro hexact ⟨n, m, hn, hn256, hd⟩
    have hunpad : unpadPkcs7 d = some m := by
      rw [hd]
      exact Padding.unpadPkcs7_append_tail m (by omega) hn256
    rw [stripPadding_of_unpadPkcs7 hunpad] at hlabels
    exact ((pkcs7_eq_iff hpos hlt hdvd).mp ((hexact m).mp hlabels)).2 ⟨n, m, hn, hn256, hd⟩
  · intro hrun m
    rw [pkcs7_eq_iff hpos hlt hdvd, and_iff_left hrun]
    cases hunpad : unpadPkcs7 d with
    | none =>
        rw [stripPadding_of_none hunpad] at hlabels
        refine iff_of_false (fun h => ?_) (Option.some_ne_none m).symm
        have := (h.unique hlabels).1
        simp at this
    | some m' =>
        rw [stripPadding_of_unpadPkcs7 hunpad] at hlabels
        constructor
        · intro h
          rw [(h.unique hlabels).2]
        · intro h
          rwa [Option.some.inj h] at hlabels

theorem pkcs7_exact_sample :
    ∃ h, finalizeHit "des" .ecb [] 0 none none [] (pkcs7 8 shortMessage) "utf8" .medium = .ok h ∧
      h.Labels (some "pkcs7") shortMessage := by
  have hdvd : 8 ∣ (pkcs7 8 shortMessage).length := by decide
  have hrun : ¬ LongRun 8 (pkcs7 8 shortMessage) :=
    ((pkcs7_eq_iff (by omega) (by omega) hdvd).mp rfl).2
  obtain ⟨h, hok, hexact⟩ := pkcs7_exact_iff "des" .ecb [] 0 none none [] "utf8" .medium 8
    (.inl rfl) (pkcs7 8 shortMessage) hdvd
  exact ⟨h, hok, (hexact.mpr hrun shortMessage).mpr rfl⟩

/-- Two blocks of a text that ends in nine tabs, in blocks of eight bytes: all nine are taken off
as padding. -/
theorem tabs_taken_for_padding : 8 ∣ (tabbedMessage ++ List.replicate 9 9).length ∧
    ∃ h, finalizeHit "des" .ecb [] 0 none none [] (tabbedMessage ++ List.replicate 9 9) "utf8"
        .medium = .ok h ∧ h.Labels (some "pkcs7") tabbedMessage ∧
      tabbedMessage ++ List.replicate 9 9 ≠ pkcs7 8 tabbedMessage := by
  refine ⟨by decide, _, finalizeHit_ok .., ?_, by decide⟩
  exact ⟨by decide +kernel, by decide +kernel, by decide +kernel⟩

section Labels
variable {d : Bytes} {h : Hit}

/-- The label and the text of a hit tell what was decrypted. -/
structure RestoredBy (h : Hit) (d plaintext : Bytes) : Prop where
  text : h.plaintextHex = Hex.encode plaintext ∧ h.plaintextUtf8 = toUtf8 plaintext
  unpadded : h.padding = none ↔ plaintext = d
  zero : h.padding = some "zero" ↔ stripPkcs7 d = .ok (false, d) ∧
    (∃ n, 0 < n ∧ d = plaintext ++ List.replicate n 0) ∧ plaintext.getLast? ≠ some 0
  pkcs7 : h.padding ≠ none → h.padding ≠ some "zero" → h.padding = some "pkcs7" ∧
    ∃ n, 0 < n ∧ n < 256 ∧ d = plaintext ++ List.replicate n (UInt8.ofNat n)

/-- The text ends in bytes that hold their number, or in a zero. -/
def EndsPadded (d : Bytes) : Prop :=
  (∃ n m, 0 < n ∧ n < 256 ∧ d = m ++ List.replicate n (UInt8.ofNat n)) ∨ d.getLast? = some 0

theorem unpadPkcs7_isSome_iff : (∃ m, unpadPkcs7 d = some m) ↔
    ∃ n m, 0 < n ∧ n < 256 ∧ d = m ++ List.replicate n (UInt8.ofNat n) := by
  constructor
  · rintro ⟨m, hm⟩
    obtain ⟨n, hpos, hlt, hd⟩ := Padding.unpadPkcs7_some hm
    exact ⟨n, m, hpos, hlt, hd⟩
  · rintro ⟨n, m, hpos, hlt, rfl⟩
    exact ⟨m, Padding.unpadPkcs7_append_tail m hpos hlt⟩

theorem getLast?_unpadZero (d : Bytes) : (unpadZero d).getLast? ≠ some 0 := by
  intro hlast
  have hne : unpadZero d ≠ [] := by
    intro hnil
    rw [hnil] at hlast
    cases hlast
  have hnot := List.rdropWhile_last_not (fun b : UInt8 => b == 0) d hne
  rw [List.getLast?_eq_getLast_of_ne_nil hne, Option.some.injEq] at hlast
  exact hnot (beq_iff_eq.mpr hlast)

theorem unpadZero_eq_self_iff : unpadZero d = d ↔ d.getLast? ≠ some 0 := by
  constructor
  · intro hself hlast
    rw [← hself] at hlast
    exact getLast?_unpadZero d hlast
  · intro hlast
    rw [unpadZero, List.rdropWhile_eq_self_iff]
    intro hne hzero
    apply hlast
    rw [List.getLast?_eq_getLast_of_ne_nil hne]
    simpa using hzero

theorem restoredBy_of_pkcs7 {m : Bytes} (hm : unpadPkcs7 d = some m)
    (hh : h.Labels (some "pkcs7") m) : RestoredBy h d m := by
  obtain ⟨n, hpos, hlt, hd⟩ := Padding.unpadPkcs7_some hm
  constructor
  case text => exact hh.2
  case unpadded =>
    rw [hh.1]
    refine iff_of_false (Option.some_ne_none _) fun heq => ?_
    have := congrArg List.length (heq.trans hd)
    rw [List.length_append, Padding.length_tail] at this
    omega
  case zero =>
    rw [hh.1, stripPkcs7_ok, hm]
    refine iff_of_false (by decide) fun hzero => ?_
    have := (Prod.mk.inj (Except.ok.inj hzero.1)).1
    cases this
  case pkcs7 => exact fun _ _ => ⟨hh.1, n, hpos, hlt, hd⟩

theorem restoredBy_zero_iff (hnone : unpadPkcs7 d = none)
    (hh : h.Labels (some "zero") (unpadZero d)) :
    RestoredBy h d (unpadZero d) ↔ d.getLast? = some 0 := by
  have hlen := congrArg List.length (Padding.unpadZero_append d)
  constructor
  · intro hrestored
    by_contra hlast
    have := hrestored.unpadded.mpr (unpadZero_eq_self_iff.mpr hlast)
    rw [hh.1] at this
    cases this
  · intro hlast
    have hne : unpadZero d ≠ d := fun heq => unpadZero_eq_self_iff.mp heq hlast
    have hpos : 0 < d.length - (unpadZero d).length := by
      by_contra hzero
      have hnil : d.length - (unpadZero d).length = 0 := by omega
      have happend := Padding.unpadZero_append d
      rw [hnil, List.replicate_zero, List.append_nil] at happend
      exact hne happend.symm
    constructor
    case text => exact hh.2
    case unpadded =>
      rw [hh.1]
      exact iff_of_false (Option.some_ne_none _) hne
    case zero =>
      rw [stripPkcs7_ok, hnone]
      exact iff_of_true hh.1
        ⟨rfl, ⟨_, hpos, Padding.unpadZero_append d⟩, getLast?_unpadZero d⟩
    case pkcs7 => exact fun _ hnot => absurd hh.1 hnot

def FinalizedFrom (h : Hit) (d : Bytes) : Prop :=
  ∃ algo mode key keyOffset ivHex ivOffset ivCandidates matchedBy confidence,
    finalizeHit algo mode key keyOffset ivHex ivOffset ivCandidates d matchedBy confidence = .ok h

/-- No other text of the same length is reported with the label and the text of this hit. -/
def Unambiguous (h : Hit) (d : Bytes) : Prop :=
  ∀ d' h', d'.length = d.length → FinalizedFrom h' d' → h'.padding = h.padding →
    h'.plaintextHex = h.plaintextHex → d' = d

theorem FinalizedFrom.labels (hd : FinalizedFrom h d) :
    h.Labels (some (stripPadding d).1) (stripPadding d).2 := by
  obtain ⟨algo, mode, key, keyOffset, ivHex, ivOffset, ivCandidates, matchedBy, confidence,
    hok⟩ := hd
  rw [finalizeHit_ok] at hok
  rw [← Except.ok.inj hok]
  exact blockHit_labels ..

theorem FinalizedFrom.unambiguous (hd : FinalizedFrom h d) : Unambiguous h d := by
  intro d' h' hlen hd' hpadding htext
  have hl := hd.labels
  have hl' := hd'.labels
  refine stripPadding_inj (Prod.ext ?_ ?_) hlen
  · exact Option.some.inj (hl'.1.symm.trans (hpadding.trans hl.1))
  · exact Hex.encode_inj.mp (hl'.2.1.symm.trans (htext.trans hl.2.1))

theorem FinalizedFrom.restored_iff (hd : FinalizedFrom h d) :
    (∃ p, RestoredBy h d p) ↔ EndsPadded d := by
  have hlabels := hd.labels
  cases hunpad : unpadPkcs7 d with
  | some m =>
      rw [stripPadding_of_unpadPkcs7 hunpad] at hlabels
      exact iff_of_true ⟨m, restoredBy_of_pkcs7 hunpad hlabels⟩
        (.inl (unpadPkcs7_isSome_iff.mp ⟨m, hunpad⟩))
  | none =>
      rw [stripPadding_of_none hunpad] at hlabels
      have hends : EndsPadded d ↔ d.getLast? = some 0 := by
        refine or_iff_right fun hrun => ?_
        obtain ⟨m, hm⟩ := unpadPkcs7_isSome_iff.mpr hrun
        rw [hunpad] at hm
        cases hm
      rw [hends, ← restoredBy_zero_iff hunpad hlabels]
      constructor
      · rintro ⟨p, hp⟩
        have htext : p = unpadZero d := Hex.encode_inj.mp (hp.text.1.symm.trans hlabels.2.1)
        exact htext ▸ hp
      · exact fun hp => ⟨_, hp⟩

/-- The label of a hit and its text restore what was decrypted exactly where that ends in padding;
two texts of one length are never confused. -/
theorem label_restores_iff (algo : String) (mode : Mode) (key : Bytes) (keyOffset : Nat)
    (ivHex : Option String) (ivOffset : Option Nat) (ivCandidates : List IvCandidate)
    (matchedBy : String) (confidence : Confidence) (d : Bytes) :
    ∃ h, finalizeHit algo mode key keyOffset ivHex ivOffset ivCandidates d matchedBy confidence =
        .ok h ∧ ((∃ p, RestoredBy h d p) ∧ Unambiguous h d ↔ EndsPadded d) := by
  refine ⟨_, finalizeHit_ok .., ?_⟩
  have hfrom : FinalizedFrom (blockHit algo mode key keyOffset ivHex ivOffset ivCandidates d
      matchedBy confidence) d :=
    ⟨algo, mode, key, keyOffset, ivHex, ivOffset, ivCandidates, matchedBy, confidence,
      finalizeHit_ok ..⟩
  rw [and_iff_left hfrom.unambiguous, hfrom.restored_iff]

/-- A text without padding, none of which is taken off, is reported as padded with zeros. -/
theorem unpadded_labelled_zero :
    ∃ h, finalizeHit "aes-128" .ecb sampleKey 0 none none [] samplePlaintext "json" .high = .ok h ∧
      h.Labels (some "zero") samplePlaintext ∧ ¬ ∃ p, RestoredBy h samplePlaintext p := by
  refine ⟨_, finalizeHit_ok .., ⟨by decide +kernel, by decide +kernel, by decide +kernel⟩, ?_⟩
  rintro ⟨p, hp⟩
  have htext : p = samplePlaintext := Hex.encode_inj.mp (hp.text.1.symm.trans (by decide +kernel))
  have hnone := hp.unpadded.mpr htext
  cases hnone

end Labels

end Memhunt
