import Memhunt.Lib.Utf16
import Memhunt.Lib.Utf8
import Memhunt.Lib.Windows
import Memhunt.Report

/-! Hit validators: each decides whether the head of a decryption looks like real plaintext. -/
namespace Memhunt
open Utf8 (fromUtf8 isControl)

/-- A trait object: any total test on the decrypted head, with its name and rating. -/
structure Oracle where
  name : String
  confidence : Confidence
  verify : Bytes → Bool

def isPrintable (c : Char) : Bool := !isControl c || c == '\n' || c == '\r' || c == '\t'

def stripTrailingZeros (data : Bytes) : Bytes := data.rdropWhile (· == 0)

/-- Plaintext decodes as UTF-8 and at least nine tenths of its characters are printable. -/
def utf8Oracle : Oracle where
  name := "utf8"
  confidence := .medium
  verify plaintextHead :=
    let head := stripTrailingZeros plaintextHead
    if head.isEmpty then false
    else match fromUtf8 head with
      | some s => decide (s.length * 9 ≤ (s.filter isPrintable).length * 10)
      | none => false

def isAsciiDigit (b : UInt8) : Bool := 0x30 ≤ b.toNat && b.toNat ≤ 0x39

/-- The two first bytes open an object or an array with a value in it. -/
def jsonStart (plaintextHead : Bytes) : Bool :=
  if plaintextHead[0]? == some 0x7b then plaintextHead[1]? == some 0x22
  else if plaintextHead[0]? == some 0x5b then
    match plaintextHead[1]? with
    | some c => isAsciiDigit c || c == 0x22 || c == 0x5b || c == 0x7b || c == 0x20 || c == 0x09
    | none => false
  else false

/-- Plaintext starts a JSON document and the head stays inside the JSON-safe characters. -/
def jsonOracle : Oracle where
  name := "json"
  confidence := .high
  verify plaintextHead :=
    if !jsonStart plaintextHead then false
    else match fromUtf8 plaintextHead with
      | some s => s.all isPrintable
      | none => false

def knownPlaintextOracle (fragment : Bytes) : Oracle where
  name := "known"
  confidence := .high
  verify plaintextHead :=
    (Windows.windows (max fragment.length 1) plaintextHead).any (· == fragment)

/-- `while end >= 4 && head[end - 2] == 0 && head[end - 1] == 0 { end -= 2 }` -/
def utf16End (head : Bytes) : Nat → Nat
  | n + 4 =>
      if head[n + 2]? = some 0 ∧ head[n + 3]? = some 0 then utf16End head (n + 2) else n + 4
  | n => n

def utf16LeOracle : Oracle where
  name := "utf16le"
  confidence := .medium
  verify plaintextHead :=
    let head := plaintextHead.take (utf16End plaintextHead plaintextHead.length)
    if head.length < 8 || head.length % 2 != 0 then false
    else
      let units := Utf16.units head
      let printable := (units.filter fun u => 0x20 ≤ u && u < 0x7f).length
      if printable * 4 < units.length * 3 then false
      else units.any (· != 0) && units.any (· != units.getD 0 0)

/-- Plaintext starts with a gzip header: magic, deflate, reserved flag bits clear. -/
def gzipOracle : Oracle where
  name := "gzip"
  confidence := .high
  verify plaintextHead :=
    if plaintextHead[0]? != some 0x1f then false
    else if plaintextHead[1]? != some 0x8b then false
    else if plaintextHead[2]? != some 0x08 then false
    else match plaintextHead[3]? with
      | some flg => flg &&& 0xe0 == 0
      | none => false

def readVarintFrom (value : UInt64) (shift : UInt64) (i : Nat) : Bytes → Option (UInt64 × Nat)
  | [] => none
  | b :: rest =>
      let value := value ||| ((b &&& 0x7f).toUInt64 <<< shift)
      if b &&& 0x80 = 0 then some (value, i + 1)
      else readVarintFrom value (shift + 7) (i + 1) rest

/-- Read a varint of at most ten bytes: its value and the bytes consumed. -/
def readVarint (data : Bytes) : Option (UInt64 × Nat) := readVarintFrom 0 0 0 (data.take 10)

/-- Plaintext starts with a length-delimited protobuf field that fits inside the head. -/
def protobufOracle : Oracle where
  name := "protobuf"
  confidence := .medium
  verify plaintextHead :=
    match plaintextHead with
    | [] => false
    | tag :: rest =>
        if tag &&& 0x07 != 0x02 || tag >>> 3 == 0 || tag >>> 3 > 15 then false
        else match readVarint rest with
          | none => false
          | some (len, consumed) =>
              let available := plaintextHead.length - (1 + consumed)
              decide (0 < len.toNat ∧ len.toNat ≤ available)

/-- `Iterator::max_by_key`: of several maximal elements the last one. -/
def maxByKey {α : Type} (key : α → Nat) : List α → Option α
  | [] => none
  | x :: xs =>
      match maxByKey key xs with
      | none => some x
      | some y => if key y < key x then some x else some y

def bestMatch (oracles : List Oracle) (plaintextHead : Bytes) : Option (String × Confidence) :=
  maxByKey (fun m => m.2.rank)
    ((oracles.filter fun o => o.verify plaintextHead).map fun o => (o.name, o.confidence))

def Accepts (oracles : List Oracle) (plaintextHead : Bytes) : Prop :=
  ∃ o ∈ oracles, o.verify plaintextHead = true

theorem maxByKey_isSome {α : Type} {key : α → Nat} {xs : List α} (h : xs ≠ []) :
    ∃ x, maxByKey key xs = some x := by
  cases xs with
  | nil => exact absurd rfl h
  | cons x xs =>
      cases hm : maxByKey key xs with
      | none => exact ⟨x, by simp only [maxByKey, hm]⟩
      | some y =>
          by_cases hk : key y < key x
          · exact ⟨x, by simp only [maxByKey, hm, if_pos hk]⟩
          · exact ⟨y, by simp only [maxByKey, hm, if_neg hk]⟩

theorem maxByKey_mem {α : Type} {key : α → Nat} {xs : List α} {x : α}
    (h : maxByKey key xs = some x) : x ∈ xs := by
  induction xs generalizing x with
  | nil => cases h
  | cons y xs ih =>
      cases hm : maxByKey key xs with
      | none =>
          simp only [maxByKey, hm, Option.some.injEq] at h
          exact h ▸ List.mem_cons_self
      | some z =>
          simp only [maxByKey, hm] at h
          split at h
          · exact Option.some.inj h ▸ List.mem_cons_self
          · exact Option.some.inj h ▸ List.mem_cons_of_mem y (ih hm)

theorem maxByKey_isGreatest {α : Type} {key : α → Nat} {xs : List α} {x : α}
    (h : maxByKey key xs = some x) : IsGreatest {k | ∃ y ∈ xs, key y = k} (key x) := by
  refine ⟨⟨x, maxByKey_mem h, rfl⟩, ?_⟩
  rintro k ⟨y, hy, rfl⟩
  induction xs generalizing x with
  | nil => cases hy
  | cons z xs ih =>
      cases hm : maxByKey key xs with
      | none =>
          have hnil : xs = [] := by
            by_contra hne
            obtain ⟨w, hw⟩ := @maxByKey_isSome _ key _ hne
            rw [hm] at hw
            cases hw
          simp only [maxByKey, hm, Option.some.injEq] at h
          rw [hnil, List.mem_singleton] at hy
          rw [hy, h]
      | some w =>
          simp only [maxByKey, hm] at h
          have htail : y ∈ xs → key y ≤ key w := fun hy => ih hm hy
          rcases List.mem_cons.mp hy with rfl | hy
          · split at h <;> cases h <;> omega
          · have := htail hy
            split at h <;> cases h <;> omega

theorem bestMatch_some {oracles : List Oracle} {head : Bytes} {name : String} {conf : Confidence}
    (h : bestMatch oracles head = some (name, conf)) :
    ∃ o ∈ oracles, o.verify head = true ∧ o.name = name ∧ o.confidence = conf := by
  have hmem := maxByKey_mem h
  simp only [List.mem_map, List.mem_filter, Prod.mk.injEq] at hmem
  obtain ⟨o, ⟨ho, hv⟩, hn, hc⟩ := hmem
  exact ⟨o, ho, hv, hn, hc⟩

theorem bestMatch_eq_none {oracles : List Oracle} {head : Bytes} :
    bestMatch oracles head = none ↔ ¬ Accepts oracles head := by
  constructor
  · rintro h ⟨o, ho, hv⟩
    have hne : ((oracles.filter fun o => o.verify head).map
        fun o => (o.name, o.confidence)) ≠ [] := by
      intro he
      have hmem : o ∈ oracles.filter fun o => o.verify head := List.mem_filter.mpr ⟨ho, hv⟩
      rw [List.map_eq_nil_iff.mp he] at hmem
      cases hmem
    obtain ⟨m, hm⟩ := @maxByKey_isSome _ (fun m : String × Confidence => m.2.rank) _ hne
    rw [bestMatch, hm] at h
    cases h
  · intro h
    cases hm : bestMatch oracles head with
    | none => rfl
    | some m =>
        obtain ⟨o, ho, hv, _, _⟩ := @bestMatch_some oracles head m.1 m.2 hm
        exact absurd ⟨o, ho, hv⟩ h

theorem accepts_iff_bestMatch {oracles : List Oracle} {head : Bytes} :
    Accepts oracles head ↔ ∃ name conf, bestMatch oracles head = some (name, conf) := by
  constructor
  · intro h
    cases hm : bestMatch oracles head with
    | none => exact absurd h (bestMatch_eq_none.mp hm)
    | some m => exact ⟨m.1, m.2, rfl⟩
  · rintro ⟨name, conf, h⟩
    obtain ⟨o, ho, hv, _, _⟩ := bestMatch_some h
    exact ⟨o, ho, hv⟩

def acceptedRanks (oracles : List Oracle) (plaintextHead : Bytes) : Set Nat :=
  {k | ∃ o ∈ oracles, o.verify plaintextHead = true ∧ o.confidence.rank = k}

theorem bestMatch_isGreatest {oracles : List Oracle} {head : Bytes} {name : String}
    {conf : Confidence} (h : bestMatch oracles head = some (name, conf)) :
    IsGreatest (acceptedRanks oracles head) conf.rank := by
  have hbest := maxByKey_isGreatest h
  have hranks : acceptedRanks oracles head = {k | ∃ m ∈ (oracles.filter fun o => o.verify head).map
      (fun o => (o.name, o.confidence)), m.2.rank = k} := by
    ext k
    simp [acceptedRanks, and_assoc]
  rw [hranks]
  exact hbest

/-- More oracles accept no less, and rate what they accept no lower. -/
theorem bestMatch_more {O₁ O₂ : List Oracle} (hsub : ∀ o ∈ O₁, o ∈ O₂) {head : Bytes}
    {name : String} {conf : Confidence} (h : bestMatch O₁ head = some (name, conf)) :
    ∃ name' conf', bestMatch O₂ head = some (name', conf') ∧ conf.rank ≤ conf'.rank := by
  obtain ⟨o, ho, hv, _⟩ := bestMatch_some h
  obtain ⟨name', conf', h'⟩ := accepts_iff_bestMatch.mp ⟨o, hsub o ho, hv⟩
  have hranks : acceptedRanks O₁ head ⊆ acceptedRanks O₂ head := by
    rintro k ⟨o, ho, hk⟩
    exact ⟨o, hsub o ho, hk⟩
  exact ⟨name', conf', h', (bestMatch_isGreatest h).mono (bestMatch_isGreatest h') hranks⟩

theorem Confidence.rank_inj {a b : Confidence} (h : a.rank = b.rank) : a = b := by
  cases a <;> cases b <;> first | rfl | cases h

/-- The rating depends on the set of the oracles alone. -/
theorem bestMatch_rating {O₁ O₂ : List Oracle} (hmem : ∀ o, o ∈ O₁ ↔ o ∈ O₂) (head : Bytes) :
    (bestMatch O₁ head).map Prod.snd = (bestMatch O₂ head).map Prod.snd := by
  cases h₁ : bestMatch O₁ head with
  | none =>
      have hnone : ¬ Accepts O₂ head := by
        rintro ⟨o, ho, hv⟩
        exact bestMatch_eq_none.mp h₁ ⟨o, (hmem o).mpr ho, hv⟩
      rw [bestMatch_eq_none.mpr hnone]
  | some m₁ =>
      obtain ⟨name₂, conf₂, h₂, hle⟩ := @bestMatch_more O₁ O₂ (fun o => (hmem o).mp) head m₁.1 m₁.2 h₁
      obtain ⟨name₁, conf₁, h₁', hge⟩ := bestMatch_more (fun o => (hmem o).mpr) h₂
      rw [h₁, Option.some.injEq] at h₁'
      rw [h₁'] at hle
      rw [h₁', h₂]
      exact congrArg some (Confidence.rank_inj (le_antisymm hle hge))

/-- The oracles judge a head once; what is then reported may hold more than the head. -/
def judge {α : Type} (oracles : List Oracle) (plaintextHead : Bytes)
    (report : String → Confidence → α) : Option α :=
  (bestMatch oracles plaintextHead).map fun m => report m.1 m.2

theorem judge_eq_some {α : Type} {oracles : List Oracle} {head : Bytes}
    {report : String → Confidence → α} {a : α} :
    judge oracles head report = some a ↔
      ∃ name conf, bestMatch oracles head = some (name, conf) ∧ report name conf = a := by
  simp only [judge, Option.map_eq_some_iff, Prod.exists]

theorem judge_eq_none {α : Type} {oracles : List Oracle} {head : Bytes}
    {report : String → Confidence → α} :
    judge oracles head report = none ↔ ¬ Accepts oracles head := by
  rw [judge, Option.map_eq_none_iff, bestMatch_eq_none]

end Memhunt
