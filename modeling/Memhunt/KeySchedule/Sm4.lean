import Memhunt.KeySchedule.Exact
import Memhunt.Lib.Sm4

/-! The SM4 part of the schedule scan against the key expansion: the four words updated in place are
the first four round keys, and a key with the first of them behind it is what the scan reports. -/
namespace Memhunt
open Rust
open Bytes (slice)

theorem sm4Sbox_eq (b : UInt8) : sm4Sbox b = Sm4.sbox b := by
  have table : sm4SboxTable.toList =
      (List.range 256).map fun n => Sm4.sbox (UInt8.ofNat n) := by decide +kernel
  exact table_get table b

theorem sm4TPrime_eq (a : UInt32) : sm4TPrime a = Sm4.tPrime a := by
  have htau : sm4Tau a = Sm4.tau a := by
    rw [sm4Tau, Sm4.tau, Sm4.wordOf, funext sm4Sbox_eq]
  rw [sm4TPrime, Sm4.tPrime, htau]
  rfl

theorem sm4Ck_eq : ∀ i : Fin 32, sm4Ck.get i = Sm4.ck i := by decide +kernel

section RoundKeys

def masterWords (mk : Vector UInt32 4) (i : Nat) : UInt32 := mk.toList.getD i 0

theorem masterWords_eq (mk : Vector UInt32 4) (j : Fin 4) : masterWords mk j = mk.get j := by
  have hlt : (j : Nat) < mk.toList.length := by simp
  rw [masterWords, List.getD_eq_getElem _ _ hlt]
  simp [Vector.get]

theorem get_sm4Update (k : Vector UInt32 4) (j i : Fin 4) : (sm4Update k j).get i =
    if i = j then k.get j ^^^ Sm4.tPrime (sm4Input k j) else k.get i := by
  have hget : ∀ v : Vector UInt32 4, v.get i = v[(i : Nat)] := fun _ => rfl
  have hset : sm4Update k j = k.set j (k.get j ^^^ Sm4.tPrime (sm4Input k j)) := by
    rw [← sm4TPrime_eq]
    rfl
  rw [hset, hget, hget, Vector.getElem_set]
  simp only [Fin.ext_iff, eq_comm]

/-- Invariant of the updates: the first `n` words have moved on by four places of the recurrence and
the others are still where they began. -/
def Advanced (words : Nat → UInt32) (n : Nat) (k : Vector UInt32 4) : Prop :=
  ∀ i : Fin 4, k.get i = Sm4.keyWord words (if i < n then i + 4 else i)

section Update
variable {words : Nat → UInt32} {k : Vector UInt32 4}

/-- An update reads the three words after its own, going round, and these are by then the words of
the recurrence that it needs. -/
theorem sm4Input_eq (j : Fin 4) (h : Advanced words j k) : sm4Input k j =
    Sm4.keyWord words (j + 1) ^^^ Sm4.keyWord words (j + 2) ^^^ Sm4.keyWord words (j + 3) ^^^
      Sm4.ck j := by
  have h0 := h 0
  have h1 := h 1
  have h2 := h 2
  have h3 := h 3
  have hck0 : sm4Ck.get 0 = Sm4.ck 0 := sm4Ck_eq 0
  have hck1 : sm4Ck.get 1 = Sm4.ck 1 := sm4Ck_eq 1
  have hck2 : sm4Ck.get 2 = Sm4.ck 2 := sm4Ck_eq 2
  have hck3 : sm4Ck.get 3 = Sm4.ck 3 := sm4Ck_eq 3
  fin_cases j
  · change k.get 1 ^^^ k.get 2 ^^^ k.get 3 ^^^ sm4Ck.get 0 = _
    rw [h1, h2, h3, hck0]
    rfl
  · change k.get 2 ^^^ k.get 3 ^^^ k.get 0 ^^^ sm4Ck.get 1 = _
    rw [h2, h3, h0, hck1]
    rfl
  · change k.get 3 ^^^ k.get 0 ^^^ k.get 1 ^^^ sm4Ck.get 2 = _
    rw [h3, h0, h1, hck2]
    rfl
  · change k.get 0 ^^^ k.get 1 ^^^ k.get 2 ^^^ sm4Ck.get 3 = _
    rw [h0, h1, h2, hck3]
    rfl

theorem advanced_sm4Update (j : Fin 4) (h : Advanced words j k) :
    Advanced words (j + 1) (sm4Update k j) := by
  intro i
  rw [get_sm4Update, sm4Input_eq j h]
  rcases lt_trichotomy i j with hlt | rfl | hgt
  · have hbefore : (i : Nat) < j := hlt
    rw [if_neg hlt.ne, h i, if_pos hbefore, if_pos (Nat.lt_succ_of_lt hbefore)]
  · rw [if_pos rfl, h i, if_neg (lt_irrefl _), if_pos (Nat.lt_succ_self _)]
    rfl
  · have hge : ¬ (i : Nat) < j + 1 := Nat.not_lt.mpr hgt
    have hnot : ¬ (i : Nat) < j := Nat.not_lt.mpr hgt.le
    rw [if_neg hgt.ne', h i, if_neg hnot, if_neg hge]

end Update

theorem sm4RoundKeys_eq (mk : Vector UInt32 4) (j : Fin 4) :
    (sm4RoundKeys mk).get j = Sm4.keyWord (masterWords mk) (j + 4) := by
  have hstart : Advanced (masterWords mk) 0
      #v[mk[0] ^^^ sm4Fk[0], mk[1] ^^^ sm4Fk[1], mk[2] ^^^ sm4Fk[2], mk[3] ^^^ sm4Fk[3]] := by
    have m0 := masterWords_eq mk 0
    have m1 := masterWords_eq mk 1
    have m2 := masterWords_eq mk 2
    have m3 := masterWords_eq mk 3
    intro i
    fin_cases i
    · exact congrArg (· ^^^ Sm4.fk 0) m0.symm
    · exact congrArg (· ^^^ Sm4.fk 1) m1.symm
    · exact congrArg (· ^^^ Sm4.fk 2) m2.symm
    · exact congrArg (· ^^^ Sm4.fk 3) m3.symm
  have hend := advanced_sm4Update 3 (advanced_sm4Update 2
    (advanced_sm4Update 1 (advanced_sm4Update 0 hstart)))
  have hlt : (j : Nat) < 4 := j.isLt
  exact (hend j).trans (congrArg _ (if_pos hlt))

theorem rk0Bytes_eq (key : Bytes) : rk0Bytes key = Bytes.toBE 4 (Sm4.roundKey key 0).toNat := by
  have hround := sm4RoundKeys_eq #v[beWord key 0, beWord key 4, beWord key 8, beWord key 12] 0
  have hwords : Sm4.keyWord (masterWords #v[beWord key 0, beWord key 4, beWord key 8,
      beWord key 12]) 4 = Sm4.roundKey key 0 := rfl
  exact congrArg (fun k => Bytes.toBE 4 (UInt32.toNat k)) (hround.trans hwords)

end RoundKeys

section Reports
variable {dump : Bytes}

def sm4Hit (dump : Bytes) (offset : Nat) : KeyScheduleHit where
  algo := "sm4"
  offset := offset
  keyHex := Hex.encode (slice dump offset 16)
  wordsValidated := 1

theorem mem_sm4Hits {h : KeyScheduleHit} :
    h ∈ sm4Hits dump ↔ ∃ o, Sm4HeadAt dump o ∧ sm4Hit dump o = h :=
  Windows.mem_search_marked (P := Sm4HeadAt dump) (g := sm4Hit dump) fun _ hat => hat.1

theorem sm4Hits_increasing (dump : Bytes) :
    ((sm4Hits dump).map fun h => h.offset).Pairwise (· < ·) :=
  Windows.search_marked_increasing (P := Sm4HeadAt dump) (g := sm4Hit dump) _ fun _ => rfl

theorem sm4HeadAt_planted {before key after : Bytes} (hkey : key.length = 16)
    (hdump : dump = before ++ key ++ Bytes.toBE 4 (Sm4.roundKey key 0).toNat ++ after) :
    Sm4HeadAt dump before.length ∧ slice dump before.length 16 = key := by
  have hback : dump.drop before.length =
      key ++ (Bytes.toBE 4 (Sm4.roundKey key 0).toNat ++ after) := by
    rw [hdump, List.append_assoc, List.append_assoc, List.drop_left]
  have hslice : slice dump before.length 16 = key := by
    rw [slice, hback, List.take_left' hkey]
  have hround : slice dump (before.length + 16) 4 =
      Bytes.toBE 4 (Sm4.roundKey key 0).toNat := by
    rw [slice, ← List.drop_drop, hback, List.drop_left' hkey,
      List.take_left' (Bytes.length_toBE 4 _)]
  refine ⟨⟨?_, ?_⟩, hslice⟩
  · simp only [hdump, List.length_append, Bytes.length_toBE, hkey]
    omega
  · rw [hround, hslice, rk0Bytes_eq]

end Reports

/-- What the scan reports of SM4: the offsets of a key with its first round key behind it, strictly
increasing and so each once, with the key found there. -/
structure ReportsSm4 (dump : Bytes) (hits : List KeyScheduleHit) : Prop where
  found : ∀ o, (∃ h ∈ hits, h.algo = "sm4" ∧ h.offset = o) ↔ o + 20 ≤ dump.length ∧
    slice dump (o + 16) 4 = Bytes.toBE 4 (Sm4.roundKey (slice dump o 16) 0).toNat
  key : ∀ h ∈ hits, h.algo = "sm4" → h.keyHex = Hex.encode (slice dump h.offset 16)
  increasing : ((hits.filter fun h => h.algo = "sm4").map fun h => h.offset).Pairwise (· < ·)
  planted : ∀ before key after, key.length = 16 →
    dump = before ++ key ++ Bytes.toBE 4 (Sm4.roundKey key 0).toNat ++ after →
    ∃ h ∈ hits, h.algo = "sm4" ∧ h.offset = before.length ∧ h.keyHex = Hex.encode key

theorem reportsSm4_of_filter {dump : Bytes} {hits : List KeyScheduleHit}
    (h : (hits.filter fun h => h.algo = "sm4") = sm4Hits dump) : ReportsSm4 dump hits := by
  have hhits := mem_hits_iff h fun _ => mem_sm4Hits
  constructor
  case found =>
    intro o
    rw [← rk0Bytes_eq]
    exact exists_hit_iff hhits (fun _ => rfl) o
  case key =>
    intro g hg halgo
    obtain ⟨o, _, rfl⟩ := (hhits g).mp ⟨hg, halgo⟩
    rfl
  case increasing =>
    rw [h]
    exact sm4Hits_increasing dump
  case planted =>
    intro before key after hkey hdump
    obtain ⟨hat, hslice⟩ := sm4HeadAt_planted hkey hdump
    obtain ⟨hmem, halgo⟩ := (hhits _).mpr ⟨_, hat, rfl⟩
    exact ⟨_, hmem, halgo, rfl, congrArg Hex.encode hslice⟩

/-- The words of the check are the first four round keys of the expansion, and the scan reports an
SM4 key where the first of them stands behind one. -/
theorem sm4_schedules_exact :
    (∀ (mk : Vector UInt32 4) (j : Fin 4),
      (sm4RoundKeys mk).get j = Sm4.keyWord (masterWords mk) (j + 4)) ∧
    ∀ dump : Bytes, ∃ r, scanKeySchedules dump = .ok r ∧ ReportsSm4 dump r.hits := by
  refine ⟨sm4RoundKeys_eq, ?_⟩
  intro dump
  obtain ⟨r, hr, _, _, _, hsm4⟩ := filter_hits dump
  exact ⟨r, hr, reportsSm4_of_filter hsm4⟩

end Memhunt
