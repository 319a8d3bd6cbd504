import Memhunt.KeySchedule.Scan

/-! The schedule scan against the key expansion: checking the words of memory against each other is
computing the expansion of the key in front of them. -/
namespace Memhunt
open Rust
open Bytes (slice)
open Recurrence (Follows)
open Rijndael (Word nextWord wordsOf bytesOf keyExpansion schedule)

theorem table_get {f : UInt8 → UInt8} {table : Vector UInt8 256}
    (h : table.toList = (List.range 256).map fun n => f (UInt8.ofNat n)) (b : UInt8) :
    table.get ⟨b.toNat, b.toNat_lt⟩ = f b := by
  have hget : table.toList[b.toNat]? = some (table.get ⟨b.toNat, b.toNat_lt⟩) := by
    rw [Vector.getElem?_toList]
    exact Vector.getElem?_eq_getElem b.toNat_lt
  rw [h, List.getElem?_map, List.getElem?_range b.toNat_lt, Option.map_some,
    UInt8.ofNat_toNat] at hget
  exact (Option.some.inj hget).symm

theorem sbox_eq (b : UInt8) : sbox b = Rijndael.subByte b := by
  have table : sboxTable.toList =
      (List.range 256).map fun n => Rijndael.subByte (UInt8.ofNat n) := by decide +kernel
  exact table_get table b

theorem rconAt_eq {j : Nat} (h : j < 11) : rconAt j = UInt8.ofNat (Rijndael.xtime^[j] 1) := by
  have table : ∀ j < 11, rconAt j = UInt8.ofNat (Rijndael.xtime^[j] 1) := by decide
  exact table j h

theorem subWord_eq (w : Word) : subWord w = w.sub := by
  simp only [subWord, Word.sub, sbox_eq]

def keyWords : List Nat := [4, 6, 8]

theorem pos_of_keyWords {nk : Nat} (h : nk ∈ keyWords) : 0 < nk := by
  have hall : ∀ n ∈ keyWords, 0 < n := by decide
  exact hall nk h

section Words
variable {words : List Word} {nk : Nat}

theorem expandWord_ok {i : Nat} (hnk : nk ∈ keyWords) (hi : nk ≤ i) (hlt : i < words.length)
    (hround : i / nk < 12) : expandWord words i nk = .ok (nextWord nk (words.take i)) := by
  have hpos := pos_of_keyWords hnk
  have hlong : (6 < nk ∧ i % nk = 4) ↔ (nk = 8 ∧ i % 8 = 4) := by
    simp only [keyWords, List.mem_cons, List.not_mem_nil, or_false] at hnk
    rcases hnk with rfl | rfl | rfl <;> simp
  have hget : ∀ j < i, words[j]? = some ((words.take i).getD j default) := by
    intro j hj
    have hjlt : j < words.length := by omega
    rw [List.getD_eq_getElem?_getD, List.getElem?_take_of_lt hj, List.getElem?_eq_getElem hjlt,
      Option.getD_some]
  have hprev := hget (i - 1) (by omega)
  have hearlier := hget (i - nk) (by omega)
  have hlen : (words.take i).length = i := List.length_take_of_le hlt.le
  simp only [expandWord, index_ok hprev, index_ok hearlier, ok_bind, pure_eq, nextWord, hlen, hlong]
  congr 2
  by_cases hdvd : nk ∣ i
  · have hquot : 0 < i / nk := Nat.div_pos hi hpos
    rw [if_pos hdvd, if_pos (Nat.mod_eq_zero_of_dvd hdvd), rconAt_eq (by omega), subWord_eq]
    simp [Word.xor, Rijndael.rcon, Word.rot]
  · rw [if_neg hdvd, if_neg (mt Nat.dvd_of_mod_eq_zero hdvd), subWord_eq]

theorem wordsFollow_ok {is : List Nat} (hnk : nk ∈ keyWords)
    (his : ∀ i ∈ is, nk ≤ i ∧ i < words.length ∧ i / nk < 12) :
    wordsFollow words nk is =
      .ok (is.all fun i => words[i]? = some (nextWord nk (words.take i))) := by
  induction is with
  | nil => rfl
  | cons i is ih =>
      obtain ⟨⟨hi, hlt, hround⟩, hrest⟩ := List.forall_mem_cons.mp his
      have hget : words[i]? = some words[i] := List.getElem?_eq_getElem hlt
      rw [wordsFollow, expandWord_ok hnk hi hlt hround, index_ok hget, ok_bind, ok_bind, ih hrest,
        List.all_cons, hget, pure_eq]
      by_cases heq : nextWord nk (words.take i) = words[i]
      · simp [heq]
      · simp [heq, Ne.symm heq]

end Words

section Heads
variable {dump : Bytes} {offset nk : Nat}

theorem readWord_ok {b0 b1 b2 b3 : UInt8} {rest : Bytes}
    (h : dump.drop offset = b0 :: b1 :: b2 :: b3 :: rest) :
    readWord dump offset = .ok ⟨b0, b1, b2, b3⟩ := by
  have hget : ∀ j, dump[offset + j]? = (b0 :: b1 :: b2 :: b3 :: rest)[j]? := by
    intro j
    rw [← h, List.getElem?_drop]
  have h0 : dump[offset]? = some b0 := hget 0
  have h1 : dump[offset + 1]? = some b1 := hget 1
  have h2 : dump[offset + 2]? = some b2 := hget 2
  have h3 : dump[offset + 3]? = some b3 := hget 3
  simp only [readWord, index_ok h0, index_ok h1, index_ok h2, index_ok h3, ok_bind, pure_eq]

theorem exists_four {bs : Bytes} (h : 4 ≤ bs.length) :
    ∃ b0 b1 b2 b3 rest, bs = b0 :: b1 :: b2 :: b3 :: rest := by
  match bs, h with
  | b0 :: b1 :: b2 :: b3 :: rest, _ => exact ⟨b0, b1, b2, b3, rest, rfl⟩

theorem readWords_ok {n : Nat} (h : offset + 4 * n ≤ dump.length) :
    ((List.range n).mapM fun i => readWord dump (offset + i * 4)) =
      .ok (wordsOf (slice dump offset (4 * n))) := by
  induction n generalizing offset with
  | zero => rfl
  | succ n ih =>
      have hfour : 4 ≤ (dump.drop offset).length := by
        rw [List.length_drop]
        omega
      obtain ⟨b0, b1, b2, b3, rest, hd⟩ := exists_four hfour
      have hrest : dump.drop (offset + 4) = rest := by
        rw [← List.drop_drop, hd]
        rfl
      have hwords : wordsOf (slice dump offset (4 * (n + 1))) =
          ⟨b0, b1, b2, b3⟩ :: wordsOf (slice dump (offset + 4) (4 * n)) := by
        rw [slice, slice, hd, hrest, Nat.mul_succ]
        rfl
      have hshift : (fun i => readWord dump (offset + i * 4)) ∘ Nat.succ =
          fun i => readWord dump (offset + 4 + i * 4) := by
        funext i
        rw [Function.comp_apply, Nat.succ_mul, Nat.add_comm (i * 4), Nat.add_assoc]
      rw [List.range_succ_eq_map, List.mapM_cons, List.mapM_map, Nat.zero_mul, Nat.add_zero,
        readWord_ok hd, ok_bind, hshift, ih (by omega), ok_bind, hwords, pure_eq]

/-- A key of `nk` words at the offset, and behind it the four words that its expansion goes on
with. -/
def HeadAt (dump : Bytes) (nk offset : Nat) : Prop :=
  offset + 4 * (nk + 4) ≤ dump.length ∧
    slice dump (offset + 4 * nk) 16 =
      bytesOf (((keyExpansion nk (slice dump offset (4 * nk))).drop nk).take 4)

instance : Decidable (HeadAt dump nk offset) :=
  inferInstanceAs (Decidable (_ ∧ _))

theorem length_wordsAt (h : offset + 4 * (nk + 4) ≤ dump.length) :
    (wordsOf (slice dump offset (4 * (nk + 4)))).length = nk + 4 :=
  Rijndael.length_wordsOf (Bytes.length_slice h)

/-- The words at the offset follow one by one exactly where a schedule begins there. -/
theorem follows_iff_headAt (h : offset + 4 * (nk + 4) ≤ dump.length) :
    Follows (nextWord nk) nk (wordsOf (slice dump offset (4 * (nk + 4)))) ↔
      HeadAt dump nk offset := by
  have hkey : (slice dump offset (4 * nk)).length = 4 * nk := Bytes.length_slice (by omega)
  have hhead : (slice dump (offset + 4 * nk) 16).length = 4 * 4 := Bytes.length_slice (by omega)
  have hsum : 4 * nk + 16 = 4 * (nk + 4) := by omega
  have hfollows := Rijndael.follows_key_iff hkey hhead (by unfold Rijndael.rounds; omega)
  rw [← Bytes.slice_append, hsum] at hfollows
  exact hfollows.trans (and_iff_right h).symm

theorem scheduleHeadValid_ok (hnk : nk ∈ keyWords) :
    scheduleHeadValid dump offset nk = .ok (if HeadAt dump nk offset then some 4 else none) := by
  have hpos : 0 < nk := pos_of_keyWords hnk
  unfold scheduleHeadValid
  by_cases hlen : dump.length < offset + (nk + 4) * 4
  · have hno : ¬ HeadAt dump nk offset := fun h => absurd h.1 (by omega)
    rw [if_pos hlen, if_neg hno]
  · have hsize : offset + 4 * (nk + 4) ≤ dump.length := by omega
    have hwords := length_wordsAt hsize
    have his : ∀ i ∈ List.range' nk (nk + 4 - nk), nk ≤ i ∧
        i < (wordsOf (slice dump offset (4 * (nk + 4)))).length ∧ i / nk < 12 := by
      intro i hi
      rw [List.mem_range'_1] at hi
      rw [hwords]
      refine ⟨hi.1, by omega, ?_⟩
      rw [Nat.div_lt_iff_lt_mul hpos]
      omega
    have hcheck : ((List.range' nk (nk + 4 - nk)).all fun i =>
        decide ((wordsOf (slice dump offset (4 * (nk + 4))))[i]? =
          some (nextWord nk ((wordsOf (slice dump offset (4 * (nk + 4)))).take i)))) =
        decide (HeadAt dump nk offset) := by
      rw [Bool.eq_iff_iff, List.all_eq_true, decide_eq_true_iff, ← follows_iff_headAt hsize,
        Follows, hwords]
      simp only [decide_eq_true_iff, List.mem_range'_1]
      constructor
      · intro h i hi hlt
        exact h i ⟨hi, by omega⟩
      · intro h i hi
        exact h i hi.1 (by omega)
    simp only [hlen, if_false, readWords_ok hsize, ok_bind, wordsFollow_ok hnk his, pure_eq, hcheck]
    by_cases hat : HeadAt dump nk offset
    · simp [hat]
    · simp [hat]

end Heads

/-- The hit at one offset. -/
def headHit (dump : Bytes) (nk : Nat) (algo : String) (offset : Nat) : KeyScheduleHit where
  algo := algo
  offset := offset
  keyHex := Hex.encode (slice dump offset (4 * nk))
  wordsValidated := 4 + nk

def headHits (dump : Bytes) (nk : Nat) (algo : String) : List KeyScheduleHit :=
  Windows.search (fun (_, offset) =>
    if HeadAt dump nk offset then some (headHit dump nk algo offset) else none) (4 * (nk + 4)) dump

theorem scanKeySize_ok {nk : Nat} (dump : Bytes) (algo : String) (hnk : nk ∈ keyWords) :
    ∃ tried, scanKeySize dump nk algo = .ok (headHits dump nk algo, tried) := by
  unfold scanKeySize
  by_cases hlen : dump.length < (nk + 4) * 4
  · have hnone : headHits dump nk algo = [] := Windows.search_short (by omega)
    rw [hnone]
    exact ⟨0, if_pos hlen⟩
  · refine ⟨dump.length + 1 - (nk + 4) * 4, ?_⟩
    simp only [hlen, if_false]
    rw [headHits, Nat.mul_comm 4 (nk + 4)]
    refine Windows.visit_ok (by omega) ?_
    intro o ho
    have hslice := Bytes.length_slice ho
    have hkey : (slice dump o ((nk + 4) * 4)).take (nk * 4) = slice dump o (4 * nk) := by
      rw [Nat.mul_comm nk 4]
      exact Bytes.slice_slice (i := 0) (by omega)
    rw [scheduleHeadValid_ok hnk, ok_bind]
    by_cases hat : HeadAt dump nk o
    · simp only [hat, if_true]
      rw [sliceTo_ok (by omega), ok_bind, pure_eq, hkey, headHit]
    · simp only [hat, if_false]
      rfl

section Sm4
variable {dump : Bytes} {offset : Nat}

def Sm4HeadAt (dump : Bytes) (offset : Nat) : Prop :=
  offset + 20 ≤ dump.length ∧
    slice dump (offset + 16) 4 = rk0Bytes (slice dump offset 16)

instance : Decidable (Sm4HeadAt dump offset) :=
  inferInstanceAs (Decidable (_ ∧ _))

theorem sliceRange_slice {n : Nat} (h : offset + n ≤ dump.length) :
    sliceRange dump offset (offset + n) = .ok (slice dump offset n) := by
  rw [sliceRange_ok (Nat.le_add_right offset n) h, Nat.add_sub_cancel_left, slice]

theorem sm4ScheduleHeadValid_ok :
    sm4ScheduleHeadValid dump offset = .ok (if Sm4HeadAt dump offset then some 1 else none) := by
  unfold sm4ScheduleHeadValid
  by_cases hlen : dump.length < offset + 20
  · have hno : ¬ Sm4HeadAt dump offset := fun h => absurd h.1 (by omega)
    rw [if_pos hlen, if_neg hno]
  · have hkey : sliceRange dump offset (offset + 16) = .ok (slice dump offset 16) :=
      sliceRange_slice (by omega)
    have hactual : sliceRange dump (offset + 16) (offset + 20) = .ok (slice dump (offset + 16) 4) :=
      sliceRange_slice (n := 4) (by omega)
    have hat : Sm4HeadAt dump offset ↔
        slice dump (offset + 16) 4 = rk0Bytes (slice dump offset 16) :=
      and_iff_right (by omega)
    simp only [hlen, if_false, hkey, hactual, ok_bind, pure_eq, hat]

def sm4Hits (dump : Bytes) : List KeyScheduleHit :=
  Windows.search (fun (_, offset) =>
    if Sm4HeadAt dump offset then
      some { algo := "sm4", offset, keyHex := Hex.encode (slice dump offset 16), wordsValidated := 1 }
    else none) 20 dump

theorem scanSm4Schedules_ok (dump : Bytes) :
    ∃ tried, scanSm4Schedules dump = .ok (sm4Hits dump, tried) := by
  unfold scanSm4Schedules
  by_cases hlen : dump.length < 20
  · have hnone : sm4Hits dump = [] := Windows.search_short hlen
    rw [hnone]
    exact ⟨0, if_pos hlen⟩
  · refine ⟨dump.length + 1 - 20, ?_⟩
    simp only [hlen, if_false]
    refine Windows.visit_ok (by omega) ?_
    intro o ho
    rw [sm4ScheduleHeadValid_ok, ok_bind]
    by_cases hat : Sm4HeadAt dump o
    · simp only [hat, if_true]
      rw [sliceRange_slice (by omega), ok_bind, pure_eq]
    · simp only [hat, if_false]
      rfl

end Sm4

theorem scanKeySchedules_ok (dump : Bytes) :
    ∃ r, scanKeySchedules dump = .ok r ∧ r.hits = headHits dump 4 "aes-128" ++
      headHits dump 6 "aes-192" ++ headHits dump 8 "aes-256" ++ sm4Hits dump := by
  obtain ⟨n128, h128⟩ := @scanKeySize_ok 4 dump "aes-128" (by decide)
  obtain ⟨n192, h192⟩ := @scanKeySize_ok 6 dump "aes-192" (by decide)
  obtain ⟨n256, h256⟩ := @scanKeySize_ok 8 dump "aes-256" (by decide)
  obtain ⟨nSm4, hSm4⟩ := scanSm4Schedules_ok dump
  simp only [scanKeySchedules, List.mapM_cons, List.mapM_nil, h128, h192, h256, hSm4, ok_bind,
    pure_eq]
  refine ⟨_, rfl, ?_⟩
  simp

/-- What the scan reports of one key size: the offsets of its schedule heads, strictly increasing
and so each once, with the key found there. -/
structure ReportsHeads (dump : Bytes) (hits : List KeyScheduleHit) (nk : Nat) (algo : String) :
    Prop where
  found : ∀ o, (∃ h ∈ hits, h.algo = algo ∧ h.offset = o) ↔ HeadAt dump nk o
  key : ∀ h ∈ hits, h.algo = algo → h.keyHex = Hex.encode (slice dump h.offset (4 * nk))
  increasing : ((hits.filter fun h => h.algo = algo).map fun h => h.offset).Pairwise (· < ·)
  planted : ∀ key o, key.length = 4 * nk →
    slice dump o (schedule nk key).length = schedule nk key →
    ∃ h ∈ hits, h.algo = algo ∧ h.offset = o ∧ h.keyHex = Hex.encode key

theorem mem_headHits {dump : Bytes} {nk : Nat} {algo : String} {h : KeyScheduleHit} :
    h ∈ headHits dump nk algo ↔ ∃ o, HeadAt dump nk o ∧ headHit dump nk algo o = h :=
  Windows.mem_search_marked fun _ hat => hat.1

theorem headHits_increasing (dump : Bytes) (nk : Nat) (algo : String) :
    ((headHits dump nk algo).map fun h => h.offset).Pairwise (· < ·) :=
  Windows.search_marked_increasing _ fun _ => rfl

/-- A whole schedule begins with a head. -/
theorem headAt_of_schedule {dump key : Bytes} {nk o : Nat} (hkey : key.length = 4 * nk)
    (h : slice dump o (schedule nk key).length = schedule nk key) :
    HeadAt dump nk o ∧ slice dump o (4 * nk) = key := by
  have hlen : (schedule nk key).length = 4 * (4 * (Rijndael.rounds nk + 1)) := by
    rw [schedule, Rijndael.length_bytesOf, Rijndael.length_keyExpansion hkey]
  have hfits : 4 * (nk + 4) ≤ (schedule nk key).length := by
    rw [hlen]
    unfold Rijndael.rounds
    omega
  have hdump : o + (schedule nk key).length ≤ dump.length := by
    have := congrArg List.length h
    rw [slice, List.length_take, List.length_drop] at this
    omega
  have hpiece : ∀ i m, i + m ≤ (schedule nk key).length →
      slice dump (o + i) m = slice (schedule nk key) i m := by
    intro i m him
    conv_rhs => rw [← h]
    exact (Bytes.slice_slice him).symm
  have hstart : slice dump o (4 * nk) = key := by
    refine (hpiece 0 (4 * nk) (by omega)).trans ?_
    rw [Rijndael.schedule_eq hkey, slice, List.drop_zero, List.take_left' hkey]
  refine ⟨⟨by omega, ?_⟩, hstart⟩
  rw [hstart, hpiece (4 * nk) 16 (by omega), Rijndael.schedule_eq hkey, slice,
    List.drop_left' hkey]
  exact Rijndael.take_bytesOf _ 4

section Filtered
variable {hits found : List KeyScheduleHit} {algo : String} {P : Nat → Prop}
  {hitAt : Nat → KeyScheduleHit}

theorem mem_hits_iff (hfilter : (hits.filter fun h => h.algo = algo) = found)
    (hfound : ∀ h, h ∈ found ↔ ∃ o, P o ∧ hitAt o = h) (h : KeyScheduleHit) :
    (h ∈ hits ∧ h.algo = algo) ↔ ∃ o, P o ∧ hitAt o = h := by
  rw [← hfound, ← hfilter, List.mem_filter, decide_eq_true_iff]

theorem exists_hit_iff (hhits : ∀ h, (h ∈ hits ∧ h.algo = algo) ↔ ∃ o, P o ∧ hitAt o = h)
    (hoffset : ∀ o, (hitAt o).offset = o) (o : Nat) :
    (∃ h ∈ hits, h.algo = algo ∧ h.offset = o) ↔ P o := by
  constructor
  · rintro ⟨h, hmem, halgo, rfl⟩
    obtain ⟨o, hat, rfl⟩ := (hhits h).mp ⟨hmem, halgo⟩
    rwa [hoffset]
  · intro hat
    obtain ⟨hmem, halgo⟩ := (hhits (hitAt o)).mpr ⟨o, hat, rfl⟩
    exact ⟨hitAt o, hmem, halgo, hoffset o⟩

end Filtered

theorem reportsHeads_of_filter {dump : Bytes} {hits : List KeyScheduleHit} {nk : Nat}
    {algo : String} (h : (hits.filter fun h => h.algo = algo) = headHits dump nk algo) :
    ReportsHeads dump hits nk algo := by
  have hhits := mem_hits_iff h fun _ => mem_headHits
  constructor
  case found => exact exists_hit_iff hhits fun _ => rfl
  case key =>
    intro g hg halgo
    obtain ⟨o, _, rfl⟩ := (hhits g).mp ⟨hg, halgo⟩
    rfl
  case increasing =>
    rw [h]
    exact headHits_increasing dump nk algo
  case planted =>
    intro key o hkey hschedule
    obtain ⟨hat, hslice⟩ := headAt_of_schedule hkey hschedule
    obtain ⟨hmem, halgo⟩ := (hhits _).mpr ⟨o, hat, rfl⟩
    exact ⟨_, hmem, halgo, rfl, congrArg Hex.encode hslice⟩

theorem filter_algo {hits : List KeyScheduleHit} {a b : String} (h : ∀ g ∈ hits, g.algo = a) :
    (hits.filter fun g => g.algo = b) = if a = b then hits else [] := by
  by_cases hab : a = b
  · rw [if_pos hab, List.filter_eq_self.mpr (fun g hg => decide_eq_true ((h g hg).trans hab))]
  · rw [if_neg hab, List.filter_eq_nil_iff]
    intro g hg
    rw [decide_eq_true_iff, h g hg]
    exact hab

theorem algo_of_mem_headHits {dump : Bytes} {nk : Nat} {algo : String} :
    ∀ g ∈ headHits dump nk algo, g.algo = algo := by
  intro g hg
  obtain ⟨o, _, rfl⟩ := mem_headHits.mp hg
  rfl

theorem algo_of_mem_sm4Hits {dump : Bytes} : ∀ g ∈ sm4Hits dump, g.algo = "sm4" := by
  intro g hg
  obtain ⟨o, _, ho⟩ := Windows.mem_search.mp hg
  obtain ⟨_, heq⟩ := Option.ite_none_right_eq_some.mp ho
  rw [← Option.some.inj heq]

/-- What the scan reports, one kind of key at a time. -/
theorem filter_hits (dump : Bytes) : ∃ r, scanKeySchedules dump = .ok r ∧
    (r.hits.filter fun g => g.algo = "aes-128") = headHits dump 4 "aes-128" ∧
    (r.hits.filter fun g => g.algo = "aes-192") = headHits dump 6 "aes-192" ∧
    (r.hits.filter fun g => g.algo = "aes-256") = headHits dump 8 "aes-256" ∧
    (r.hits.filter fun g => g.algo = "sm4") = sm4Hits dump := by
  obtain ⟨r, hr, hhits⟩ := scanKeySchedules_ok dump
  have hfilter : ∀ b, (r.hits.filter fun g => g.algo = b) =
      (if "aes-128" = b then headHits dump 4 "aes-128" else []) ++
      (if "aes-192" = b then headHits dump 6 "aes-192" else []) ++
      (if "aes-256" = b then headHits dump 8 "aes-256" else []) ++
      (if "sm4" = b then sm4Hits dump else []) := by
    intro b
    rw [hhits, List.filter_append, List.filter_append, List.filter_append,
      filter_algo algo_of_mem_headHits, filter_algo algo_of_mem_headHits,
      filter_algo algo_of_mem_headHits, filter_algo algo_of_mem_sm4Hits]
  refine ⟨r, hr, ?_, ?_, ?_, ?_⟩
  · simp [hfilter]
  · simp [hfilter]
  · simp [hfilter]
  · simp [hfilter]

/-- For each of the three key sizes the scan reports the heads of its schedules. -/
theorem key_schedules_exact (dump : Bytes) :
    ∃ r, scanKeySchedules dump = .ok r ∧ ReportsHeads dump r.hits 4 "aes-128" ∧
      ReportsHeads dump r.hits 6 "aes-192" ∧ ReportsHeads dump r.hits 8 "aes-256" := by
  obtain ⟨r, hr, h128, h192, h256, _⟩ := filter_hits dump
  exact ⟨r, hr, reportsHeads_of_filter h128, reportsHeads_of_filter h192,
    reportsHeads_of_filter h256⟩

end Memhunt
