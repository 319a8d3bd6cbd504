import Memhunt.KeySchedule.Exact
import Memhunt.Spec.Vectors

/-! Round keys inside a schedule are no master keys: the words behind one do not go on as its own
expansion would. -/
namespace Memhunt
open Rust
open Bytes (slice)
open Rijndael (Word wordsOf keyExpansion schedule rounds)

section Planted
variable {dump key : Bytes} {o nk : Nat}

/-- The words of memory behind a word of a planted schedule are the words of the schedule. -/
theorem wordsOf_planted (hschedule : slice dump o (schedule nk key).length = schedule nk key)
    {i n : Nat} (hinside : 4 * i + 4 * n ≤ (schedule nk key).length) :
    wordsOf (slice dump (o + 4 * i) (4 * n)) = slice (keyExpansion nk key) i n := by
  rw [← Bytes.slice_slice hinside, hschedule, schedule, Rijndael.wordsOf_slice]

theorem not_headAt_interior (hnk : nk ∈ keyWords) (hkey : key.length = 4 * nk)
    (hschedule : slice dump o (schedule nk key).length = schedule nk key) {i : Nat} (hpos : 0 < i)
    (hinside : i + nk + 4 ≤ 4 * (rounds nk + 1))
    (hboundary : (nk ∣ i ∧ i / nk ≤ 9) ∨ (nk = 8 ∧ i % 8 = 4)) : ¬ HeadAt dump nk (o + 4 * i) := by
  intro hat
  have hnkPos := pos_of_keyWords hnk
  have hlen := Rijndael.length_keyExpansion hkey
  have hbytes : (schedule nk key).length = 4 * (4 * (rounds nk + 1)) := by
    rw [schedule, Rijndael.length_bytesOf, hlen]
  have hwindow : (slice (keyExpansion nk key) i (nk + 4)).length = nk + 4 :=
    Bytes.length_slice (by omega)
  have hfollows := (follows_iff_headAt hat.1).mpr hat
  rw [wordsOf_planted hschedule (by omega)] at hfollows
  have hword := hfollows nk le_rfl (by omega)
  have hreal := Rijndael.follows_keyExpansion hkey (i + nk) (by omega) (by omega)
  have hsame : (slice (keyExpansion nk key) i (nk + 4))[nk]? = (keyExpansion nk key)[i + nk]? := by
    rw [slice, List.getElem?_take_of_lt (by omega), List.getElem?_drop]
  have hfront : (slice (keyExpansion nk key) i (nk + 4)).take nk =
      slice (keyExpansion nk key) i nk := by
    rw [slice, List.take_take, Nat.min_eq_left (by omega), slice]
  have hsplit : (keyExpansion nk key).take (i + nk) =
      (keyExpansion nk key).take i ++ slice (keyExpansion nk key) i nk := by
    rw [slice, List.take_add]
  have hnk' : (slice (keyExpansion nk key) i nk).length = nk := Bytes.length_slice (by omega)
  have hi : ((keyExpansion nk key).take i).length = i := List.length_take_of_le (by omega)
  rw [hsame, hreal, Option.some.injEq, hfront, hsplit, Rijndael.nextWord_append hnkPos _ hnk', hi,
    ← List.nil_append (slice (keyExpansion nk key) i nk),
    Rijndael.nextWord_append hnkPos [] hnk', List.length_nil, Nat.zero_add, List.nil_append] at hword
  exact Rijndael.mix_ne_first hnkPos hpos hboundary _ (Word.xor_left_cancel hword).symm

theorem reports_no_interior {hits : List KeyScheduleHit} {algo : String}
    (hheads : ReportsHeads dump hits nk algo) (hnk : nk ∈ keyWords) (hkey : key.length = 4 * nk)
    (hschedule : slice dump o (schedule nk key).length = schedule nk key) (step last : Nat)
    (hboundary : ∀ i, 1 ≤ i → i ≤ last → step * i + nk + 4 ≤ 4 * (rounds nk + 1) ∧ 0 < step * i ∧
      ((nk ∣ step * i ∧ step * i / nk ≤ 9) ∨ (nk = 8 ∧ step * i % 8 = 4))) :
    (∃ h ∈ hits, h.algo = algo ∧ h.offset = o ∧ h.keyHex = Hex.encode key) ∧
      ∀ i, 1 ≤ i → i ≤ last → ¬ ∃ h ∈ hits, h.algo = algo ∧ h.offset = o + 4 * step * i := by
  refine ⟨hheads.planted key o hkey hschedule, ?_⟩
  intro i hlow hhigh
  obtain ⟨hinside, hpos, hround⟩ := hboundary i hlow hhigh
  rw [hheads.found, Nat.mul_assoc]
  exact not_headAt_interior hnk hkey hschedule hpos hinside hround

end Planted

/-- The three key sizes: words and name, and the round boundaries behind which there is room for
another head, by their distance and number. -/
def scheduleSizes : List (Nat × String × Nat × Nat) :=
  [(4, "aes-128", 16, 9), (6, "aes-192", 24, 7), (8, "aes-256", 16, 12)]

/-- Where a whole schedule stands its key is reported, and at none of the boundaries inside it
another key of the same size. -/
theorem interior_not_reported (nk : Nat) (algo : String) (step last : Nat)
    (hsize : (nk, algo, step, last) ∈ scheduleSizes) (dump key : Bytes) (o : Nat)
    (hkey : key.length = 4 * nk)
    (hschedule : slice dump o (schedule nk key).length = schedule nk key) :
    ∃ r, scanKeySchedules dump = .ok r ∧
      (∃ h ∈ r.hits, h.algo = algo ∧ h.offset = o ∧ h.keyHex = Hex.encode key) ∧
      ∀ i, 1 ≤ i → i ≤ last → ¬ ∃ h ∈ r.hits, h.algo = algo ∧ h.offset = o + step * i := by
  obtain ⟨r, hr, h128, h192, h256, _⟩ := filter_hits dump
  refine ⟨r, hr, ?_⟩
  simp only [scheduleSizes, List.mem_cons, Prod.mk.injEq, List.not_mem_nil, or_false] at hsize
  rcases hsize with ⟨rfl, rfl, rfl, rfl⟩ | ⟨rfl, rfl, rfl, rfl⟩ | ⟨rfl, rfl, rfl, rfl⟩
  · refine reports_no_interior (reportsHeads_of_filter h128) (by decide) hkey hschedule 4 9 ?_
    intro i hlow hhigh
    exact ⟨by unfold rounds; omega, by omega, .inl ⟨Nat.dvd_mul_right 4 i, by omega⟩⟩
  · refine reports_no_interior (reportsHeads_of_filter h192) (by decide) hkey hschedule 6 7 ?_
    intro i hlow hhigh
    exact ⟨by unfold rounds; omega, by omega, .inl ⟨Nat.dvd_mul_right 6 i, by omega⟩⟩
  · refine reports_no_interior (reportsHeads_of_filter h256) (by decide) hkey hschedule 4 12 ?_
    intro i hlow hhigh
    exact ⟨by unfold rounds; omega, by omega, by omega⟩

theorem interior_not_reported_sample :
    ∃ r, scanKeySchedules (schedule 4 sampleKey) = .ok r ∧
      (∃ h ∈ r.hits, h.algo = "aes-128" ∧ h.offset = 0 ∧ h.keyHex = Hex.encode sampleKey) ∧
      ¬ ∃ h ∈ r.hits, h.algo = "aes-128" ∧ h.offset = 16 := by
  obtain ⟨r, hr, hfound, hinside⟩ := interior_not_reported 4 "aes-128" 16 9 (by decide)
    (schedule 4 sampleKey) sampleKey 0 (by decide)
    (by rw [slice, List.drop_zero, List.take_length])
  exact ⟨r, hr, hfound, hinside 1 le_rfl (by omega)⟩

end Memhunt
