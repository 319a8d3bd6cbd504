import Memhunt.KeySchedule.Sm4
import Memhunt.Spec.Vectors

/-! A dump searched for key schedules piece by piece, where every window of the dump lies in some
piece. -/
namespace Memhunt
open Rust
open Bytes (slice)

/-- The hit as it reads with `n` more bytes in front of the dump. -/
def KeyScheduleHit.shift (n : Nat) (h : KeyScheduleHit) : KeyScheduleHit :=
  { h with offset := n + h.offset }

section Pieces
variable {dump : Bytes} {pieces : List (Nat × Nat)}

/-- A mark that needs `n` bytes and sees nothing else is found in the pieces. -/
theorem marked_pieces {P : Bytes → Nat → Prop} {hit : Bytes → Nat → KeyScheduleHit} {n : Nat}
    (hfits : ∀ d o, P d o → o + n ≤ d.length)
    (hlocal : ∀ p ∈ pieces, ∀ o, o + n ≤ p.2 → (P (slice dump p.1 p.2) o ↔ P dump (p.1 + o)) ∧
      hit dump (p.1 + o) = (hit (slice dump p.1 p.2) o).shift p.1)
    (hcovers : Windows.Covers pieces n dump.length) (h : KeyScheduleHit) :
    (∃ o, P dump o ∧ hit dump o = h) ↔
      ∃ p ∈ pieces, ∃ h', (∃ o, P (slice dump p.1 p.2) o ∧ hit (slice dump p.1 p.2) o = h') ∧
        h = h'.shift p.1 := by
  constructor
  · rintro ⟨o, hat, rfl⟩
    obtain ⟨p, hp, hstart, hend⟩ := hcovers.windows o (hfits dump o hat)
    obtain ⟨hmark, hhit⟩ := hlocal p hp (o - p.1) (by omega)
    rw [Nat.add_sub_cancel' hstart] at hmark hhit
    exact ⟨p, hp, _, ⟨o - p.1, hmark.mpr hat, rfl⟩, hhit⟩
  · rintro ⟨p, hp, _, ⟨o, hat, rfl⟩, rfl⟩
    have hsize := hfits _ o hat
    rw [Bytes.length_slice (hcovers.within p hp)] at hsize
    obtain ⟨hmark, hhit⟩ := hlocal p hp o hsize
    exact ⟨p.1 + o, hmark.mp hat, hhit⟩

theorem headHits_pieces {nk : Nat} (algo : String)
    (hcovers : Windows.Covers pieces (4 * (nk + 4)) dump.length) (h : KeyScheduleHit) :
    h ∈ headHits dump nk algo ↔
      ∃ p ∈ pieces, ∃ h' ∈ headHits (slice dump p.1 p.2) nk algo, h = h'.shift p.1 := by
  simp only [mem_headHits]
  refine @marked_pieces dump pieces (fun d o => HeadAt d nk o) (fun d o => headHit d nk algo o) _
    (fun _ _ hat => hat.1) ?_ hcovers h
  intro p hp o ho
  have hkey : slice (slice dump p.1 p.2) o (4 * nk) = slice dump (p.1 + o) (4 * nk) :=
    Bytes.slice_slice (by omega)
  have hhead : slice (slice dump p.1 p.2) (o + 4 * nk) 16 = slice dump (p.1 + o + 4 * nk) 16 := by
    rw [Bytes.slice_slice (by omega), Nat.add_assoc]
  have hlen := Bytes.length_slice (hcovers.within p hp)
  have hwithin := hcovers.within p hp
  constructor
  · rw [HeadAt, HeadAt, hkey, hhead, hlen, and_iff_right ho, and_iff_right (by omega)]
  · rw [headHit, headHit, hkey, KeyScheduleHit.shift]

theorem sm4Hits_pieces (hcovers : Windows.Covers pieces 20 dump.length) (h : KeyScheduleHit) :
    h ∈ sm4Hits dump ↔
      ∃ p ∈ pieces, ∃ h' ∈ sm4Hits (slice dump p.1 p.2), h = h'.shift p.1 := by
  simp only [mem_sm4Hits]
  refine @marked_pieces dump pieces Sm4HeadAt sm4Hit _ (fun _ _ hat => hat.1) ?_ hcovers h
  intro p hp o ho
  have hkey : slice (slice dump p.1 p.2) o 16 = slice dump (p.1 + o) 16 :=
    Bytes.slice_slice (by omega)
  have hround : slice (slice dump p.1 p.2) (o + 16) 4 = slice dump (p.1 + o + 16) 4 := by
    rw [Bytes.slice_slice (by omega), Nat.add_assoc]
  have hlen := Bytes.length_slice (hcovers.within p hp)
  have hwithin := hcovers.within p hp
  constructor
  · rw [Sm4HeadAt, Sm4HeadAt, hkey, hround, hlen, and_iff_right ho, and_iff_right (by omega)]
  · rw [sm4Hit, sm4Hit, hkey, KeyScheduleHit.shift]

end Pieces

/-- The key schedules of a dump are those of its pieces, at the offsets they have in the dump. -/
theorem key_schedules_in_pieces (dump : Bytes) (pieces : List (Nat × Nat))
    (hcovers : ∀ n ∈ [20, 32, 40, 48], Windows.Covers pieces n dump.length) :
    ∃ r, scanKeySchedules dump = .ok r ∧ ∃ part : Nat × Nat → KeyScheduleResult,
      (∀ p, scanKeySchedules (slice dump p.1 p.2) = .ok (part p)) ∧
      ∀ h, h ∈ r.hits ↔ ∃ p ∈ pieces, ∃ h' ∈ (part p).hits, h = h'.shift p.1 := by
  obtain ⟨r, hr, hhits⟩ := scanKeySchedules_ok dump
  choose part hpart hparts using fun p : Nat × Nat => scanKeySchedules_ok (slice dump p.1 p.2)
  refine ⟨r, hr, part, hpart, ?_⟩
  intro h
  have h128 := @headHits_pieces dump pieces 4 "aes-128" (hcovers 32 (by decide)) h
  have h192 := @headHits_pieces dump pieces 6 "aes-192" (hcovers 40 (by decide)) h
  have h256 := @headHits_pieces dump pieces 8 "aes-256" (hcovers 48 (by decide)) h
  have hsm4 := sm4Hits_pieces (hcovers 20 (by decide)) h
  simp only [hhits, hparts, List.mem_append, h128, h192, h256, hsm4, or_and_right, exists_or,
    and_or_left]

/-- A schedule that begins in the first sixteen bytes and goes on behind them. -/
def scheduleDump : Bytes := List.replicate 10 0 ++ (Rijndael.schedule 4 sampleKey).take 54

theorem key_schedules_in_pieces_sample :
    ∃ part : Nat × Nat → KeyScheduleResult,
      (∀ p, scanKeySchedules (slice scheduleDump p.1 p.2) = .ok (part p)) ∧
      ∃ p ∈ Windows.pieces 16 47 64, ∃ h' ∈ (part p).hits,
        h'.algo = "aes-128" ∧ p.1 + h'.offset = 10 := by
  have hhits : (scanKeySchedules scheduleDump).map (fun r => r.hits.map fun h =>
      (h.algo, h.offset)) = .ok [("aes-128", 10)] := by decide +kernel
  obtain ⟨r, hr, part, hpart, hpieces⟩ :=
    key_schedules_in_pieces scheduleDump (Windows.pieces 16 47 64) fun n hn =>
      Windows.covers_pieces (by decide) ((by decide : ∀ n ∈ [20, 32, 40, 48], n ≤ 48) n hn) 64
  obtain ⟨r', hr', hlist⟩ := ok_of_map hhits
  obtain rfl := Except.ok.inj (hr.symm.trans hr')
  have hmem : ("aes-128", 10) ∈ r.hits.map fun h => (h.algo, h.offset) :=
    hlist ▸ List.mem_singleton_self _
  obtain ⟨h, hh, hfields⟩ := List.mem_map.mp hmem
  obtain ⟨halgo, hoffset⟩ := Prod.mk.inj hfields
  obtain ⟨p, hp, h', hh', rfl⟩ := (hpieces h).mp hh
  exact ⟨part, hpart, p, hp, h', hh', halgo, hoffset⟩

end Memhunt
