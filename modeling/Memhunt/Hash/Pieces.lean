import Memhunt.Hash.Search

/-! A dump searched for hashes piece by piece, where every window of the dump lies in some piece. -/
namespace Memhunt
open Rust
open Bytes (slice)

/-- The hit as it reads with `n` more bytes in front of the dump. -/
def HashHit.shift (n : Nat) (h : HashHit) : HashHit := { h with offset := n + h.offset }

section Pieces
variable {dump target : Bytes} {pieces : List (Nat × Nat)}

theorem searchHits_pieces (value : Bytes → Bytes) (algo kind : String) {lengths : List Nat}
    (hcovers : ∀ n ∈ lengths, Windows.Covers pieces n dump.length) (h : HashHit) :
    h ∈ searchHits value target algo kind dump lengths ↔
      ∃ p ∈ pieces, ∃ h' ∈ searchHits value target algo kind (slice dump p.1 p.2) lengths,
        h = h'.shift p.1 := by
  simp only [mem_searchHits]
  constructor
  · rintro ⟨len, hlen, o, ho, hmatch, rfl⟩
    obtain ⟨p, hp, hstart, hend⟩ := (hcovers len hlen).windows o ho
    have hfits : o - p.1 + len ≤ p.2 := by omega
    have hslice : slice (slice dump p.1 p.2) (o - p.1) len = slice dump o len := by
      rw [Bytes.slice_slice hfits, Nat.add_sub_cancel' hstart]
    refine ⟨p, hp, _, ⟨len, hlen, o - p.1, ?_, ?_, rfl⟩, ?_⟩
    · rwa [Bytes.length_slice ((hcovers len hlen).within p hp)]
    · rwa [hslice]
    · rw [HashHit.shift, hslice, Nat.add_sub_cancel' hstart]
  · rintro ⟨p, hp, _, ⟨len, hlen, o, ho, hmatch, rfl⟩, rfl⟩
    have hwithin := (hcovers len hlen).within p hp
    rw [Bytes.length_slice hwithin] at ho
    rw [Bytes.slice_slice ho] at hmatch ⊢
    exact ⟨len, hlen, p.1 + o, by omega, hmatch, rfl⟩

end Pieces

/-- Both searches can be run piece by piece: what they find in the dump is what they find in the
pieces, at the offsets it has in the dump. -/
theorem hash_scans_in_pieces (crates : HashCrates) (dump target message : Bytes)
    (algos : List HashAlgoSpec) (algo : HashAlgoSpec) (config : HashScanConfig)
    (pieces : List (Nat × Nat)) (hmin : 1 ≤ config.lengths.min) (hmax : config.maxHits = 0)
    (hcovers : ∀ n ∈ config.lengths.withCommon, Windows.Covers pieces n dump.length) :
    (∀ r, scanPreimages crates dump target algos config = .ok r →
      ∃ part : Nat × Nat → HashScanResult,
        (∀ p, scanPreimages crates (slice dump p.1 p.2) target algos config = .ok (part p)) ∧
        ∀ h, h ∈ r.hits ↔ ∃ p ∈ pieces, ∃ h' ∈ (part p).hits, h = h'.shift p.1) ∧
    ∀ r, scanHmacKeys crates dump algo message target config = .ok r →
      ∃ part : Nat × Nat → HashScanResult,
        (∀ p, scanHmacKeys crates (slice dump p.1 p.2) algo message target config =
          .ok (part p)) ∧
        ∀ h, h ∈ r.hits ↔ ∃ p ∈ pieces, ∃ h' ∈ (part p).hits, h = h'.shift p.1 := by
  constructor
  · intro r hr
    have hne := target_of_scanPreimages hr
    have hlen := lengths_of_scanPreimages hmax hr
    have hscan := fun d => @scanPreimages_ok crates d target config algos hmin hmax hne hlen
    choose part hpart hhits using fun p : Nat × Nat => hscan (slice dump p.1 p.2)
    have hcovered : ∀ n ∈ config.lengths.lengths, Windows.Covers pieces n dump.length :=
      fun n hn => hcovers n (mem_withCommon.mpr (.inl (mem_lengths.mp hn)))
    have hpieces : ∀ (a : HashAlgoSpec) (h : HashHit),
        h ∈ preimageHits crates dump target config.lengths a ↔ ∃ p ∈ pieces,
          ∃ h' ∈ preimageHits crates (slice dump p.1 p.2) target config.lengths a,
            h = h'.shift p.1 :=
      fun a => searchHits_pieces _ a.label "preimage" hcovered
    refine ⟨part, hpart, ?_⟩
    intro h
    obtain ⟨r', hr', hhits'⟩ := hscan dump
    obtain rfl := Except.ok.inj (hr.symm.trans hr')
    simp only [hhits', hhits, List.mem_flatMap, hpieces]
    constructor
    · rintro ⟨a, ha, p, hp, h', hh', heq⟩
      exact ⟨p, hp, h', ⟨a, ha, hh'⟩, heq⟩
    · rintro ⟨p, hp, h', ⟨a, ha, hh'⟩, heq⟩
      exact ⟨a, ha, p, hp, h', hh', heq⟩
  · intro r hr
    have hlen : target.length = algo.outputLen := by
      by_contra hne
      obtain ⟨m, hm⟩ := @scanHmacKeys_errs crates dump target message config algo hne
      rw [hr] at hm
      cases hm
    have hroom := room_of_scanHmacKeys hr
    have hscan := fun d => @scanHmacKeys_ok crates d target message config algo hmin hroom hlen
    choose part hpart hhits using fun p : Nat × Nat => hscan (slice dump p.1 p.2)
    refine ⟨part, hpart, ?_⟩
    intro h
    obtain ⟨r', hr', hhits'⟩ := hscan dump
    obtain rfl := Except.ok.inj (hr.symm.trans hr')
    simp only [hhits', hhits]
    exact searchHits_pieces _ algo.label "hmac_key" hcovers h

theorem covers_oneByte : ∀ n ∈ oneByte.withCommon,
    Windows.Covers (Windows.pieces 1 64 2) n sampleDump.length := by
  intro n hn
  refine Windows.covers_pieces (by decide) ?_ 2
  have hle : ∀ n ∈ oneByte.withCommon, n ≤ 64 + 1 := by decide
  exact hle n hn

theorem hash_scans_in_pieces_sample :
    ∃ part : Nat × Nat → HashScanResult, ∀ p, scanPreimages sampleHashes (slice sampleDump p.1 p.2)
      sampleDigest [.md5] { lengths := oneByte, maxHits := 0 } = .ok (part p) := by
  obtain ⟨r, hr⟩ : ∃ r, scanPreimages sampleHashes sampleDump sampleDigest [.md5]
      { lengths := oneByte, maxHits := 0 } = .ok r := ⟨_, rfl⟩
  obtain ⟨part, hpart, _⟩ := (hash_scans_in_pieces sampleHashes sampleDump sampleDigest sampleMessage
    [.md5] .md5 { lengths := oneByte, maxHits := 0 } (Windows.pieces 1 64 2) (by decide) rfl
    covers_oneByte).1 r hr
  exact ⟨part, hpart⟩

end Memhunt
