import Memhunt.Hash.Hits
import Memhunt.Lib.Collect

/-! The hash searches as wholes: which windows one algorithm reports, what a list of algorithms
reports, and what the limit does. -/
namespace Memhunt
open Rust

section Preimages
variable {crates : HashCrates} {dump target message : Bytes} {config : HashScanConfig}
  {algos : List HashAlgoSpec} {algo : HashAlgoSpec}

def preimagePart (crates : HashCrates) (dump target : Bytes) (config : HashScanConfig)
    (algo : HashAlgoSpec) : Run (Option (List HashHit)) :=
  (preimagesOf crates dump target config algo).map fun found => some found.1

/-- The loop gathers the algorithms' hits; the window count never changes what is found. -/
theorem preimageLoop_hits (algos : List HashAlgoSpec) (hits : List HashHit) (tried : Nat) :
    (preimageLoop crates dump target config algos hits tried).map Prod.fst =
      Collect.collect config.maxHits (preimagePart crates dump target config) algos hits := by
  induction algos generalizing hits tried with
  | nil => rfl
  | cons algo algos ih =>
      cases hfound : preimagesOf crates dump target config algo with
      | error e =>
          simp only [preimageLoop, Collect.collect, preimagePart, hfound, error_bind, Except.map]
      | ok found =>
          have hpart : preimagePart crates dump target config algo = .ok (some found.1) := by
            rw [preimagePart, hfound]
            rfl
          simp only [preimageLoop, Collect.collect, hpart, hfound, ok_bind]
          by_cases hfull : 0 < config.maxHits ∧ config.maxHits ≤ (hits ++ found.1).length
          · rw [if_pos hfull, if_pos hfull]
            rfl
          · rw [if_neg hfull, if_neg hfull]
            exact ih (hits ++ found.1) (tried + found.2)

theorem scanPreimages_hits (hne : target ≠ []) :
    (scanPreimages crates dump target algos config).map HashScanResult.hits =
      Collect.collect config.maxHits (preimagePart crates dump target config) algos [] := by
  have hsome : target.isEmpty = false := by simpa using hne
  rw [← preimageLoop_hits algos [] 0]
  simp only [scanPreimages, hsome, Bool.false_eq_true, if_false]
  cases preimageLoop crates dump target config algos [] 0 with
  | error s => rfl
  | ok found => rfl

theorem target_of_scanPreimages {r : HashScanResult}
    (h : scanPreimages crates dump target algos config = .ok r) : target ≠ [] := by
  rintro rfl
  cases h

theorem collect_of_scanPreimages {r : HashScanResult}
    (h : scanPreimages crates dump target algos config = .ok r) :
    Collect.collect config.maxHits (preimagePart crates dump target config) algos [] =
      .ok r.hits := by
  rw [← scanPreimages_hits (target_of_scanPreimages h), h]
  rfl

theorem scanPreimages_of_collect (hne : target ≠ []) {hits : List HashHit}
    (h : Collect.collect config.maxHits (preimagePart crates dump target config) algos [] =
      .ok hits) :
    ∃ r, scanPreimages crates dump target algos config = .ok r ∧ r.hits = hits := by
  rw [← scanPreimages_hits hne] at h
  cases hr : scanPreimages crates dump target algos config with
  | error s =>
      rw [hr] at h
      cases h
  | ok r =>
      rw [hr] at h
      exact ⟨r, rfl, Except.ok.inj h⟩

theorem preimagePart_ok (hmin : 1 ≤ config.lengths.min) (hlen : target.length = algo.outputLen) :
    preimagePart crates dump target config algo =
      .ok (some (preimageHits crates dump target config.lengths algo)) := by
  obtain ⟨n, hn⟩ := @preimagesOf_ok crates dump target config algo hmin hlen
  rw [preimagePart, hn]
  rfl

/-- One listed algorithm of another output length fails the whole search. -/
theorem lengths_of_scanPreimages (hmax : config.maxHits = 0) {r : HashScanResult}
    (h : scanPreimages crates dump target algos config = .ok r) :
    ∀ algo ∈ algos, target.length = algo.outputLen := by
  intro algo hmem
  have hcollect := collect_of_scanPreimages h
  rw [hmax] at hcollect
  obtain ⟨part, hpart⟩ := Collect.parts_ok_of_collect hcollect algo hmem
  by_contra hlen
  obtain ⟨m, hm⟩ := @preimagesOf_errs crates dump target config algo hlen
  rw [preimagePart, hm] at hpart
  cases hpart

theorem scanPreimages_ok (hmin : 1 ≤ config.lengths.min) (hmax : config.maxHits = 0)
    (hne : target ≠ []) (hlen : ∀ algo ∈ algos, target.length = algo.outputLen) :
    ∃ r, scanPreimages crates dump target algos config = .ok r ∧
      r.hits = algos.flatMap (preimageHits crates dump target config.lengths) := by
  have hparts : ∀ algo ∈ algos, preimagePart crates dump target config algo =
      .ok (some (preimageHits crates dump target config.lengths algo)) :=
    fun algo hmem => preimagePart_ok hmin (hlen algo hmem)
  have hcollect := Collect.collect_of_parts_ok (fun algo hmem => ⟨_, hparts algo hmem⟩) []
  rw [← hmax, List.nil_append] at hcollect
  obtain ⟨r, hr, hhits⟩ := scanPreimages_of_collect hne hcollect
  refine ⟨r, hr, hhits.trans ?_⟩
  apply List.flatMap_congr
  intro algo hmem
  rw [Collect.contribution, hparts algo hmem]

theorem ne_nil_of_length (hlen : target.length = algo.outputLen) : target ≠ [] := by
  rintro rfl
  have := algo.outputLen_pos
  simp only [List.length_nil] at hlen
  omega

theorem scanPreimages_limit {lengths : LengthRange} {r : HashScanResult}
    (h : scanPreimages crates dump target algos { lengths, maxHits := 0 } = .ok r) {n : Nat}
    (hn : 0 < n) :
    ∃ rn, scanPreimages crates dump target algos { lengths, maxHits := n } = .ok rn ∧
      rn.hits = r.hits.take n :=
  scanPreimages_of_collect (target_of_scanPreimages h)
    (Collect.collect_limit hn (by simpa using hn) (collect_of_scanPreimages h))

end Preimages

/-- The preimage search returns, and reports exactly the windows that match. -/
def PreimagesExact (crates : HashCrates) (dump target : Bytes) (algo : HashAlgoSpec)
    (config : HashScanConfig) : Prop :=
  ∃ r, scanPreimages crates dump target [algo] config = .ok r ∧
    ReportsExactly dump r.hits algo.label "preimage" fun offset length =>
      (config.lengths.min ≤ length ∧ length ≤ config.lengths.max) ∧
        offset + length ≤ dump.length ∧
        algo.digest crates (Bytes.slice dump offset length) = target

/-- The key search returns, and reports exactly the windows that match. -/
def KeysExact (crates : HashCrates) (dump target message : Bytes) (algo : HashAlgoSpec)
    (config : HashScanConfig) : Prop :=
  ∃ r, scanHmacKeys crates dump algo message target config = .ok r ∧
    ReportsExactly dump r.hits algo.label "hmac_key" fun offset length =>
      ((config.lengths.min ≤ length ∧ length ≤ config.lengths.max) ∨
        length ∈ [16, 24, 32, 64]) ∧
        offset + length ≤ dump.length ∧
        algo.hmac crates (Bytes.slice dump offset length) message = target

/-- Both searches report exactly the windows that match, each once: the preimage search whatever the
range, the key search exactly where there is room for its list of lengths. -/
theorem hash_scans_exact_iff (crates : HashCrates) (dump target message : Bytes)
    (algo : HashAlgoSpec) (config : HashScanConfig) (hmin : 1 ≤ config.lengths.min)
    (hmax : config.maxHits = 0) (hlen : target.length = algo.outputLen) :
    PreimagesExact crates dump target algo config ∧
      (KeysExact crates dump target message algo config ↔ config.lengths.Room) := by
  refine ⟨?_, ?_, ?_⟩
  · have hall : ∀ a ∈ [algo], target.length = a.outputLen := by
      intro a ha
      rw [List.mem_singleton.mp ha]
      exact hlen
    obtain ⟨r, hr, hhits⟩ := @scanPreimages_ok crates dump target config [algo] hmin hmax
      (ne_nil_of_length hlen) hall
    refine ⟨r, hr, ?_⟩
    rw [hhits, List.flatMap_singleton]
    simp only [← mem_lengths]
    exact reportsExactly_searchHits nodup_lengths
  · rintro ⟨r, hr, _⟩
    exact room_of_scanHmacKeys hr
  · intro hroom
    obtain ⟨r, hr, hhits⟩ :=
      @scanHmacKeys_ok crates dump target message config algo hmin hroom hlen
    refine ⟨r, hr, ?_⟩
    rw [hhits]
    simp only [← mem_withCommon]
    exact reportsExactly_searchHits nodup_withCommon

/-- MD5 on the one-byte window the samples search, and HMAC-MD5 of a message under it as the key;
everywhere else they answer zeros. -/
def sampleHashes : HashCrates where
  md5 :=
    { digest := fun data =>
        if data = [0x6b] then
          ⟨[0x8c, 0xe4, 0xb1, 0x6b, 0x22, 0xb5, 0x88, 0x94, 0xaa, 0x86, 0xc4, 0x21, 0xe8, 0x75,
            0x9d, 0xf3], by decide⟩
        else ⟨List.replicate 16 0, by decide⟩
      hmac := fun key message =>
        if key = [0x6b] ∧ message = [0x68, 0x65, 0x6c, 0x6c, 0x6f] then
          ⟨[0xa0, 0xa8, 0x48, 0x96, 0x98, 0x4b, 0x64, 0x7d, 0x4a, 0x58, 0x3b, 0x61, 0x24, 0x42,
            0xd2, 0x6d], by decide⟩
        else ⟨List.replicate 16 0, by decide⟩ }
  sha1 := { digest := fun _ => ⟨List.replicate 20 0, by decide⟩
            hmac := fun _ _ => ⟨List.replicate 20 0, by decide⟩ }
  sha256 := { digest := fun _ => ⟨List.replicate 32 0, by decide⟩
              hmac := fun _ _ => ⟨List.replicate 32 0, by decide⟩ }
  sm3 := { digest := fun _ => ⟨List.replicate 32 0, by decide⟩
           hmac := fun _ _ => ⟨List.replicate 32 0, by decide⟩ }

/-- The same byte twice. -/
def sampleDump : Bytes := [0x6b, 0x6b]

def sampleMessage : Bytes := [0x68, 0x65, 0x6c, 0x6c, 0x6f]

def sampleDigest : Bytes := (HashAlgoSpec.md5).digest sampleHashes [0x6b]

def sampleMac : Bytes := (HashAlgoSpec.md5).hmac sampleHashes [0x6b] sampleMessage

def oneByte : LengthRange := { min := 1, max := 1 }

/-- Every length from 1 on that a word can hold. -/
def everyLength : LengthRange := { min := 1, max := 2 ^ 64 - 1 }

theorem hash_scans_exact_sample :
    ∃ r, scanHmacKeys sampleHashes sampleDump .md5 sampleMessage sampleMac
      { lengths := oneByte, maxHits := 0 } = .ok r ∧
      ∃ h ∈ r.hits, h.offset = 1 ∧ h.length = 1 := by
  obtain ⟨r, hr, hexact⟩ := (hash_scans_exact_iff sampleHashes sampleDump sampleMac sampleMessage
    .md5 { lengths := oneByte, maxHits := 0 } (by decide) rfl (by decide +kernel)).2.mpr (by decide)
  exact ⟨r, hr, (hexact.found 1 1).mpr (by decide +kernel)⟩

/-- The range of all lengths has no room, with the key in the dump and a MAC of the right length. -/
theorem every_length_overflows :
    scanHmacKeys sampleHashes sampleDump .md5 sampleMessage sampleMac
        { lengths := everyLength, maxHits := 0 } = crash .capacityOverflow ∧
      ¬ KeysExact sampleHashes sampleDump sampleMac sampleMessage .md5
        { lengths := everyLength, maxHits := 0 } := by
  have hroom : ¬ everyLength.Room := by decide
  have hpanics : scanHmacKeys sampleHashes sampleDump .md5 sampleMessage sampleMac
      { lengths := everyLength, maxHits := 0 } = crash .capacityOverflow :=
    scanHmacKeys_overflow hroom (by decide +kernel)
  refine ⟨hpanics, ?_⟩
  rintro ⟨r, hr, _⟩
  rw [hpanics] at hr
  cases hr

/-- The search succeeds, and reports the hits of the listed algorithms that the length of the target
leaves, in the order of the list. -/
def UsesApplicable (crates : HashCrates) (dump target : Bytes) (algos : List HashAlgoSpec)
    (config : HashScanConfig) : Prop :=
  ∃ r parts, scanPreimages crates dump target algos config = .ok r ∧ r.hits = parts.flatten ∧
    List.Forall₂ (fun algo part =>
      ∃ ra, scanPreimages crates dump target [algo] config = .ok ra ∧ ra.hits = part)
      (algos.filter fun algo => target.length = algo.outputLen) parts

/-- A search uses every applicable algorithm exactly where no other one is listed: the check of the
length ends the whole search, not the turn of the algorithm. -/
theorem preimages_use_applicable_iff (crates : HashCrates) (dump target : Bytes)
    (algos : List HashAlgoSpec) (config : HashScanConfig) (hmin : 1 ≤ config.lengths.min)
    (hmax : config.maxHits = 0) (happ : ∃ algo ∈ algos, target.length = algo.outputLen) :
    UsesApplicable crates dump target algos config ↔
      ∀ algo ∈ algos, target.length = algo.outputLen := by
  constructor
  · rintro ⟨r, _, hr, _⟩
    exact lengths_of_scanPreimages hmax hr
  · intro hlen
    obtain ⟨algo, _, halgo⟩ := happ
    have hne := ne_nil_of_length halgo
    obtain ⟨r, hr, hhits⟩ := @scanPreimages_ok crates dump target config algos hmin hmax hne hlen
    refine ⟨r, algos.map (preimageHits crates dump target config.lengths), hr, ?_, ?_⟩
    · rw [hhits, List.flatMap_def]
    · rw [List.filter_eq_self.mpr (fun a ha => decide_eq_true (hlen a ha)),
        List.forall₂_map_right_iff, List.forall₂_same]
      intro a ha
      have hone : ∀ b ∈ [a], target.length = b.outputLen := by
        intro b hb
        rw [List.mem_singleton.mp hb]
        exact hlen a ha
      obtain ⟨ra, hra, hhits⟩ := @scanPreimages_ok crates dump target config [a] hmin hmax hne hone
      exact ⟨ra, hra, hhits.trans (List.flatMap_singleton _ a)⟩

theorem preimages_use_applicable_sample :
    UsesApplicable sampleHashes sampleDump sampleDigest [.md5, .md5]
      { lengths := oneByte, maxHits := 0 } :=
  (preimages_use_applicable_iff _ _ _ _ _ (by decide) rfl
    ⟨.md5, by decide, by decide +kernel⟩).mpr (by decide +kernel)

/-- The default list, with the MD5 digest of a byte of the dump. -/
theorem default_list_rejected :
    scanPreimages sampleHashes sampleDump sampleDigest [.md5, .sha1, .sha256, .sm3]
        { lengths := oneByte, maxHits := 0 } =
      fail "target digest length 16 does not match sha1 output length 20" ∧
    ¬ UsesApplicable sampleHashes sampleDump sampleDigest [.md5, .sha1, .sha256, .sm3]
      { lengths := oneByte, maxHits := 0 } := by
  have hfails : scanPreimages sampleHashes sampleDump sampleDigest [.md5, .sha1, .sha256, .sm3]
      { lengths := oneByte, maxHits := 0 } =
      fail "target digest length 16 does not match sha1 output length 20" := by decide +kernel
  refine ⟨hfails, ?_⟩
  rintro ⟨r, _, hr, _⟩
  rw [hfails] at hr
  exact fail_ne_ok _ _ hr

/-- The windows of the dump that are keys of the target MAC. -/
def keyMatches (crates : HashCrates) (dump target message : Bytes) (algo : HashAlgoSpec)
    (lengths : LengthRange) : Finset (Nat × Nat) :=
  (Finset.range (dump.length + 1) ×ˢ Finset.range (dump.length + 1)).filter fun w =>
    ((lengths.min ≤ w.2 ∧ w.2 ≤ lengths.max) ∨ w.2 ∈ [16, 24, 32, 64]) ∧
      w.1 + w.2 ≤ dump.length ∧ algo.hmac crates (Bytes.slice dump w.1 w.2) message = target

theorem card_keyMatches (crates : HashCrates) (dump target message : Bytes) (algo : HashAlgoSpec)
    (lengths : LengthRange) :
    (keyMatches crates dump target message algo lengths).card =
      (keyHits crates dump target message lengths algo).length := by
  have hexact : ReportsExactly dump (keyHits crates dump target message lengths algo) algo.label
      "hmac_key" fun offset length => length ∈ lengths.withCommon ∧
        offset + length ≤ dump.length ∧
        algo.hmac crates (Bytes.slice dump offset length) message = target :=
    reportsExactly_searchHits nodup_withCommon
  have hset : keyMatches crates dump target message algo lengths =
      ((keyHits crates dump target message lengths algo).map fun h =>
        (h.offset, h.length)).toFinset := by
    ext ⟨offset, length⟩
    have hfound := hexact.found offset length
    simp only [keyMatches, Finset.mem_filter, Finset.mem_product, Finset.mem_range,
      List.mem_toFinset, List.mem_map, Prod.mk.injEq, hfound, mem_withCommon]
    constructor
    · exact And.right
    · intro h
      exact ⟨⟨by omega, by omega⟩, h⟩
  rw [hset, List.toFinset_card_of_nodup hexact.once, List.length_map]

/-- With the limit both searches return the first hits of the search without one. -/
def LimitHonoured (crates : HashCrates) (dump target message : Bytes)
    (algos : List HashAlgoSpec) (algo : HashAlgoSpec) (lengths : LengthRange) (n : Nat) : Prop :=
  (∀ r, scanPreimages crates dump target algos { lengths, maxHits := 0 } = .ok r →
    ∃ rn, scanPreimages crates dump target algos { lengths, maxHits := n } = .ok rn ∧
      rn.hits = r.hits.take n) ∧
  ∀ r, scanHmacKeys crates dump algo message target { lengths, maxHits := 0 } = .ok r →
    ∃ rn, scanHmacKeys crates dump algo message target { lengths, maxHits := n } = .ok rn ∧
      rn.hits = r.hits.take n

/-- The key search does not look at the limit: where it returns at all, the limit is honoured exactly
if it is not reached. -/
theorem limit_honoured_iff (crates : HashCrates) (dump target message : Bytes)
    (algos : List HashAlgoSpec) (algo : HashAlgoSpec) (lengths : LengthRange) (n : Nat)
    (hmin : 1 ≤ lengths.min) (hn : 0 < n) :
    LimitHonoured crates dump target message algos algo lengths n ↔
      (lengths.Room → (keyMatches crates dump target message algo lengths).card ≤ n) := by
  rw [card_keyMatches]
  have hpreimages : ∀ r, scanPreimages crates dump target algos { lengths, maxHits := 0 } = .ok r →
      ∃ rn, scanPreimages crates dump target algos { lengths, maxHits := n } = .ok rn ∧
        rn.hits = r.hits.take n := fun r hr => scanPreimages_limit hr hn
  by_cases hroom : lengths.Room
  · simp only [hroom, true_imp_iff]
    by_cases hlen : target.length = algo.outputLen
    · have hfinds : ∀ limit, ∃ r,
          scanHmacKeys crates dump algo message target { lengths, maxHits := limit } = .ok r ∧
            r.hits = keyHits crates dump target message lengths algo :=
        fun limit => scanHmacKeys_ok hmin hroom hlen
      obtain ⟨r, hr, hhits⟩ := hfinds 0
      obtain ⟨rn, hrn, hhitsn⟩ := hfinds n
      constructor
      · rintro ⟨_, hkeys⟩
        obtain ⟨rn', hrn', htake⟩ := hkeys r hr
        obtain rfl := Except.ok.inj (hrn.symm.trans hrn')
        rw [hhitsn, hhits] at htake
        have hcut := congrArg List.length htake
        rw [List.length_take] at hcut
        omega
      · intro hfew
        refine ⟨hpreimages, fun r' hr' => ⟨rn, hrn, ?_⟩⟩
        obtain rfl := Except.ok.inj (hr.symm.trans hr')
        rw [hhitsn, hhits, List.take_of_length_le hfew]
    · have hnone : keyHits crates dump target message lengths algo = [] := by
        apply List.eq_nil_iff_forall_not_mem.mpr
        intro h hmem
        obtain ⟨_, _, _, _, hmatch, _⟩ := mem_searchHits.mp hmem
        exact hlen (hmatch ▸ HashAlgoSpec.length_hmac crates _ message algo)
      rw [hnone]
      refine iff_of_true ⟨hpreimages, fun r hr => ?_⟩ (Nat.zero_le n)
      obtain ⟨m, hm⟩ :=
        @scanHmacKeys_errs crates dump target message { lengths, maxHits := 0 } algo hlen
      rw [hm] at hr
      exact absurd hr (fail_ne_ok m r)
  · exact iff_of_true ⟨hpreimages, fun r hr => absurd (room_of_scanHmacKeys hr) hroom⟩
      fun h => absurd h hroom

theorem limit_honoured_sample :
    LimitHonoured sampleHashes sampleDump sampleMac sampleMessage [.md5] .md5 oneByte 2 :=
  (limit_honoured_iff _ _ _ _ _ _ _ _ (by decide) (by decide)).mpr fun _ => by decide +kernel

/-- Two keys are found where one was asked for. -/
theorem key_limit_ignored :
    ¬ LimitHonoured sampleHashes sampleDump sampleMac sampleMessage [.md5] .md5 oneByte 1 := by
  rintro ⟨_, hkeys⟩
  have hlen : sampleMac.length = HashAlgoSpec.outputLen .md5 := by decide +kernel
  have hroom : oneByte.Room := by decide
  have hfinds : ∀ limit, ∃ r, scanHmacKeys sampleHashes sampleDump .md5 sampleMessage sampleMac
      { lengths := oneByte, maxHits := limit } = .ok r ∧
        r.hits = keyHits sampleHashes sampleDump sampleMac sampleMessage oneByte .md5 :=
    fun limit => scanHmacKeys_ok (Nat.le_refl 1) hroom hlen
  obtain ⟨r, hr, hhits⟩ := hfinds 0
  obtain ⟨rn, hrn, hhitsn⟩ := hfinds 1
  obtain ⟨rn', hrn', htake⟩ := hkeys r hr
  obtain rfl := Except.ok.inj (hrn.symm.trans hrn')
  rw [hhitsn, hhits] at htake
  have htwo : (keyHits sampleHashes sampleDump sampleMac sampleMessage oneByte .md5).length = 2 := by
    decide +kernel
  have hcut := congrArg List.length htake
  rw [List.length_take] at hcut
  omega

end Memhunt
