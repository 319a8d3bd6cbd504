import Memhunt.Scan.Planted

/-! Which IVs a hunt reports: the best eight of all that the oracles accept. -/
namespace Memhunt
open Rust
open Bytes (slice)

section Ranking
variable (dump dec0 tail : Bytes) (block : Nat) (oracles : List Oracle)

/-- Some oracle accepts the first block that the bytes at the offset give, in front of the tail. -/
def PlausibleAt (o : Nat) : Prop :=
  o + block ≤ dump.length ∧
    Accepts oracles (Bytes.xor (dec0.take block) (slice dump o block) ++ tail)

/-- What is reported of a plausible offset. -/
structure IvEntry (x : IvHit) : Prop where
  inside : x.offset + block ≤ dump.length
  iv : x.iv = slice dump x.offset block
  first : x.first = Bytes.xor (dec0.take block) x.iv
  verdict : bestMatch oracles (x.first ++ tail) = some (x.name, x.confidence)

end Ranking

/-- Confidence first, then the plausibility of block 0, then the smaller offset. -/
def IvHit.RanksBefore (x y : IvHit) : Prop :=
  y.confidence.rank < x.confidence.rank ∨ (y.confidence.rank = x.confidence.rank ∧
    (plausibility y.first < plausibility x.first ∨
      (plausibility y.first = plausibility x.first ∧ x.offset < y.offset)))

structure TopEight (dump dec0 tail : Bytes) (block : Nat) (oracles : List Oracle)
    (hits : List IvHit) : Prop where
  count : hits.length = min 8 {o | PlausibleAt dump dec0 tail block oracles o}.ncard
  distinct : (hits.map IvHit.offset).Nodup
  entries : ∀ x ∈ hits, IvEntry dump dec0 tail block oracles x
  ordered : hits.Pairwise IvHit.RanksBefore
  best : ∀ y, IvEntry dump dec0 tail block oracles y → y ∉ hits → ∀ x ∈ hits, x.RanksBefore y

section Candidates
variable {dump dec0 tail : Bytes} {block : Nat} {oracles : List Oracle}

instance : Std.Total IvRawCandidate.before := ⟨fun a b => by unfold IvRawCandidate.before; omega⟩

instance : IsTrans IvRawCandidate IvRawCandidate.before :=
  ⟨fun a b c => by unfold IvRawCandidate.before; omega⟩

theorem ivWindow_eq_some {w : Bytes × Nat} {x : IvRawCandidate} :
    ivWindow (dec0.take block) tail oracles w = some x ↔ ∃ name confidence,
      bestMatch oracles (Bytes.xor (dec0.take block) w.1 ++ tail) = some (name, confidence) ∧
      { offset := w.2, iv := w.1, b0 := Bytes.xor (dec0.take block) w.1, name, confidence,
        plaus := plausibility (Bytes.xor (dec0.take block) w.1) } = x := by
  rw [ivWindow]
  exact judge_eq_some

/-- What is collected before the ranking, in the order of the dump. -/
def rawCandidates (dump dec0 tail : Bytes) (block : Nat) (oracles : List Oracle) :
    List IvRawCandidate :=
  Windows.search (ivWindow (dec0.take block) tail oracles) block dump

theorem mem_rawCandidates {x : IvRawCandidate} : x ∈ rawCandidates dump dec0 tail block oracles ↔
    IvEntry dump dec0 tail block oracles x.hit ∧ x.plaus = plausibility x.b0 := by
  rw [rawCandidates, Windows.mem_search]
  constructor
  · rintro ⟨o, ho, hx⟩
    obtain ⟨name, conf, hbest, rfl⟩ := ivWindow_eq_some.mp hx
    exact ⟨⟨ho, rfl, rfl, hbest⟩, rfl⟩
  · rintro ⟨⟨hinside, hiv, hfirst, hbest⟩, hplaus⟩
    obtain ⟨offset, iv, b0, name, conf, plaus⟩ := x
    dsimp only [IvRawCandidate.hit] at *
    subst hiv hfirst hplaus
    exact ⟨offset, hinside, ivWindow_eq_some.mpr ⟨name, conf, hbest, rfl⟩⟩

theorem plausibleAt_iff {o : Nat} : PlausibleAt dump dec0 tail block oracles o ↔
    o ∈ (rawCandidates dump dec0 tail block oracles).map IvRawCandidate.offset := by
  rw [List.mem_map]
  constructor
  · rintro ⟨hinside, hacc⟩
    obtain ⟨name, conf, hbest⟩ := accepts_iff_bestMatch.mp hacc
    exact ⟨_, Windows.mem_search.mpr ⟨o, hinside, ivWindow_eq_some.mpr ⟨name, conf, hbest, rfl⟩⟩, rfl⟩
  · rintro ⟨x, hx, rfl⟩
    obtain ⟨⟨hinside, hiv, hfirst, hbest⟩, _⟩ := mem_rawCandidates.mp hx
    refine ⟨hinside, accepts_iff_bestMatch.mpr ⟨x.name, x.confidence, ?_⟩⟩
    dsimp only [IvRawCandidate.hit] at hiv hfirst hbest
    rwa [← hiv, ← hfirst]

theorem rawCandidates_nodup :
    ((rawCandidates dump dec0 tail block oracles).map IvRawCandidate.offset).Nodup := by
  refine (Windows.search_increasing IvRawCandidate.offset ?_ block dump).imp fun h => h.ne
  intro w o x hx
  obtain ⟨_, _, _, rfl⟩ := ivWindow_eq_some.mp hx
  rfl

theorem ncard_plausible : {o | PlausibleAt dump dec0 tail block oracles o}.ncard =
    (rawCandidates dump dec0 tail block oracles).length := by
  have hset : {o | PlausibleAt dump dec0 tail block oracles o} =
      ↑((rawCandidates dump dec0 tail block oracles).map IvRawCandidate.offset).toFinset := by
    ext o
    rw [List.coe_toFinset]
    exact plausibleAt_iff
  rw [hset, Set.ncard_coe_finset, List.toFinset_card_of_nodup rawCandidates_nodup,
    List.length_map]

theorem ranksBefore_hit {a b : IvRawCandidate} (ha : a.plaus = plausibility a.b0)
    (hb : b.plaus = plausibility b.b0) (hbefore : a.before b) (hne : a.offset ≠ b.offset) :
    a.hit.RanksBefore b.hit := by
  unfold IvRawCandidate.before at hbefore
  rw [ha, hb] at hbefore
  dsimp only [IvHit.RanksBefore, IvRawCandidate.hit]
  omega

def ranked (dump dec0 tail : Bytes) (block : Nat) (oracles : List Oracle) : List IvRawCandidate :=
  (rawCandidates dump dec0 tail block oracles).insertionSort IvRawCandidate.before

theorem perm_ranked :
    (ranked dump dec0 tail block oracles).Perm (rawCandidates dump dec0 tail block oracles) :=
  List.perm_insertionSort IvRawCandidate.before _

theorem mem_ranked {x : IvRawCandidate} : x ∈ ranked dump dec0 tail block oracles ↔
    IvEntry dump dec0 tail block oracles x.hit ∧ x.plaus = plausibility x.b0 :=
  perm_ranked.mem_iff.trans mem_rawCandidates

theorem ranked_nodup : ((ranked dump dec0 tail block oracles).map IvRawCandidate.offset).Nodup :=
  (perm_ranked.map IvRawCandidate.offset).nodup_iff.mpr rawCandidates_nodup

/-- The sorted candidates, each strictly before those behind it. -/
theorem ranked_pairwise :
    (ranked dump dec0 tail block oracles).Pairwise fun a b => a.hit.RanksBefore b.hit := by
  have hsorted := List.pairwise_insertionSort IvRawCandidate.before
    (rawCandidates dump dec0 tail block oracles)
  refine (hsorted.and (List.pairwise_map.mp ranked_nodup)).imp_of_mem ?_
  rintro a b ha hb ⟨hbefore, hne⟩
  exact ranksBefore_hit (mem_ranked.mp ha).2 (mem_ranked.mp hb).2 hbefore hne

theorem topEight_ivHits (dump dec0 tail : Bytes) (block : Nat) (oracles : List Oracle) :
    TopEight dump dec0 tail block oracles (ivHits dump (dec0.take block) tail block oracles) := by
  have htop : ivHits dump (dec0.take block) tail block oracles =
      ((ranked dump dec0 tail block oracles).take ivCandidatesMax).map IvRawCandidate.hit := rfl
  rw [htop]
  constructor
  case count =>
    rw [List.length_map, List.length_take, perm_ranked.length_eq, ncard_plausible, ivCandidatesMax]
  case distinct =>
    rw [List.map_map]
    exact ranked_nodup.sublist ((List.take_sublist _ _).map _)
  case entries =>
    intro x hx
    obtain ⟨c, hc, rfl⟩ := List.mem_map.mp hx
    exact (mem_ranked.mp (List.mem_of_mem_take hc)).1
  case ordered => exact List.pairwise_map.mpr (ranked_pairwise.sublist (List.take_sublist _ _))
  case best =>
    intro y hy hnot x hx
    obtain ⟨a, ha, rfl⟩ := List.mem_map.mp hx
    let b : IvRawCandidate :=
      { offset := y.offset, iv := y.iv, b0 := y.first, name := y.name, confidence := y.confidence,
        plaus := plausibility y.first }
    have hb : b ∈ ranked dump dec0 tail block oracles := mem_ranked.mpr ⟨hy, rfl⟩
    have hsplit := @ranked_pairwise dump dec0 tail block oracles
    rw [← List.take_append_drop ivCandidatesMax (ranked dump dec0 tail block oracles)] at hb hsplit
    rcases List.mem_append.mp hb with htake | hdrop
    · exact absurd (List.mem_map.mpr ⟨b, htake, rfl⟩) hnot
    · exact (List.pairwise_append.mp hsplit).2.2 a ha b hdrop

/-- A candidate of the highest confidence that no other offset reaches comes out first. -/
theorem TopEight.head {hits : List IvHit} (h : TopEight dump dec0 tail block oracles hits)
    {x : IvHit} (hx : IvEntry dump dec0 tail block oracles x)
    (hbest : ∀ y, IvEntry dump dec0 tail block oracles y → y.offset ≠ x.offset →
      y.confidence.rank < x.confidence.rank) : hits.head? = some x := by
  have hplausible : PlausibleAt dump dec0 tail block oracles x.offset := by
    refine ⟨hx.inside, accepts_iff_bestMatch.mpr ⟨x.name, x.confidence, ?_⟩⟩
    rw [← hx.iv, ← hx.first]
    exact hx.verdict
  have hfinite : {o | PlausibleAt dump dec0 tail block oracles o}.Finite :=
    (Set.finite_le_nat dump.length).subset fun o ho => (Nat.le_add_right o block).trans ho.1
  have hpos := (Set.ncard_pos hfinite).mpr ⟨x.offset, hplausible⟩
  have hcount := h.count
  cases hits with
  | nil =>
      rw [List.length_nil] at hcount
      omega
  | cons first rest =>
      rw [List.head?_cons, Option.some.injEq]
      by_contra hne
      have hfirst := h.entries first List.mem_cons_self
      have hbefore : first.RanksBefore x := by
        by_cases hmem : x ∈ rest
        · exact List.rel_of_pairwise_cons h.ordered hmem
        · refine h.best x hx (fun hin => ?_) first List.mem_cons_self
          exact (List.mem_cons.mp hin).elim (fun heq => hne heq.symm) hmem
      by_cases hoffset : first.offset = x.offset
      · apply hne
        obtain ⟨offset, iv, b0, name, conf⟩ := first
        obtain ⟨_, hiv, hb0, hverdict⟩ := hfirst
        obtain ⟨_, hiv', hb0', hverdict'⟩ := hx
        dsimp only at hoffset hiv hb0 hverdict
        subst hoffset
        rw [← hiv'] at hiv
        subst hiv
        rw [← hb0'] at hb0
        subst hb0
        rw [hverdict', Option.some.injEq, Prod.mk.injEq] at hverdict
        rw [← hverdict.1, ← hverdict.2]
      · have := hbest first hfirst hoffset
        unfold IvHit.RanksBefore at hbefore
        omega

end Candidates

section Hunts
variable {dump : Bytes} {blocks : List Bytes} {block : Nat} {cipher : BlockCipher}
  {oracles : List Oracle} {config : ScanConfig} {algo : String} {fixedIv : Option Bytes}
  {key : Bytes} {offset : Nat} {h : Hit}

/-- Behind a CBC hit stands one resolution of block 0, in front of the blocks it was judged by. -/
theorem huntWindow_cbc
    (hhit : huntWindow dump blocks block cipher oracles config algo fixedIv key offset =
      .ok (some h)) (hmode : h.mode = .cbc) :
    ∃ tail b0, xorPrevious blocks block (decryptBlocksUnchecked cipher key (blocks.drop 1)) =
        .ok tail ∧
      resolveBlock0 dump cipher key blocks block oracles config fixedIv
        (tail.take verifyBlocks).flatten = .ok b0 ∧ h.ivOffset = b0.ivOffset := by
  unfold huntWindow at hhit
  split at hhit
  · cases hhit
  split at hhit
  · simp only [finalizeHit_ok, ok_bind, pure_eq, Except.ok.injEq, Option.some.injEq] at hhit
    rw [← hhit] at hmode
    cases hmode
  obtain ⟨head, _, hhit⟩ := bind_ok hhit
  split at hhit
  · cases hhit
  split at hhit
  · cases hhit
  obtain ⟨tail, htail, hhit⟩ := bind_ok hhit
  obtain ⟨b0, hb0, hhit⟩ := bind_ok hhit
  simp only [finalizeHit_ok, ok_bind, pure_eq, Except.ok.injEq, Option.some.injEq] at hhit
  refine ⟨tail, b0, htail, hb0, ?_⟩
  rw [← hhit]
  rfl

theorem resolveBlock0_scanned {first dec0 tail : Bytes} {hits : List IvHit} {b0 : Block0}
    (hscanIv : config.scanIv = true) (hdump : block ≤ dump.length)
    (hfirst : blocks[0]? = some first) (hdec0 : (cipher.decryptWithKey key first).2 = dec0)
    (hfind : findIv dump dec0 tail block oracles = .ok hits)
    (hb0 : resolveBlock0 dump cipher key blocks block oracles config none tail = .ok b0) :
    b0.ivOffset = hits.head?.map IvHit.offset := by
  have hscan : (config.scanIv && decide (block ≤ dump.length)) = true := by simp [hscanIv, hdump]
  simp only [resolveBlock0, hscan, if_true, index_ok hfirst, ok_bind, hdec0, hfind] at hb0
  cases hits with
  | nil =>
      cases hb0
      rfl
  | cons best rest =>
      cases hb0
      rfl

/-- A CBC hit whose first block was searched for with these arguments. -/
def ScannedFrom (dump dec0 tail : Bytes) (block : Nat) (oracles : List Oracle) (h : Hit) : Prop :=
  ∃ blocks first cipher config algo key offset decrypted,
    config.scanIv = true ∧ blocks[0]? = some first ∧ (cipher.decryptWithKey key first).2 = dec0 ∧
    xorPrevious blocks block (decryptBlocksUnchecked cipher key (blocks.drop 1)) = .ok decrypted ∧
    (decrypted.take verifyBlocks).flatten = tail ∧
    huntWindow dump blocks block cipher oracles config algo none key offset = .ok (some h) ∧
    h.mode = .cbc

theorem ScannedFrom.ivOffset {dec0 tail : Bytes} {hits : List IvHit}
    (hscanned : ScannedFrom dump dec0 tail block oracles h) (hdump : block ≤ dump.length)
    (hfind : findIv dump dec0 tail block oracles = .ok hits) :
    h.ivOffset = hits.head?.map IvHit.offset := by
  obtain ⟨blocks, first, cipher, config, algo, key, offset, decrypted, hscanIv, hfirst, hdec0,
    hdecrypted, htail, hhit, hmode⟩ := hscanned
  obtain ⟨tail', b0, htail', hb0, hoffset⟩ := huntWindow_cbc hhit hmode
  obtain rfl := Except.ok.inj (hdecrypted.symm.trans htail')
  rw [htail] at hb0
  exact hoffset.trans (resolveBlock0_scanned hscanIv hdump hfirst hdec0 hfind hb0)

end Hunts

/-- The search for an IV returns the best eight candidates of the dump, in order; an offset that
alone reaches the highest confidence is the one a hit reports. -/
theorem find_iv_top_eight (dump dec0 tail : Bytes) (block : Nat) (oracles : List Oracle)
    (hblock : 0 < block) (hdec : block ≤ dec0.length) :
    ∃ hits, findIv dump dec0 tail block oracles = .ok hits ∧
      TopEight dump dec0 tail block oracles hits ∧
      ∀ x, IvEntry dump dec0 tail block oracles x →
        (∀ y, IvEntry dump dec0 tail block oracles y → y.offset ≠ x.offset →
          y.confidence.rank < x.confidence.rank) →
        ∀ h, ScannedFrom dump dec0 tail block oracles h → h.ivOffset = some x.offset := by
  have hfind := findIv_ok hblock hdec dump tail oracles
  have htop := topEight_ivHits dump dec0 tail block oracles
  refine ⟨_, hfind, htop, ?_⟩
  intro x hx hbest h hscanned
  have hdump : block ≤ dump.length := (Nat.le_add_left block x.offset).trans hx.inside
  rw [hscanned.ivOffset hdump hfind, htop.head hx hbest]
  rfl

theorem find_iv_top_eight_sample :
    ∃ hits, findIv (zeroIv ++ [0]) (ascii "abcdefghijklmnop") [] 16 [utf8Oracle] = .ok hits ∧
      hits.map IvHit.offset = [0, 1] ∧
      TopEight (zeroIv ++ [0]) (ascii "abcdefghijklmnop") [] 16 [utf8Oracle] hits := by
  obtain ⟨hits, hfind, htop, _⟩ := find_iv_top_eight (zeroIv ++ [0]) (ascii "abcdefghijklmnop") []
    16 [utf8Oracle] (by decide) (by decide)
  refine ⟨hits, hfind, ?_, htop⟩
  have hoffsets : (findIv (zeroIv ++ [0]) (ascii "abcdefghijklmnop") [] 16 [utf8Oracle]).map
      (List.map IvHit.offset) = .ok [0, 1] := by decide +kernel
  rw [hfind] at hoffsets
  exact Except.ok.inj hoffsets

end Memhunt
