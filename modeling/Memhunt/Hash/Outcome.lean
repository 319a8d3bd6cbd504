import Memhunt.Hash.Search

/-! How the hash searches end: an error is a matter of the output lengths alone, a panic one of
windows of length zero. -/
namespace Memhunt
open Rust

section Outcome
variable {crates : HashCrates} {dump target message : Bytes} {config : HashScanConfig}
  {algos : List HashAlgoSpec} {algo : HashAlgoSpec}

theorem copyFromSlice_not_errs (out src : Bytes) : ¬ Errs (copyFromSlice out src) := by
  unfold copyFromSlice
  split
  · exact not_errs_ok src
  · rintro ⟨m, hm⟩
    cases hm

theorem hashInto_not_errs (algo : HashAlgoSpec) (data out : Bytes) :
    ¬ Errs ((algo.hasher crates).hashInto data out) := by
  cases algo <;> exact copyFromSlice_not_errs _ _

theorem hmacInto_not_errs (algo : HashAlgoSpec) (key message out : Bytes) :
    ¬ Errs ((algo.hasher crates).hmacInto key message out) := by
  cases algo <;> exact copyFromSlice_not_errs _ _

section Errors
variable {into : Bytes → Bytes → Run Bytes} (hinto : ∀ window out, ¬ Errs (into window out))

include hinto

theorem matchWindows_not_errs (hit : Bytes → Nat → HashHit) (windows : List (Bytes × Nat))
    (out : Bytes) : ¬ Errs (matchWindows into target hit windows out) := by
  induction windows generalizing out with
  | nil => exact not_errs_ok _
  | cons w windows ih =>
      rintro ⟨m, hm⟩
      unfold matchWindows at hm
      cases hw : into w.1 out with
      | error s =>
          rw [hw, error_bind] at hm
          exact hinto w.1 out ⟨m, hw.trans (congrArg Except.error (Except.error.inj hm))⟩
      | ok next =>
          rw [hw, ok_bind] at hm
          cases hrest : matchWindows into target hit windows next with
          | error s =>
              rw [hrest, error_bind] at hm
              exact ih next ⟨m, hrest.trans hm⟩
          | ok found =>
              rw [hrest, ok_bind] at hm
              split at hm <;> cases hm

theorem scanLength_not_errs (outputLen : Nat) (hit : Bytes → Nat → HashHit) (len : Nat) :
    ¬ Errs (scanLength into outputLen target hit dump len) := by
  rintro ⟨m, hm⟩
  cases len with
  | zero =>
      rw [scanLength_zero] at hm
      cases hm
  | succ n =>
      simp only [scanLength, Windows.windowsOf_ok (Nat.succ_pos n), ok_bind] at hm
      generalize hfound : matchWindows into target hit _ _ = found at hm
      cases found with
      | ok found => cases hm
      | error s =>
          rw [error_bind, Except.error.injEq] at hm
          exact matchWindows_not_errs hinto hit _ _
            ⟨m, hfound.trans (congrArg Except.error hm)⟩

/-- No length makes a search return an error. -/
theorem scanLengths_not_errs (outputLen : Nat) (hit : Nat → Bytes → Nat → HashHit)
    (lengths : List Nat) :
    ¬ Errs (scanLengths lengths fun len => scanLength into outputLen target (hit len) dump len) := by
  rintro ⟨m, hm⟩
  unfold scanLengths at hm
  cases hall : lengths.mapM fun len => scanLength into outputLen target (hit len) dump len with
  | ok found =>
      rw [hall] at hm
      cases hm
  | error s =>
      rw [hall, error_bind, Except.error.injEq] at hm
      obtain ⟨len, _, hs⟩ := error_of_mapM hall
      exact scanLength_not_errs hinto outputLen (hit len) len
        ⟨m, hs.trans (congrArg Except.error hm)⟩

/-- Windows of length zero make it panic. -/
theorem scanLengths_zero (outputLen : Nat) (hit : Nat → Bytes → Nat → HashHit)
    {lengths : List Nat} (hzero : 0 ∈ lengths) :
    Panics (scanLengths lengths fun len =>
      scanLength into outputLen target (hit len) dump len) := by
  by_contra hpanic
  rcases ok_or_errs hpanic with ⟨found, hfound⟩ | herr
  · obtain ⟨all, hall, _⟩ := bind_ok hfound
    obtain ⟨_, hwindows⟩ := ok_of_mapM hall 0 hzero
    rw [scanLength_zero] at hwindows
    cases hwindows
  · exact scanLengths_not_errs hinto outputLen hit lengths herr

end Errors

theorem preimagesOf_zero (hmin : config.lengths.min = 0) (hlen : target.length = algo.outputLen) :
    Panics (preimagesOf crates dump target config algo) := by
  have hnot : ¬ target.length ≠ algo.outputLen := fun hne => hne hlen
  have hzero : 0 ∈ config.lengths.lengths := by
    rw [mem_lengths, hmin]
    exact ⟨le_rfl, Nat.zero_le _⟩
  simp only [preimagesOf, HashAlgoSpec.hasher_outputLen, HashAlgoSpec.hasher_name, if_neg hnot]
  exact scanLengths_zero (hashInto_not_errs algo) _ _ hzero

theorem scanPreimages_not_panics (hmin : 1 ≤ config.lengths.min) :
    ¬ Panics (scanPreimages crates dump target algos config) := by
  rintro ⟨site, hsite⟩
  have hne : target ≠ [] := by
    rintro rfl
    cases hsite
  have hcollect := @scanPreimages_hits crates dump target config algos hne
  rw [hsite] at hcollect
  obtain ⟨algo, _, hpart⟩ := Collect.collect_error hcollect.symm
  by_cases hlen : target.length = algo.outputLen
  · rw [preimagePart_ok hmin hlen] at hpart
    cases hpart
  · obtain ⟨m, hm⟩ := @preimagesOf_errs crates dump target config algo hlen
    rw [preimagePart, hm] at hpart
    cases hpart

theorem scanPreimages_errs_iff (hmin : 1 ≤ config.lengths.min) (hmax : config.maxHits = 0)
    (hne : algos ≠ []) :
    Errs (scanPreimages crates dump target algos config) ↔
      ∃ algo ∈ algos, target.length ≠ algo.outputLen := by
  constructor
  · intro herr
    by_contra hall
    simp only [not_exists, not_and, not_not] at hall
    obtain ⟨algo, hmem⟩ := List.exists_mem_of_ne_nil _ hne
    obtain ⟨r, hr, _⟩ := @scanPreimages_ok crates dump target config algos hmin hmax
      (ne_nil_of_length (hall algo hmem)) hall
    rw [hr] at herr
    exact not_errs_ok r herr
  · rintro ⟨algo, hmem, hlen⟩
    rcases ok_or_errs (@scanPreimages_not_panics crates dump target config algos hmin) with
      ⟨r, hr⟩ | herr
    · exact absurd (lengths_of_scanPreimages hmax hr algo hmem) hlen
    · exact herr

/-- From length zero on, only the first algorithm is ever looked at. -/
theorem scanPreimages_zero_errs_iff (hmin : config.lengths.min = 0) :
    Errs (scanPreimages crates dump target (algo :: algos) config) ↔
      target.length ≠ algo.outputLen := by
  by_cases hlen : target.length = algo.outputLen
  · have hsome : target.isEmpty = false := by simpa using ne_nil_of_length hlen
    obtain ⟨site, hsite⟩ := @preimagesOf_zero crates dump target config algo hmin hlen
    refine iff_of_false ?_ (fun hne => hne hlen)
    rintro ⟨m, hm⟩
    simp only [scanPreimages, hsome, Bool.false_eq_true, if_false, preimageLoop, hsite,
      error_bind] at hm
    cases hm
  · obtain ⟨m, hm⟩ := @preimagesOf_errs crates dump target config algo hlen
    refine iff_of_true ?_ hlen
    unfold scanPreimages
    split
    · exact errs_fail _
    · simp only [preimageLoop, hm, fail_bind]
      exact errs_fail m

theorem scanHmacKeys_errs_iff :
    Errs (scanHmacKeys crates dump algo message target config) ↔
      target.length ≠ algo.outputLen := by
  by_cases hlen : target.length = algo.outputLen
  · have hnot : ¬ target.length ≠ algo.outputLen := fun hne => hne hlen
    refine iff_of_false ?_ hnot
    rintro ⟨m, hm⟩
    by_cases hroom : config.lengths.Room
    · simp only [scanHmacKeys, HashAlgoSpec.hasher_outputLen, HashAlgoSpec.hasher_name,
        if_neg hnot, keyLengths_ok hroom, ok_bind] at hm
      generalize hfound : scanLengths config.lengths.withCommon _ = found at hm
      cases found with
      | ok found => cases hm
      | error s =>
          rw [error_bind, Except.error.injEq] at hm
          exact scanLengths_not_errs (fun window out => hmacInto_not_errs algo window message out)
            _ _ _ ⟨m, hfound.trans (congrArg Except.error hm)⟩
    · rw [scanHmacKeys_overflow hroom hlen] at hm
      cases hm
  · obtain ⟨m, hm⟩ := @scanHmacKeys_errs crates dump target message config algo hlen
    refine iff_of_true ?_ hlen
    rw [hm]
    exact errs_fail m

theorem scanHmacKeys_zero (hmin : config.lengths.min = 0) (hlen : target.length = algo.outputLen) :
    Panics (scanHmacKeys crates dump algo message target config) := by
  by_cases hroom : config.lengths.Room
  · have hzero : 0 ∈ config.lengths.withCommon := by
      rw [mem_withCommon, hmin]
      exact .inl ⟨le_rfl, Nat.zero_le _⟩
    have hnot : ¬ target.length ≠ algo.outputLen := fun hne => hne hlen
    simp only [scanHmacKeys, HashAlgoSpec.hasher_outputLen, HashAlgoSpec.hasher_name,
      if_neg hnot, keyLengths_ok hroom, ok_bind]
    exact panics_bind (scanLengths_zero (fun window out =>
      hmacInto_not_errs algo window message out) _ _ hzero) _
  · exact ⟨_, scanHmacKeys_overflow hroom hlen⟩

theorem scanHmacKeys_panics_iff :
    Panics (scanHmacKeys crates dump algo message target config) ↔
      (config.lengths.min = 0 ∨ ¬ config.lengths.Room) ∧ target.length = algo.outputLen := by
  by_cases hlen : target.length = algo.outputLen
  · simp only [hlen, and_true]
    by_cases hmin : config.lengths.min = 0
    · exact iff_of_true (scanHmacKeys_zero hmin hlen) (.inl hmin)
    · by_cases hroom : config.lengths.Room
      · obtain ⟨r, hr, _⟩ := @scanHmacKeys_ok crates dump target message config algo
          (Nat.pos_of_ne_zero hmin) hroom hlen
        rw [hr]
        exact iff_of_false (not_panics_ok r) fun h => h.elim hmin (· hroom)
      · exact iff_of_true ⟨_, scanHmacKeys_overflow hroom hlen⟩ (.inr hroom)
  · exact iff_of_false (not_panics_of_errs (scanHmacKeys_errs_iff.mpr hlen)) fun h => hlen h.2

theorem scanHmacKeys_not_panics (hmin : 1 ≤ config.lengths.min) (hroom : config.lengths.Room) :
    ¬ Panics (scanHmacKeys crates dump algo message target config) := by
  rw [scanHmacKeys_panics_iff]
  rintro ⟨hzero | hover, _⟩
  · omega
  · exact hover hroom

end Outcome

theorem HashAlgoSpec.parsePart_not_panics (part : String) : ¬ Panics (parsePart part) := by
  unfold parsePart
  split
  all_goals first | exact not_panics_ok _ | exact not_panics_fail _

theorem HashAlgoSpec.parse_not_panics (spec : String) : ¬ Panics (parse spec) := by
  unfold parse
  refine not_panics_bind (not_panics_mapM fun part _ => parsePart_not_panics _) fun algos => ?_
  split
  · exact not_panics_fail _
  · exact not_panics_ok _

theorem HashAlgoSpec.parse_ne_nil {spec : String} {algos : List HashAlgoSpec}
    (h : parse spec = .ok algos) : algos ≠ [] := by
  obtain ⟨found, _, h⟩ := bind_ok h
  split at h
  · cases h
  · rename_i hsome
    cases h
    simpa using hsome

end Memhunt
