import Memhunt.Hash.Scan

/-! What the hash searches find, as plain functions of the dump, and the code's agreement with
them. -/
namespace Memhunt
open Rust

namespace HashAlgoSpec
variable (crates : HashCrates)

def outputLen : HashAlgoSpec → Nat
  | md5 => 16
  | sha1 => 20
  | sha256 | sm3 => 32

def digest (data : Bytes) : HashAlgoSpec → Bytes
  | md5 => (crates.md5.digest data).val
  | sha1 => (crates.sha1.digest data).val
  | sha256 => (crates.sha256.digest data).val
  | sm3 => (crates.sm3.digest data).val

def hmac (key message : Bytes) : HashAlgoSpec → Bytes
  | md5 => (crates.md5.hmac key message).val
  | sha1 => (crates.sha1.hmac key message).val
  | sha256 => (crates.sha256.hmac key message).val
  | sm3 => (crates.sm3.hmac key message).val

@[simp] theorem hasher_outputLen (algo : HashAlgoSpec) :
    (algo.hasher crates).outputLen = algo.outputLen := by
  cases algo <;> rfl

@[simp] theorem hasher_name (algo : HashAlgoSpec) : (algo.hasher crates).name = algo.label := by
  cases algo <;> rfl

theorem outputLen_pos (algo : HashAlgoSpec) : 0 < algo.outputLen := by
  cases algo <;> simp [outputLen]

theorem length_digest (data : Bytes) (algo : HashAlgoSpec) :
    (algo.digest crates data).length = algo.outputLen := by
  cases algo <;> exact Block.length_val _

theorem length_hmac (key message : Bytes) (algo : HashAlgoSpec) :
    (algo.hmac crates key message).length = algo.outputLen := by
  cases algo <;> exact Block.length_val _

theorem hashInto_ok (algo : HashAlgoSpec) {data out : Bytes} (h : out.length = algo.outputLen) :
    (algo.hasher crates).hashInto data out = .ok (algo.digest crates data) := by
  have hlen := length_digest crates data algo
  cases algo <;> exact if_pos (h.trans hlen.symm)

theorem hmacInto_ok (algo : HashAlgoSpec) {key message out : Bytes}
    (h : out.length = algo.outputLen) :
    (algo.hasher crates).hmacInto key message out = .ok (algo.hmac crates key message) := by
  have hlen := length_hmac crates key message algo
  cases algo <;> exact if_pos (h.trans hlen.symm)

end HashAlgoSpec

section Windows
variable {value : Bytes → Bytes} {outputLen : Nat} {into : Bytes → Bytes → Run Bytes}
  {target : Bytes} {hit : Bytes → Nat → HashHit}

/-- The buffer is full again after every window, so nothing of the one before is left in it. -/
theorem matchWindows_ok
    (hinto : ∀ window out, out.length = outputLen → into window out = .ok (value window))
    (hvalue : ∀ window, (value window).length = outputLen) (windows : List (Bytes × Nat))
    {out : Bytes} (hout : out.length = outputLen) :
    matchWindows into target hit windows out =
      .ok (windows.filterMap fun w => if value w.1 = target then some (hit w.1 w.2) else none) := by
  induction windows generalizing out with
  | nil => rfl
  | cons w windows ih =>
      have tail := ih (hvalue w.1)
      simp only [matchWindows, hinto w.1 out hout, ok_bind, tail, pure_eq]
      by_cases hmatch : value w.1 = target
      · simp only [if_pos hmatch, List.filterMap_cons]
      · simp only [if_neg hmatch, List.filterMap_cons]

theorem scanLength_ok
    (hinto : ∀ window out, out.length = outputLen → into window out = .ok (value window))
    (hvalue : ∀ window, (value window).length = outputLen) (dump : Bytes) {len : Nat}
    (hlen : 0 < len) :
    scanLength into outputLen target hit dump len =
      .ok (Windows.search (fun w => if value w.1 = target then some (hit w.1 w.2) else none) len
        dump, dump.length + 1 - len) := by
  have hcount : (Windows.windows len dump).length = dump.length + 1 - len := by
    simp only [Windows.windows, List.length_map, List.length_range]
  simp only [scanLength, Windows.windowsOf_ok hlen, ok_bind,
    matchWindows_ok hinto hvalue _ List.length_replicate, pure_eq, hcount, Windows.search]

theorem scanLength_zero (dump : Bytes) :
    scanLength into outputLen target hit dump 0 = crash .zeroSize := rfl

theorem scanLengths_ok {lengths : List Nat} {scan : Nat → Run (List HashHit × Nat)}
    {found : Nat → List HashHit × Nat} (h : ∀ len ∈ lengths, scan len = .ok (found len)) :
    scanLengths lengths scan =
      .ok (lengths.flatMap fun len => (found len).1, (lengths.map fun len => (found len).2).sum) := by
  simp only [scanLengths, mapM_ok h, ok_bind, pure_eq, List.flatMap_map, List.map_map]
  rfl

end Windows

/-- The windows of the listed lengths whose value is the target, by length and then by offset. -/
def searchHits (value : Bytes → Bytes) (target : Bytes) (algo kind : String) (dump : Bytes)
    (lengths : List Nat) : List HashHit :=
  lengths.flatMap fun len => Windows.search (fun w =>
    if value w.1 = target then
      some { algo, kind, offset := w.2, length := len, matchHex := Hex.encode w.1 }
    else none) len dump

theorem search_ok (value : Bytes → Bytes) {outputLen : Nat} {into : Bytes → Bytes → Run Bytes}
    (hinto : ∀ window out, out.length = outputLen → into window out = .ok (value window))
    (hvalue : ∀ window, (value window).length = outputLen) (target : Bytes) (algo kind : String)
    (dump : Bytes) {lengths : List Nat} (hpos : ∀ len ∈ lengths, 0 < len) :
    scanLengths lengths (fun len => scanLength into outputLen target (fun window offset =>
        { algo, kind, offset, length := len, matchHex := Hex.encode window }) dump len) =
      .ok (searchHits value target algo kind dump lengths,
        (lengths.map fun len => dump.length + 1 - len).sum) :=
  scanLengths_ok fun len hlen => scanLength_ok hinto hvalue dump (hpos len hlen)

/-- Hits that are exactly the matching windows of the dump: each once, and each with its bytes. -/
structure ReportsExactly (dump : Bytes) (hits : List HashHit) (algo kind : String)
    (Match : (offset length : Nat) → Prop) : Prop where
  once : (hits.map fun h => (h.offset, h.length)).Nodup
  found : ∀ offset length, (∃ h ∈ hits, h.offset = offset ∧ h.length = length) ↔
    Match offset length
  shown : ∀ h ∈ hits, h.algo = algo ∧ h.kind = kind ∧
    h.matchHex = Hex.encode (Bytes.slice dump h.offset h.length)

section SearchHits
variable {value : Bytes → Bytes} {target : Bytes} {algo kind : String} {dump : Bytes}
  {lengths : List Nat}

theorem mem_searchHits {h : HashHit} :
    h ∈ searchHits value target algo kind dump lengths ↔
      ∃ len ∈ lengths, ∃ offset, offset + len ≤ dump.length ∧
        value (Bytes.slice dump offset len) = target ∧
        h = { algo, kind, offset, length := len,
              matchHex := Hex.encode (Bytes.slice dump offset len) } := by
  have hcomm : ∀ x : HashHit, x = h ↔ h = x := fun x => eq_comm
  simp only [searchHits, List.mem_flatMap, Windows.mem_search, Option.ite_none_right_eq_some,
    Option.some.injEq, hcomm]

theorem nodup_searchHits (hlengths : lengths.Nodup) :
    ((searchHits value target algo kind dump lengths).map fun h =>
      (h.offset, h.length)).Nodup := by
  rw [searchHits, List.map_flatMap, List.nodup_flatMap]
  refine ⟨fun len _ => ?_, hlengths.imp ?_⟩
  · have hoffsets : ((Windows.search (fun w : Bytes × Nat =>
        if value w.1 = target then
          some ({ algo, kind, offset := w.2, length := len, matchHex := Hex.encode w.1 } : HashHit)
        else none) len dump).map HashHit.offset).Pairwise (· < ·) := by
      apply Windows.search_increasing
      intro w o h hw
      obtain ⟨_, hh⟩ := Option.ite_none_right_eq_some.mp hw
      rw [← Option.some.inj hh]
    apply List.Nodup.of_map Prod.fst
    rw [List.map_map]
    exact hoffsets.imp Nat.ne_of_lt
  · intro len len' hne p hp hp'
    obtain ⟨h, hh, rfl⟩ := List.mem_map.mp hp
    obtain ⟨h', hh', heq⟩ := List.mem_map.mp hp'
    obtain ⟨o, _, hw⟩ := Windows.mem_search.mp hh
    obtain ⟨o', _, hw'⟩ := Windows.mem_search.mp hh'
    have hl := congrArg HashHit.length (Option.some.inj (Option.ite_none_right_eq_some.mp hw).2)
    have hl' := congrArg HashHit.length (Option.some.inj (Option.ite_none_right_eq_some.mp hw').2)
    exact hne (hl.trans ((congrArg Prod.snd heq).symm.trans hl'.symm))

theorem reportsExactly_searchHits (hlengths : lengths.Nodup) :
    ReportsExactly dump (searchHits value target algo kind dump lengths) algo kind
      fun offset length => length ∈ lengths ∧ offset + length ≤ dump.length ∧
        value (Bytes.slice dump offset length) = target where
  once := nodup_searchHits hlengths
  found offset length := by
    constructor
    · rintro ⟨h, hh, rfl, rfl⟩
      obtain ⟨len, hlen, o, ho, hmatch, rfl⟩ := mem_searchHits.mp hh
      exact ⟨hlen, ho, hmatch⟩
    · rintro ⟨hlen, ho, hmatch⟩
      exact ⟨_, mem_searchHits.mpr ⟨length, hlen, offset, ho, hmatch, rfl⟩, rfl, rfl⟩
  shown h hh := by
    obtain ⟨len, _, o, _, _, rfl⟩ := mem_searchHits.mp hh
    exact ⟨rfl, rfl, rfl⟩

end SearchHits

section Lengths
variable {range : LengthRange}

theorem mem_lengths {n : Nat} : n ∈ range.lengths ↔ range.min ≤ n ∧ n ≤ range.max := by
  rw [LengthRange.lengths, LengthRange.count, List.mem_range'_1]
  omega

theorem nodup_lengths : range.lengths.Nodup := List.nodup_range'

theorem mem_pushed (fixed lengths : List Nat) (n : Nat) :
    n ∈ fixed.foldl (fun lengths f => if lengths.contains f then lengths else lengths ++ [f])
      lengths ↔ n ∈ lengths ∨ n ∈ fixed := by
  induction fixed generalizing lengths with
  | nil => simp
  | cons f fixed ih =>
      rw [List.foldl_cons, ih, List.mem_cons]
      by_cases hf : f ∈ lengths
      · rw [if_pos (List.contains_iff_mem.mpr hf)]
        constructor
        · rintro (hn | hn)
          · exact .inl hn
          · exact .inr (.inr hn)
        · rintro (hn | rfl | hn)
          · exact .inl hn
          · exact .inl hf
          · exact .inr hn
      · rw [if_neg (fun h => hf (List.contains_iff_mem.mp h)), List.mem_append, List.mem_singleton,
          or_assoc]

theorem nodup_pushed (fixed : List Nat) {lengths : List Nat} (h : lengths.Nodup) :
    (fixed.foldl (fun lengths f => if lengths.contains f then lengths else lengths ++ [f])
      lengths).Nodup := by
  induction fixed generalizing lengths with
  | nil => exact h
  | cons f fixed ih =>
      rw [List.foldl_cons]
      apply ih
      split
      · exact h
      · rename_i hf
        refine List.nodup_append'.mpr ⟨h, List.nodup_singleton f, ?_⟩
        rw [List.disjoint_singleton]
        exact fun hmem => hf (List.contains_iff_mem.mpr hmem)

/-- The lengths of a key search, whether or not there is room for them. -/
def LengthRange.withCommon (range : LengthRange) : List Nat :=
  [16, 24, 32, 64].foldl (fun lengths f => if lengths.contains f then lengths else lengths ++ [f])
    range.lengths

theorem mem_withCommon {n : Nat} :
    n ∈ range.withCommon ↔ (range.min ≤ n ∧ n ≤ range.max) ∨ n ∈ [16, 24, 32, 64] := by
  rw [LengthRange.withCommon, mem_pushed, mem_lengths]

theorem nodup_withCommon : range.withCommon.Nodup := nodup_pushed _ nodup_lengths

theorem pos_of_mem_withCommon (hmin : 1 ≤ range.min) {n : Nat} (h : n ∈ range.withCommon) :
    0 < n := by
  rcases mem_withCommon.mp h with hrange | hfixed
  · omega
  · simp only [List.mem_cons, List.not_mem_nil, or_false] at hfixed
    omega

end Lengths

section Room

/-- There is a buffer for the lengths of a key search: it has room for fewer than 2^60 words, and a
range that lacks a common length fills its own, which is then exchanged for one of twice the room. -/
def LengthRange.Room (range : LengthRange) : Prop :=
  range.count < 2 ^ 60 ∧
    (range.count < 2 ^ 59 ∨ ∀ fixed ∈ [16, 24, 32, 64], range.min ≤ fixed ∧ fixed ≤ range.max)

instance (range : LengthRange) : Decidable range.Room :=
  inferInstanceAs (Decidable (range.count < 2 ^ 60 ∧
    (range.count < 2 ^ 59 ∨ ∀ fixed ∈ [16, 24, 32, 64], range.min ≤ fixed ∧ fixed ≤ range.max)))

theorem pushMissing_mem {v : Vec Nat 8} {f : Nat} (h : f ∈ v.items) : pushMissing v f = .ok v :=
  if_pos (List.contains_iff_mem.mpr h)

theorem pushMissing_push {v : Vec Nat 8} {f : Nat} (h : f ∉ v.items) :
    pushMissing v f = v.push f :=
  if_neg fun hmem => h (List.contains_iff_mem.mp hmem)

/-- So many lengths can be pushed: the buffer can still be doubled, or has room for them. -/
def Spare (v : Vec Nat 8) (pushes : Nat) : Prop :=
  v.capacity < 2 ^ 59 ∨ v.items.length + pushes ≤ v.capacity

theorem push_spare {v : Vec Nat 8} {pushes : Nat} (f : Nat) (hfew : pushes < 4)
    (h : Spare v (pushes + 1)) :
    ∃ w, v.push f = .ok w ∧ w.items = v.items ++ [f] ∧ Spare w pushes := by
  have hfits := v.fits
  have hgrown : Vec.grown 8 v.capacity = max (max (2 * v.capacity) (v.capacity + 1)) 4 := rfl
  unfold Spare at h
  by_cases hroom : v.items.length < v.capacity
  · obtain ⟨w, hw, hitems, hcapacity⟩ := Vec.push_room f hroom
    refine ⟨w, hw, hitems, ?_⟩
    rw [Spare, hitems, hcapacity, List.length_append, List.length_singleton]
    omega
  · have hmax : Vec.grown 8 v.capacity * 8 ≤ isizeMax := by
      rw [isizeMax, hgrown]
      omega
    obtain ⟨w, hw, hitems, hcapacity⟩ := Vec.push_grown f (Nat.not_lt.mp hroom) hmax
    refine ⟨w, hw, hitems, ?_⟩
    rw [Spare, hitems, hcapacity, hgrown, List.length_append, List.length_singleton]
    omega

theorem foldlM_pushMissing_ok {fixed : List Nat} {v : Vec Nat 8} (hfew : fixed.length ≤ 4)
    (h : Spare v fixed.length ∨ ∀ f ∈ fixed, f ∈ v.items) :
    ∃ w, fixed.foldlM pushMissing v = .ok w ∧ w.items =
      fixed.foldl (fun lengths f => if lengths.contains f then lengths else lengths ++ [f])
        v.items := by
  induction fixed generalizing v with
  | nil => exact ⟨v, rfl, rfl⟩
  | cons f fixed ih =>
      rw [List.foldlM_cons, List.foldl_cons]
      rw [List.length_cons] at hfew h
      by_cases hmem : f ∈ v.items
      · rw [pushMissing_mem hmem, ok_bind, if_pos (List.contains_iff_mem.mpr hmem)]
        refine ih (by omega) ?_
        rcases h with hspare | hall
        · exact .inl (hspare.imp_right fun hroom => by omega)
        · exact .inr fun g hg => hall g (List.mem_cons_of_mem f hg)
      · have hspare : Spare v (fixed.length + 1) :=
          h.resolve_right fun hall => hmem (hall f List.mem_cons_self)
        obtain ⟨w, hw, hitems, hrest⟩ := push_spare f (by omega) hspare
        rw [pushMissing_push hmem, if_neg fun hc => hmem (List.contains_iff_mem.mp hc), hw, ok_bind,
          ← hitems]
        exact ih (by omega) (.inl hrest)

/-- A full buffer that cannot be doubled takes no length that it does not have. -/
theorem foldlM_pushMissing_overflow {fixed : List Nat} {v : Vec Nat 8}
    (hfull : v.capacity ≤ v.items.length) (hlarge : 2 ^ 59 ≤ v.capacity)
    (hmissing : ∃ f ∈ fixed, f ∉ v.items) :
    fixed.foldlM pushMissing v = crash .capacityOverflow := by
  induction fixed with
  | nil =>
      obtain ⟨f, hf, _⟩ := hmissing
      cases hf
  | cons f fixed ih =>
      rw [List.foldlM_cons]
      by_cases hmem : f ∈ v.items
      · rw [pushMissing_mem hmem, ok_bind]
        obtain ⟨g, hg, hnot⟩ := hmissing
        rcases List.mem_cons.mp hg with rfl | hg
        · exact absurd hmem hnot
        · exact ih ⟨g, hg, hnot⟩
      · have hover : isizeMax < Vec.grown 8 v.capacity * 8 := by
          rw [isizeMax, Vec.grown]
          omega
        rw [pushMissing_push hmem, Vec.push_overflow f hfull hover, crash_bind]

theorem keyLengths_ok {range : LengthRange} (h : range.Room) :
    keyLengths range = .ok range.withCommon := by
  obtain ⟨hcount, hpushes⟩ := h
  have hmax : range.count * 8 ≤ isizeMax := by
    rw [isizeMax]
    omega
  obtain ⟨v, hv, hitems, hcapacity⟩ := @Vec.collectRange_ok 8 range.min range.count hmax
  have hlist : v.items = range.lengths := hitems
  have hroom : Spare v [16, 24, 32, 64].length ∨ ∀ f ∈ [16, 24, 32, 64], f ∈ v.items := by
    rcases hpushes with hsmall | hall
    · exact .inl (.inl (hcapacity.trans_lt hsmall))
    · rw [hlist]
      exact .inr fun f hf => mem_lengths.mpr (hall f hf)
  obtain ⟨w, hw, hwitems⟩ := foldlM_pushMissing_ok (by decide) hroom
  rw [keyLengths, hv, ok_bind, hw, ok_bind, hwitems, hlist]
  rfl

theorem keyLengths_overflow {range : LengthRange} (h : ¬ range.Room) :
    keyLengths range = crash .capacityOverflow := by
  by_cases hmax : range.count * 8 ≤ isizeMax
  · obtain ⟨v, hv, hitems, hcapacity⟩ := @Vec.collectRange_ok 8 range.min range.count hmax
    have hlist : v.items = range.lengths := hitems
    have hcount : range.count < 2 ^ 60 := by
      rw [isizeMax] at hmax
      omega
    have hrest : ¬ (range.count < 2 ^ 59 ∨
        ∀ fixed ∈ [16, 24, 32, 64], range.min ≤ fixed ∧ fixed ≤ range.max) :=
      fun hpushes => h ⟨hcount, hpushes⟩
    obtain ⟨hlarge, hmissing⟩ := not_or.mp hrest
    have hfull : v.capacity ≤ v.items.length := by
      rw [hcapacity, hitems, List.length_range']
    have hout : ∃ f ∈ [16, 24, 32, 64], f ∉ v.items := by
      by_contra hall
      refine hmissing fun f hf => mem_lengths.mp ?_
      rw [← hlist]
      by_contra hnot
      exact hall ⟨f, hf, hnot⟩
    have hover := foldlM_pushMissing_overflow hfull (by omega) hout
    rw [keyLengths, hv, ok_bind, hover, crash_bind]
  · rw [keyLengths, Vec.collectRange_overflow (Nat.not_le.mp hmax), crash_bind]

end Room

section Searches
variable (crates : HashCrates) (dump target message : Bytes)

def preimageHits (range : LengthRange) (algo : HashAlgoSpec) : List HashHit :=
  searchHits (fun data => algo.digest crates data) target algo.label "preimage" dump range.lengths

def keyHits (range : LengthRange) (algo : HashAlgoSpec) : List HashHit :=
  searchHits (fun key => algo.hmac crates key message) target algo.label "hmac_key" dump
    range.withCommon

variable {crates dump target message} {config : HashScanConfig} {algo : HashAlgoSpec}

theorem preimagesOf_errs (hlen : target.length ≠ algo.outputLen) :
    ∃ m, preimagesOf crates dump target config algo = fail m := by
  refine ⟨_, if_pos ?_⟩
  rw [HashAlgoSpec.hasher_outputLen]
  exact hlen

/-- Each window of each length is tried once. -/
theorem preimagesOf_eq (hmin : 1 ≤ config.lengths.min) (hlen : target.length = algo.outputLen) :
    preimagesOf crates dump target config algo =
      .ok (preimageHits crates dump target config.lengths algo,
        (config.lengths.lengths.map fun len => dump.length + 1 - len).sum) := by
  have hnot : ¬ target.length ≠ algo.outputLen := fun hne => hne hlen
  have hpos : ∀ len ∈ config.lengths.lengths, 0 < len := by
    intro len hmem
    have := (mem_lengths.mp hmem).1
    omega
  have hfound := search_ok (fun window => algo.digest crates window)
    (fun window out hout => HashAlgoSpec.hashInto_ok crates algo hout)
    (fun window => HashAlgoSpec.length_digest crates window algo) target algo.label "preimage" dump
    hpos
  simp only [preimagesOf, HashAlgoSpec.hasher_outputLen, HashAlgoSpec.hasher_name, if_neg hnot]
  exact hfound

theorem preimagesOf_ok (hmin : 1 ≤ config.lengths.min) (hlen : target.length = algo.outputLen) :
    ∃ n, preimagesOf crates dump target config algo =
      .ok (preimageHits crates dump target config.lengths algo, n) :=
  ⟨_, preimagesOf_eq hmin hlen⟩

theorem scanHmacKeys_errs (hlen : target.length ≠ algo.outputLen) :
    ∃ m, scanHmacKeys crates dump algo message target config = fail m := by
  refine ⟨_, if_pos ?_⟩
  rw [HashAlgoSpec.hasher_outputLen]
  exact hlen

/-- The limit of the configuration plays no part in it. -/
theorem scanHmacKeys_eq (hmin : 1 ≤ config.lengths.min) (hroom : config.lengths.Room)
    (hlen : target.length = algo.outputLen) :
    scanHmacKeys crates dump algo message target config = .ok {
      hits := keyHits crates dump target message config.lengths algo
      stats := {
        dumpSize := dump.length
        candidatesTried :=
          (config.lengths.withCommon.map fun len => dump.length + 1 - len).sum } } := by
  have hnot : ¬ target.length ≠ algo.outputLen := fun hne => hne hlen
  have hfound := search_ok (fun window => algo.hmac crates window message)
    (fun window out hout => HashAlgoSpec.hmacInto_ok crates algo hout)
    (fun window => HashAlgoSpec.length_hmac crates window message algo) target algo.label "hmac_key"
    dump fun len hmem => pos_of_mem_withCommon hmin hmem
  simp only [scanHmacKeys, HashAlgoSpec.hasher_outputLen, HashAlgoSpec.hasher_name, if_neg hnot,
    keyLengths_ok hroom, ok_bind]
  rw [hfound]
  rfl

theorem scanHmacKeys_ok (hmin : 1 ≤ config.lengths.min) (hroom : config.lengths.Room)
    (hlen : target.length = algo.outputLen) :
    ∃ r, scanHmacKeys crates dump algo message target config = .ok r ∧
      r.hits = keyHits crates dump target message config.lengths algo :=
  ⟨_, scanHmacKeys_eq hmin hroom hlen, rfl⟩

/-- Without room for the lengths no window is looked at. -/
theorem scanHmacKeys_overflow (hroom : ¬ config.lengths.Room)
    (hlen : target.length = algo.outputLen) :
    scanHmacKeys crates dump algo message target config = crash .capacityOverflow := by
  have hnot : ¬ target.length ≠ algo.outputLen := fun hne => hne hlen
  simp only [scanHmacKeys, HashAlgoSpec.hasher_outputLen, HashAlgoSpec.hasher_name, if_neg hnot,
    keyLengths_overflow hroom, crash_bind]

theorem room_of_scanHmacKeys {r : HashScanResult}
    (h : scanHmacKeys crates dump algo message target config = .ok r) : config.lengths.Room := by
  by_contra hroom
  by_cases hlen : target.length = algo.outputLen
  · rw [scanHmacKeys_overflow hroom hlen] at h
    cases h
  · obtain ⟨m, hm⟩ := @scanHmacKeys_errs crates dump target message config algo hlen
    rw [hm] at h
    cases h

end Searches

end Memhunt
