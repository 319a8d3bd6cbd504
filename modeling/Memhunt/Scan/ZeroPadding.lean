import Memhunt.Oracle

/-! The text oracles and the zeros that follow a text. -/
namespace Memhunt

theorem stripTrailingZeros_zeros (h : Bytes) (k : Nat) :
    stripTrailingZeros (h ++ List.replicate k 0) = stripTrailingZeros h := by
  induction k with
  | zero => rw [List.replicate_zero, List.append_nil]
  | succ k ih =>
      rw [List.replicate_succ', ← List.append_assoc, stripTrailingZeros,
        List.rdropWhile_concat_pos _ _ _ rfl]
      exact ih

theorem utf8Oracle_zeros (h : Bytes) (k : Nat) :
    utf8Oracle.verify (h ++ List.replicate k 0) = utf8Oracle.verify h := by
  simp only [utf8Oracle, stripTrailingZeros_zeros]

theorem utf16End_le (head : Bytes) (n : Nat) : utf16End head n ≤ n := by
  fun_induction utf16End head n with
  | case1 n hzero ih => omega
  | case2 n hzero => exact Nat.le_refl _
  | case3 n hshort => exact Nat.le_refl _

/-- Where a text ends is seen from the bytes before `n` alone. -/
theorem utf16End_append (h rest : Bytes) {n : Nat} (hn : n ≤ h.length) :
    utf16End (h ++ rest) n = utf16End h n := by
  fun_induction utf16End h n with
  | case1 n hzero ih =>
      rw [utf16End, List.getElem?_append_left (by omega), List.getElem?_append_left (by omega),
        if_pos hzero]
      exact ih (by omega)
  | case2 n hzero =>
      rw [utf16End, List.getElem?_append_left (by omega), List.getElem?_append_left (by omega),
        if_neg hzero]
  | case3 n hshort => exact utf16End.eq_2 _ n hshort

/-- The bytes that the oracle looks at. -/
def utf16Text (data : Bytes) : Bytes := data.take (utf16End data data.length)

theorem utf16LeOracle_congr {a b : Bytes} (h : utf16Text a = utf16Text b) :
    utf16LeOracle.verify a = utf16LeOracle.verify b := by
  unfold utf16Text at h
  simp only [utf16LeOracle, h]

theorem utf16LeOracle_short {data : Bytes} (h : data.length < 8) :
    utf16LeOracle.verify data = false := by
  have hshort : (data.take (utf16End data data.length)).length < 8 := by
    rw [List.length_take]
    omega
  simp only [utf16LeOracle, hshort, decide_true, Bool.true_or, if_true]

theorem utf16Text_zeros {h : Bytes} (hlen : 2 ≤ h.length) :
    utf16Text (h ++ [0, 0]) = utf16Text h := by
  obtain ⟨n, hn⟩ := Nat.exists_eq_add_of_le' hlen
  have hend : utf16End (h ++ [0, 0]) (h ++ [0, 0]).length = utf16End h h.length := by
    have hlength : (h ++ [0, 0]).length = n + 4 := by
      rw [List.length_append, hn]
      rfl
    have hfirst : (h ++ [0, 0])[n + 2]? = some 0 := by
      rw [← hn, List.getElem?_append_right (Nat.le_refl _), Nat.sub_self]
      rfl
    have hsecond : (h ++ [0, 0])[n + 3]? = some 0 := by
      rw [List.getElem?_append_right (by omega), show n + 3 - h.length = 1 by omega]
      rfl
    rw [hlength, utf16End, if_pos ⟨hfirst, hsecond⟩, ← hn, utf16End_append h _ (Nat.le_refl _)]
  rw [utf16Text, utf16Text, hend, List.take_append_of_le_length (utf16End_le h _)]

theorem utf16LeOracle_zeros (h : Bytes) (k : Nat) :
    utf16LeOracle.verify (h ++ List.replicate (2 * k) 0) = utf16LeOracle.verify h := by
  induction k with
  | zero => rw [Nat.mul_zero, List.replicate_zero, List.append_nil]
  | succ k ih =>
      have hpair : List.replicate (2 * (k + 1)) (0 : UInt8) =
          List.replicate (2 * k) 0 ++ [0, 0] := List.replicate_add (2 * k) 2 0
      rw [hpair, ← List.append_assoc, ← ih]
      generalize h ++ List.replicate (2 * k) 0 = h
      by_cases hlen : 2 ≤ h.length
      · exact utf16LeOracle_congr (utf16Text_zeros hlen)
      · have hlong : (h ++ [0, 0]).length < 8 := by
          rw [List.length_append, List.length_cons, List.length_singleton]
          omega
        rw [utf16LeOracle_short hlong, utf16LeOracle_short (by omega)]

/-- A text that does not end with a zero unit is looked at as a whole. -/
theorem utf16Text_concat {init : Bytes} {low high : UInt8} (h : ¬ (low = 0 ∧ high = 0)) :
    utf16Text (init ++ [low, high]) = init ++ [low, high] := by
  have hlength : (init ++ [low, high]).length = init.length + 2 := by
    rw [List.length_append]
    rfl
  have hend : utf16End (init ++ [low, high]) (init.length + 2) = init.length + 2 := by
    by_cases hlong : 2 ≤ init.length
    · obtain ⟨n, hn⟩ := Nat.exists_eq_add_of_le' hlong
      have hlow : (init ++ [low, high])[n + 2]? = some low := by
        rw [← hn, List.getElem?_append_right (Nat.le_refl _), Nat.sub_self]
        rfl
      have hhigh : (init ++ [low, high])[n + 3]? = some high := by
        rw [List.getElem?_append_right (by omega), show n + 3 - init.length = 1 by omega]
        rfl
      rw [hn, utf16End, if_neg]
      rw [hlow, hhigh, Option.some.injEq, Option.some.injEq]
      exact h
    · exact utf16End.eq_2 _ _ fun n hn => by omega
  rw [utf16Text, hlength, hend, ← hlength, List.take_length]

theorem utf16Text_ofUnits {us : List Nat} {u : Nat} (hword : u < 0x10000) (hzero : u ≠ 0) :
    utf16Text (Utf16.ofUnits (us ++ [u])) = Utf16.ofUnits (us ++ [u]) := by
  have hsplit : Utf16.ofUnits (us ++ [u]) =
      Utf16.ofUnits us ++ [UInt8.ofNat (u % 256), UInt8.ofNat (u / 256)] := by
    rw [Utf16.ofUnits, List.flatMap_append, List.flatMap_singleton]
    rfl
  rw [hsplit]
  refine utf16Text_concat ?_
  rintro ⟨hlow, hhigh⟩
  have hlow' := congrArg UInt8.toNat hlow
  have hhigh' := congrArg UInt8.toNat hhigh
  rw [Bytes.toNat_ofNat (by omega)] at hlow' hhigh'
  have hnone : (0 : UInt8).toNat = 0 := rfl
  omega

/-- The verdict on whole units of which the last is not zero. -/
theorem utf16LeOracle_ofUnits {us : List Nat} {u : Nat} (hword : ∀ v ∈ us ++ [u], v < 0x10000)
    (hzero : u ≠ 0) : utf16LeOracle.verify (Utf16.ofUnits (us ++ [u])) = true ↔
      4 ≤ (us ++ [u]).length ∧
      (us ++ [u]).length * 3 ≤ ((us ++ [u]).filter fun v => 0x20 ≤ v && v < 0x7f).length * 4 ∧
      ∃ v ∈ us ++ [u], v ≠ (us ++ [u]).getD 0 0 := by
  have htext := @utf16Text_ofUnits us u (hword u (by simp)) hzero
  have hlength := Utf16.length_ofUnits (us ++ [u])
  have hunits : Utf16.units (Utf16.ofUnits (us ++ [u])) = us ++ [u] := Utf16.units_ofUnits hword
  have hany : (us ++ [u]).any (· != 0) = true := by
    rw [List.any_eq_true]
    exact ⟨u, by simp, bne_iff_ne.mpr hzero⟩
  unfold utf16Text at htext
  generalize us ++ [u] = us at *
  have heven : (2 * us.length % 2 != 0) = false := by simp
  simp only [utf16LeOracle, htext]
  simp only [hlength, heven, hunits, hany, Bool.or_false, Bool.true_and, decide_eq_true_eq]
  by_cases hshort : 2 * us.length < 8
  · rw [if_pos hshort]
    simp only [Bool.false_eq_true, false_iff, not_and]
    omega
  · rw [if_neg hshort]
    by_cases hfew : (us.filter fun v => 0x20 ≤ v && v < 0x7f).length * 4 < us.length * 3
    · rw [if_pos hfew]
      simp only [Bool.false_eq_true, false_iff, not_and]
      omega
    · rw [if_neg hfew, List.any_eq_true]
      simp only [bne_iff_ne]
      constructor
      · intro hdiffer
        exact ⟨by omega, by omega, hdiffer⟩
      · rintro ⟨_, _, hdiffer⟩
        exact hdiffer

def PrintableAscii (c : Char) : Prop := 0x20 ≤ c.toNat ∧ c.toNat ≤ 0x7e

theorem utf16LeOracle_ascii {s : List Char} (hlen : 4 ≤ s.length)
    (hascii : ∀ c ∈ s, PrintableAscii c) (hdiffer : ∃ a ∈ s, ∃ b ∈ s, a ≠ b) :
    utf16LeOracle.verify (Utf16.encodeLE s) = true := by
  have hunits : s.flatMap Utf16.charUnits = s.map Char.toNat := by
    refine Utf16.flatMap_charUnits ?_
    intro c hc
    have := (hascii c hc).2
    omega
  have hprintable : ∀ u ∈ s.map Char.toNat, 0x20 ≤ u ∧ u < 0x7f := by
    intro u hu
    obtain ⟨c, hc, rfl⟩ := List.mem_map.mp hu
    exact ⟨(hascii c hc).1, Nat.lt_succ_of_le (hascii c hc).2⟩
  have hother : ∃ u ∈ s.map Char.toNat, u ≠ (s.map Char.toNat).getD 0 0 := by
    obtain ⟨a, ha, b, hb, hne⟩ := hdiffer
    by_cases hfirst : a.toNat = (s.map Char.toNat).getD 0 0
    · refine ⟨b.toNat, List.mem_map_of_mem hb, ?_⟩
      rw [← hfirst]
      exact fun heq => hne (Char.toNat_inj.mp heq.symm)
    · exact ⟨a.toNat, List.mem_map_of_mem ha, hfirst⟩
  have hall : ((s.map Char.toNat).filter fun v => 0x20 ≤ v && v < 0x7f) = s.map Char.toNat := by
    rw [List.filter_eq_self]
    intro u hu
    obtain ⟨hlow, hhigh⟩ := hprintable u hu
    simp [hlow, hhigh]
  have hne : s.map Char.toNat ≠ [] := by
    intro hnil
    have := congrArg List.length hnil
    rw [List.length_map, List.length_nil] at this
    omega
  have hcount : (s.map Char.toNat).length = s.length := List.length_map _
  rw [Utf16.encodeLE, hunits]
  generalize s.map Char.toNat = us at *
  obtain ⟨init, u, rfl⟩ := (List.eq_nil_or_concat' us).resolve_left hne
  rw [utf16LeOracle_ofUnits, hall]
  · exact ⟨by omega, by omega, hother⟩
  · intro v hv
    have := hprintable v hv
    omega
  · have := hprintable u (by simp)
    omega

/-- Zeros after a text change neither verdict, and a text of printable ASCII characters that
are not all the same is accepted with any number of zero units after it. -/
theorem text_oracles_ignore_zeros :
    (∀ (h : Bytes) (k : Nat),
      utf8Oracle.verify (h ++ List.replicate k 0) = utf8Oracle.verify h) ∧
    (∀ (h : Bytes) (k : Nat),
      utf16LeOracle.verify (h ++ List.replicate (2 * k) 0) = utf16LeOracle.verify h) ∧
    ∀ (s : List Char) (k : Nat), 4 ≤ s.length → (∀ c ∈ s, PrintableAscii c) →
      (∃ a ∈ s, ∃ b ∈ s, a ≠ b) →
      utf16LeOracle.verify (Utf16.encodeLE s ++ List.replicate (2 * k) 0) = true := by
  refine ⟨utf8Oracle_zeros, utf16LeOracle_zeros, ?_⟩
  intro s k hlen hascii hdiffer
  rw [utf16LeOracle_zeros]
  exact utf16LeOracle_ascii hlen hascii hdiffer

theorem text_oracles_ignore_zeros_sample :
    utf16LeOracle.verify (Utf16.encodeLE ['a', 'b', 'c', 'd'] ++ List.replicate (2 * 3) 0) =
      true := by
  refine text_oracles_ignore_zeros.2.2 ['a', 'b', 'c', 'd'] 3 (by decide) ?_
    ⟨'a', by simp, 'b', by simp, by decide⟩
  simp [PrintableAscii]

end Memhunt
