import Mathlib

/-! A loop that gathers results part by part under an optional limit: extend by the next part,
and once the limit is reached cut to it and stop. A part may also be skipped, or fail the run. -/
namespace Collect

variable {ι α ε : Type}

/-- A limit of `0` is no limit. `part i = .ok none` skips `i`, before the limit is looked at. -/
def collect (limit : Nat) (part : ι → Except ε (Option (List α))) :
    List ι → List α → Except ε (List α)
  | [], acc => .ok acc
  | i :: is, acc =>
      match part i with
      | .error e => .error e
      | .ok none => collect limit part is acc
      | .ok (some found) =>
          if 0 < limit ∧ limit ≤ (acc ++ found).length then .ok ((acc ++ found).take limit)
          else collect limit part is (acc ++ found)

def contribution (part : ι → Except ε (Option (List α))) (i : ι) : List α :=
  match part i with
  | .ok (some found) => found
  | _ => []

variable {part : ι → Except ε (Option (List α))}

theorem collect_of_parts_ok {is : List ι} (h : ∀ i ∈ is, ∃ r, part i = .ok r) (acc : List α) :
    collect 0 part is acc = .ok (acc ++ is.flatMap (contribution part)) := by
  induction is generalizing acc with
  | nil => simp [collect]
  | cons i is ih =>
      have tail := ih (fun j hj => h j (List.mem_cons_of_mem i hj))
      obtain ⟨r, hr⟩ := h i (by simp)
      cases r with
      | none => simp only [collect, hr, tail, List.flatMap_cons, contribution, List.nil_append]
      | some found =>
          simp only [collect, hr, Nat.lt_irrefl, false_and, if_false, tail, List.flatMap_cons,
            contribution, List.append_assoc]

theorem parts_ok_of_collect {is : List ι} {acc r : List α} (h : collect 0 part is acc = .ok r) :
    ∀ i ∈ is, ∃ r, part i = .ok r := by
  induction is generalizing acc with
  | nil => simp
  | cons i is ih =>
      cases hi : part i with
      | error e =>
          rw [collect, hi] at h
          cases h
      | ok found =>
          have tail : ∃ acc', collect 0 part is acc' = .ok r := by
            cases found with
            | none => exact ⟨acc, by simpa only [collect, hi] using h⟩
            | some found => exact ⟨acc ++ found, by simpa [collect, hi] using h⟩
          obtain ⟨acc', hacc⟩ := tail
          exact List.forall_mem_cons.mpr ⟨⟨found, hi⟩, ih hacc⟩

/-- A run that ends below its limit has asked every part. -/
theorem parts_ok_of_collect_short {limit : Nat} {is : List ι} {acc r : List α}
    (hshort : limit = 0 ∨ r.length < limit) (h : collect limit part is acc = .ok r) :
    ∀ i ∈ is, ∃ r, part i = .ok r := by
  induction is generalizing acc with
  | nil => simp
  | cons i is ih =>
      cases hi : part i with
      | error e =>
          rw [collect, hi] at h
          cases h
      | ok found =>
          have tail : ∃ acc', collect limit part is acc' = .ok r := by
            cases found with
            | none => exact ⟨acc, by simpa only [collect, hi] using h⟩
            | some found =>
                simp only [collect, hi] at h
                split at h
                · rename_i hfull
                  have hr : (acc ++ found).take limit = r := Except.ok.inj h
                  rw [← hr, List.length_take] at hshort
                  omega
                · exact ⟨_, h⟩
          obtain ⟨acc', hacc⟩ := tail
          exact List.forall_mem_cons.mpr ⟨⟨found, hi⟩, ih hacc⟩

theorem collect_eq_ok_iff {is : List ι} {r : List α} :
    collect 0 part is [] = .ok r ↔
      (∀ i ∈ is, ∃ r, part i = .ok r) ∧ r = is.flatMap (contribution part) := by
  constructor
  · intro h
    have parts := parts_ok_of_collect h
    rw [collect_of_parts_ok parts, List.nil_append] at h
    exact ⟨parts, (Except.ok.inj h).symm⟩
  · rintro ⟨parts, rfl⟩
    rw [collect_of_parts_ok parts, List.nil_append]

theorem mem_contribution {i : ι} {a : α} :
    a ∈ contribution part i ↔ ∃ found, part i = .ok (some found) ∧ a ∈ found := by
  unfold contribution
  split
  · rename_i found hi
    simp [hi]
  · rename_i hi
    simp only [List.not_mem_nil, false_iff, not_exists, not_and]
    intro found hf
    exact absurd hf (hi found)

/-- A limit changes nothing but the length: the first `limit` results of the unlimited run. -/
theorem collect_limit {limit : Nat} {is : List ι} {acc r : List α} (hlimit : 0 < limit)
    (hacc : acc.length < limit) (h : collect 0 part is acc = .ok r) :
    collect limit part is acc = .ok (r.take limit) := by
  induction is generalizing acc with
  | nil =>
      have hr : acc = r := Except.ok.inj h
      rw [collect, ← hr, List.take_of_length_le (by omega)]
  | cons i is ih =>
      cases hi : part i with
      | error e =>
          rw [collect, hi] at h
          cases h
      | ok found =>
          cases found with
          | none =>
              simp only [collect, hi] at h ⊢
              exact ih hacc h
          | some found =>
              simp only [collect, hi, Nat.lt_irrefl, false_and, if_false] at h
              by_cases hfull : limit ≤ (acc ++ found).length
              · have htail := collect_of_parts_ok (parts_ok_of_collect h) (acc ++ found)
                have hr : r = (acc ++ found) ++ is.flatMap (contribution part) :=
                  Except.ok.inj (h.symm.trans htail)
                simp only [collect, hi, if_pos (And.intro hlimit hfull)]
                rw [hr, List.take_append_of_le_length hfull]
              · have hnot : ¬ (0 < limit ∧ limit ≤ (acc ++ found).length) :=
                  fun hc => hfull hc.2
                simp only [collect, hi, if_neg hnot]
                exact ih (by omega) h

/-- Whatever the limit, every result was there before or comes from a part. -/
theorem mem_collect {limit : Nat} {is : List ι} {acc r : List α}
    (h : collect limit part is acc = .ok r) {a : α} (ha : a ∈ r) :
    a ∈ acc ∨ ∃ i ∈ is, a ∈ contribution part i := by
  induction is generalizing acc with
  | nil =>
      rw [collect, Except.ok.injEq] at h
      exact .inl (h ▸ ha)
  | cons i is ih =>
      have later : ∀ {acc}, collect limit part is acc = .ok r →
          a ∈ acc ∨ ∃ j ∈ i :: is, a ∈ contribution part j := by
        intro acc hacc
        rcases ih hacc with hmem | ⟨j, hj, hmem⟩
        · exact .inl hmem
        · exact .inr ⟨j, List.mem_cons_of_mem i hj, hmem⟩
      have first : ∀ {found}, part i = .ok (some found) → a ∈ acc ++ found →
          a ∈ acc ∨ ∃ j ∈ i :: is, a ∈ contribution part j := by
        intro found hi hmem
        rcases List.mem_append.mp hmem with hmem | hmem
        · exact .inl hmem
        · exact .inr ⟨i, List.mem_cons_self, mem_contribution.mpr ⟨found, hi, hmem⟩⟩
      cases hi : part i with
      | error e =>
          rw [collect, hi] at h
          cases h
      | ok found =>
          cases found with
          | none => exact later (by simpa only [collect, hi] using h)
          | some found =>
              simp only [collect, hi] at h
              split at h
              · exact first hi (List.mem_of_mem_take (Except.ok.inj h ▸ ha))
              · rcases later h with hmem | hmem
                · exact first hi hmem
                · exact .inr hmem

theorem collect_ok {limit : Nat} {is : List ι} (h : ∀ i ∈ is, ∃ r, part i = .ok r)
    (acc : List α) : ∃ r, collect limit part is acc = .ok r := by
  induction is generalizing acc with
  | nil => exact ⟨acc, rfl⟩
  | cons i is ih =>
      have tail := ih (fun j hj => h j (List.mem_cons_of_mem i hj))
      obtain ⟨r, hr⟩ := h i (by simp)
      cases r with
      | none =>
          simp only [collect, hr]
          exact tail acc
      | some found =>
          simp only [collect, hr]
          split
          · exact ⟨_, rfl⟩
          · exact tail _

theorem collect_error {limit : Nat} {is : List ι} {acc : List α} {e : ε}
    (h : collect limit part is acc = .error e) : ∃ i ∈ is, part i = .error e := by
  induction is generalizing acc with
  | nil => cases h
  | cons i is ih =>
      cases hi : part i with
      | error e' =>
          rw [collect, hi] at h
          cases h
          exact ⟨i, by simp, hi⟩
      | ok found =>
          have tail : ∃ acc', collect limit part is acc' = .error e := by
            cases found with
            | none => exact ⟨acc, by simpa only [collect, hi] using h⟩
            | some found =>
                simp only [collect, hi] at h
                split at h
                · cases h
                · exact ⟨_, h⟩
          obtain ⟨acc', hacc⟩ := tail
          obtain ⟨j, hj, he⟩ := ih hacc
          exact ⟨j, List.mem_cons_of_mem i hj, he⟩

end Collect
