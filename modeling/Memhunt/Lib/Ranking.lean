import Mathlib

/-! Lists in a strict order: who stands among the first few. -/
namespace Ranking

variable {α : Type} {r : α → α → Prop}

theorem nodup_of_sorted (hasymm : ∀ a b, r a b → ¬ r b a) {l : List α} (hsorted : l.Pairwise r) :
    l.Nodup := by
  refine hsorted.imp ?_
  rintro a _ h rfl
  exact hasymm a a h h

theorem mem_take_iff_filter [DecidableRel r] (hasymm : ∀ a b, r a b → ¬ r b a) {l : List α}
    (hsorted : l.Pairwise r) {x : α} (hx : x ∈ l) (n : Nat) :
    x ∈ l.take n ↔ (l.filter fun y => r y x).length < n := by
  induction l generalizing n with
  | nil => cases hx
  | cons a l ih =>
      obtain ⟨hbefore, hrest⟩ := List.pairwise_cons.mp hsorted
      cases n with
      | zero => simp
      | succ n =>
          rw [List.take_succ_cons, List.mem_cons]
          rcases List.mem_cons.mp hx with rfl | hmem
          · have hnone : ((x :: l).filter fun y => r y x) = [] := by
              rw [List.filter_eq_nil_iff]
              intro y hy hyx
              rw [decide_eq_true_iff] at hyx
              rcases List.mem_cons.mp hy with rfl | hl
              · exact hasymm y y hyx hyx
              · exact hasymm x y (hbefore y hl) hyx
            rw [hnone]
            simp
          · have hax := hbefore x hmem
            have hne : x ≠ a := by
              rintro rfl
              exact hasymm x x hax hax
            rw [List.filter_cons, if_pos (decide_eq_true hax), List.length_cons,
              Nat.add_lt_add_iff_right, ← ih hrest hmem n]
            exact or_iff_right hne

/-- An element is among the first `n` when fewer than `n` go before it. -/
theorem mem_take_iff (hasymm : ∀ a b, r a b → ¬ r b a) {l : List α} (hsorted : l.Pairwise r)
    {x : α} (hx : x ∈ l) (n : Nat) : x ∈ l.take n ↔ {y | y ∈ l ∧ r y x}.ncard < n := by
  classical
  have hset : {y | y ∈ l ∧ r y x} = ↑(l.filter fun y => r y x).toFinset := by
    ext y
    simp
  rw [hset, Set.ncard_coe_finset,
    List.toFinset_card_of_nodup ((nodup_of_sorted hasymm hsorted).filter _)]
  exact mem_take_iff_filter hasymm hsorted hx n

/-- The first element is the one that nothing goes before. -/
theorem head?_eq_some_iff (hasymm : ∀ a b, r a b → ¬ r b a) {l : List α}
    (hsorted : l.Pairwise r) {x : α} :
    l.head? = some x ↔ x ∈ l ∧ ∀ y ∈ l, ¬ r y x := by
  cases l with
  | nil => simp
  | cons a l =>
      obtain ⟨hbefore, _⟩ := List.pairwise_cons.mp hsorted
      rw [List.head?_cons, Option.some.injEq]
      constructor
      · rintro rfl
        refine ⟨List.mem_cons_self, fun y hy hya => ?_⟩
        rcases List.mem_cons.mp hy with rfl | hl
        · exact hasymm y y hya hya
        · exact hasymm a y (hbefore y hl) hya
      · rintro ⟨hx, hfirst⟩
        rcases List.mem_cons.mp hx with rfl | hl
        · rfl
        · exact absurd (hbefore x hl) (hfirst a List.mem_cons_self)

end Ranking
