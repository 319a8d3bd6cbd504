import Memhunt.Lib.Bytes

/-! Sliding windows over a list and the search that visits each of them once, in order. -/
namespace Windows
open Rust
open Bytes (slice)

variable {α β : Type}

/-- `xs.windows(n)`: every contiguous piece of length `n`, the last one included. -/
def windows (n : Nat) (xs : List α) : List (List α) :=
  (List.range (xs.length + 1 - n)).map fun o => slice xs o n

/-- The slice primitive itself, which panics on windows of size zero. -/
def windowsOf (n : Nat) (xs : List α) : Run (List (List α)) :=
  if n = 0 then crash .zeroSize else .ok (windows n xs)

theorem windowsOf_ok {n : Nat} (h : 0 < n) (xs : List α) :
    windowsOf n xs = .ok (windows n xs) := if_neg (by omega)

theorem zipIdx_windows (n : Nat) (xs : List α) :
    (windows n xs).zipIdx = (List.range (xs.length + 1 - n)).map fun o => (slice xs o n, o) := by
  apply List.ext_getElem
  · simp [windows]
  · intro i hi hj
    simp [windows]

theorem mem_zipIdx_windows {n : Nat} {xs w : List α} {o : Nat} :
    (w, o) ∈ (windows n xs).zipIdx ↔ o + n ≤ xs.length ∧ w = slice xs o n := by
  rw [zipIdx_windows]
  simp only [List.mem_map, List.mem_range, Prod.mk.injEq]
  constructor
  · rintro ⟨i, hi, rfl, rfl⟩
    exact ⟨by omega, rfl⟩
  · rintro ⟨ho, rfl⟩
    exact ⟨o, by omega, rfl, rfl⟩

def search (f : List α × Nat → Option β) (n : Nat) (xs : List α) : List β :=
  (windows n xs).zipIdx.filterMap f

theorem mem_search {f : List α × Nat → Option β} {n : Nat} {xs : List α} {b : β} :
    b ∈ search f n xs ↔ ∃ o, o + n ≤ xs.length ∧ f (slice xs o n, o) = some b := by
  simp only [search, List.mem_filterMap, Prod.exists]
  constructor
  · rintro ⟨w, o, hm, hf⟩
    obtain ⟨ho, rfl⟩ := mem_zipIdx_windows.mp hm
    exact ⟨o, ho, hf⟩
  · rintro ⟨o, ho, hf⟩
    exact ⟨slice xs o n, o, mem_zipIdx_windows.mpr ⟨ho, rfl⟩, hf⟩

/-- Searches that judge each window alike find results that correspond. -/
theorem search_rel {γ : Type} {R : β → γ → Prop} {f : List α × Nat → Option β}
    {g : List α × Nat → Option γ} (h : ∀ w o, Option.Rel R (f (w, o)) (g (w, o))) (n : Nat)
    (xs : List α) :
    (∀ b ∈ search f n xs, ∃ c ∈ search g n xs, R b c) ∧
      ∀ c ∈ search g n xs, ∃ b ∈ search f n xs, R b c := by
  constructor
  · intro b hb
    obtain ⟨o, ho, hf⟩ := mem_search.mp hb
    have hrel := h (slice xs o n) o
    rw [hf] at hrel
    generalize hg : g (slice xs o n, o) = c at hrel
    cases hrel with
    | some hR => exact ⟨_, mem_search.mpr ⟨o, ho, hg⟩, hR⟩
  · intro c hc
    obtain ⟨o, ho, hg⟩ := mem_search.mp hc
    have hrel := h (slice xs o n) o
    rw [hg] at hrel
    generalize hf : f (slice xs o n, o) = b at hrel
    cases hrel with
    | some hR => exact ⟨_, mem_search.mpr ⟨o, ho, hf⟩, hR⟩

theorem search_short {f : List α × Nat → Option β} {n : Nat} {xs : List α} (h : xs.length < n) :
    search f n xs = [] := by
  apply List.eq_nil_iff_forall_not_mem.mpr
  intro b hb
  obtain ⟨o, ho, _⟩ := mem_search.mp hb
  omega

/-- Results that name their offset come out strictly increasing, so each offset at most once. -/
theorem search_increasing {f : List α × Nat → Option β} (key : β → Nat)
    (hkey : ∀ w o b, f (w, o) = some b → key b = o) (n : Nat) (xs : List α) :
    ((search f n xs).map key).Pairwise (· < ·) := by
  have hrange : (List.range (xs.length + 1 - n)).Pairwise (· < ·) := List.pairwise_lt_range
  rw [search, zipIdx_windows, List.filterMap_map, List.pairwise_map]
  refine List.Pairwise.filterMap _ ?_ hrange
  intro i j hij b hb c hc
  rw [hkey _ _ _ hb, hkey _ _ _ hc]
  exact hij

/-- Pieces of a list, by where they start and how long they are, that have every window of length
`n` between them. -/
structure Covers (pieces : List (Nat × Nat)) (n length : Nat) : Prop where
  within : ∀ p ∈ pieces, p.1 + p.2 ≤ length
  windows : ∀ o, o + n ≤ length → ∃ p ∈ pieces, p.1 ≤ o ∧ o + n ≤ p.1 + p.2

theorem Covers.longest {pieces : List (Nat × Nat)} {n length : Nat} (h : Covers pieces n length) :
    n ≤ length ↔ ∃ p ∈ pieces, n ≤ p.2 := by
  constructor
  · intro hn
    obtain ⟨p, hp, hstart, hend⟩ := h.windows 0 (by omega)
    exact ⟨p, hp, by omega⟩
  · rintro ⟨p, hp, hn⟩
    have := h.within p hp
    omega

/-- A search finds what the searches of the pieces find between them. -/
theorem Covers.mem_search {pieces : List (Nat × Nat)} {n : Nat} {xs : List α}
    (h : Covers pieces n xs.length) {f : List α × Nat → Option β} {b : β} :
    b ∈ search f n xs ↔
      ∃ p ∈ pieces, b ∈ search (fun (w, o) => f (w, p.1 + o)) n (slice xs p.1 p.2) := by
  rw [Windows.mem_search]
  constructor
  · rintro ⟨o, ho, hf⟩
    obtain ⟨p, hp, hstart, hend⟩ := h.windows o ho
    refine ⟨p, hp, Windows.mem_search.mpr ⟨o - p.1, ?_, ?_⟩⟩
    · rw [Bytes.length_slice (h.within p hp)]
      omega
    · dsimp only
      rw [Bytes.slice_slice (by omega), Nat.add_sub_cancel' hstart]
      exact hf
  · rintro ⟨p, hp, hmem⟩
    have hwithin := h.within p hp
    obtain ⟨o, ho, hf⟩ := Windows.mem_search.mp hmem
    rw [Bytes.length_slice hwithin] at ho
    rw [Bytes.slice_slice ho] at hf
    exact ⟨p.1 + o, by omega, hf⟩

/-- A piece at every multiple of `step`, each running `overlap` into the next ones. -/
def pieces (step overlap length : Nat) : List (Nat × Nat) :=
  (List.range (length / step + 1)).map fun i =>
    (i * step, min (step + overlap) (length - i * step))

theorem covers_pieces {step overlap n : Nat} (hstep : 0 < step) (hn : n ≤ overlap + 1)
    (length : Nat) : Covers (pieces step overlap length) n length where
  within := by
    intro p hp
    obtain ⟨i, hi, rfl⟩ := List.mem_map.mp hp
    have hle : i * step ≤ length :=
      (Nat.le_div_iff_mul_le hstep).mp (Nat.le_of_lt_succ (List.mem_range.mp hi))
    exact (Nat.add_le_add_left (Nat.min_le_right _ _) _).trans (Nat.add_sub_of_le hle).le
  windows := by
    intro o ho
    have hlow : o / step * step ≤ o := Nat.div_mul_le_self o step
    have hhigh : o < o / step * step + step := Nat.lt_div_mul_add hstep
    have hindex : o / step ≤ length / step := Nat.div_le_div_right (by omega)
    refine ⟨_, List.mem_map.mpr ⟨o / step, List.mem_range.mpr (by omega), rfl⟩, hlow, ?_⟩
    dsimp only
    omega

section Marked
variable {P : Nat → Prop} [DecidablePred P] {g : Nat → β} {n : Nat} {xs : List α}

theorem mem_search_marked (hfits : ∀ o, P o → o + n ≤ xs.length) {b : β} :
    b ∈ search (fun (_, o) => if P o then some (g o) else none) n xs ↔ ∃ o, P o ∧ g o = b := by
  rw [mem_search]
  constructor
  · rintro ⟨o, _, ho⟩
    obtain ⟨hat, heq⟩ := Option.ite_none_right_eq_some.mp ho
    exact ⟨o, hat, Option.some.inj heq⟩
  · rintro ⟨o, hat, heq⟩
    exact ⟨o, hfits o hat, Option.ite_none_right_eq_some.mpr ⟨hat, congrArg some heq⟩⟩

theorem search_marked_increasing (key : β → Nat) (hkey : ∀ o, key (g o) = o) :
    ((search (fun (_, o) => if P o then some (g o) else none) n xs).map key).Pairwise (· < ·) := by
  refine search_increasing key ?_ n xs
  intro w o b hb
  rw [← Option.some.inj (Option.ite_none_right_eq_some.mp hb).2]
  exact hkey o

end Marked

/-- Run `body` on every window and its offset unless `stop` is set: what it found, and on how many
windows it ran. -/
def visit (stop : Bool) (n : Nat) (xs : List α) (body : List α → Nat → Run (Option β)) :
    Run (List β × Nat) := do
  let candidates ← windowsOf n xs
  let visited := candidates.zipIdx.filter fun _ => !stop
  let found ← visited.filterMapM fun (w, o) => body w o
  return (found, visited.length)

theorem visit_eq {n : Nat} (hn : 0 < n) (xs : List α) (body : List α → Nat → Run (Option β)) :
    visit false n xs body =
      ((windows n xs).zipIdx.filterMapM fun (w, o) => body w o) >>= fun found =>
        .ok (found, xs.length + 1 - n) := by
  have hfilter : (windows n xs).zipIdx.filter (fun _ => !false) = (windows n xs).zipIdx :=
    List.filter_eq_self.mpr (fun _ _ => rfl)
  have hlen : (windows n xs).zipIdx.length = xs.length + 1 - n := by
    simp only [List.length_zipIdx, windows, List.length_map, List.length_range]
  simp only [visit, windowsOf_ok hn, ok_bind, hfilter, pure_eq, hlen]

theorem count_of_visit {n : Nat} {xs : List α} {body : List α → Nat → Run (Option β)}
    {v : List β × Nat} (hn : 0 < n) (h : visit false n xs body = .ok v) :
    v.2 = xs.length + 1 - n := by
  rw [visit_eq hn] at h
  obtain ⟨found, _, hv⟩ := bind_ok h
  exact (congrArg Prod.snd (Except.ok.inj hv)).symm

theorem visit_ok {n : Nat} {xs : List α} {body : List α → Nat → Run (Option β)}
    {f : List α × Nat → Option β} (hn : 0 < n)
    (h : ∀ o, o + n ≤ xs.length → body (slice xs o n) o = .ok (f (slice xs o n, o))) :
    visit false n xs body = .ok (search f n xs, xs.length + 1 - n) := by
  have hbody : ∀ wo ∈ (windows n xs).zipIdx, body wo.1 wo.2 = .ok (f wo) := by
    intro (w, o) hmem
    obtain ⟨ho, rfl⟩ := mem_zipIdx_windows.mp hmem
    exact h o ho
  rw [visit_eq hn, filterMapM_ok hbody, ok_bind, search]

theorem visit_ok_or_crash {n : Nat} {xs : List α} {body : List α → Nat → Run (Option β)}
    {f : List α × Nat → Option β} {p : Panic} (hn : 0 < n)
    (h : ∀ o, o + n ≤ xs.length →
      body (slice xs o n) o = .ok (f (slice xs o n, o)) ∨ body (slice xs o n) o = crash p) :
    visit false n xs body = .ok (search f n xs, xs.length + 1 - n) ∨
      visit false n xs body = crash p := by
  have hbody : ∀ wo ∈ (windows n xs).zipIdx,
      body wo.1 wo.2 = .ok (f wo) ∨ body wo.1 wo.2 = crash p := by
    intro (w, o) hmem
    obtain ⟨ho, rfl⟩ := mem_zipIdx_windows.mp hmem
    exact h o ho
  rw [visit_eq hn]
  rcases filterMapM_ok_or_crash hbody with hall | hcrash
  · exact .inl (by rw [hall, ok_bind, search])
  · exact .inr (by rw [hcrash, crash_bind])

end Windows
