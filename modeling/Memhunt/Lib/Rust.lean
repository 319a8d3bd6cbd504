import Mathlib

/-! Calls of a safe systems language: a call returns a value, returns an error text, or panics.
Slices are lists; every primitive that can panic says so in its result. -/
namespace Rust

inductive Panic where
  | indexOutOfBounds
  | sliceLength
  | zeroSize
  | divideByZero
  | unreachableCode
  | streamExhausted
  | capacityOverflow
  deriving DecidableEq, Repr

/-- Why a call ends without a value: the text of its `Err`, or a panic. -/
inductive Stop where
  | err (message : String)
  | panic (site : Panic)
  deriving DecidableEq, Repr

abbrev Run (α : Type) := Except Stop α

def fail {α : Type} (message : String) : Run α := .error (.err message)

def crash {α : Type} (site : Panic) : Run α := .error (.panic site)

def Errs {α : Type} (r : Run α) : Prop := ∃ message, r = .error (.err message)

def Panics {α : Type} (r : Run α) : Prop := ∃ site, r = .error (.panic site)

@[simp] theorem pure_eq {α : Type} (a : α) : (pure a : Run α) = .ok a := rfl

@[simp] theorem ok_bind {α β : Type} (a : α) (f : α → Run β) : (Except.ok a >>= f) = f a := rfl

@[simp] theorem error_bind {α β : Type} (s : Stop) (f : α → Run β) :
    ((Except.error s : Run α) >>= f) = .error s := rfl

@[simp] theorem fail_bind {α β : Type} (m : String) (f : α → Run β) :
    ((fail m : Run α) >>= f) = fail m := rfl

@[simp] theorem crash_bind {α β : Type} (p : Panic) (f : α → Run β) :
    ((crash p : Run α) >>= f) = crash p := rfl

@[simp] theorem errs_fail {α : Type} (m : String) : Errs (fail m : Run α) := ⟨m, rfl⟩

@[simp] theorem not_errs_ok {α : Type} (a : α) : ¬ Errs (.ok a : Run α) := by
  rintro ⟨m, h⟩
  cases h

@[simp] theorem fail_ne_ok {α : Type} (m : String) (a : α) : (fail m : Run α) ≠ .ok a := by
  intro h
  cases h

theorem not_panics_ok {α : Type} (a : α) : ¬ Panics (.ok a : Run α) := by
  rintro ⟨p, h⟩
  cases h

theorem not_panics_fail {α : Type} (m : String) : ¬ Panics (fail m : Run α) := by
  rintro ⟨p, h⟩
  cases h

theorem not_panics_of_errs {α : Type} {r : Run α} (h : Errs r) : ¬ Panics r := by
  obtain ⟨m, rfl⟩ := h
  exact not_panics_fail m

theorem panics_bind {α β : Type} {r : Run α} (h : Panics r) (f : α → Run β) :
    Panics (r >>= f) := by
  obtain ⟨site, rfl⟩ := h
  exact ⟨site, rfl⟩

theorem ok_of_panics_bind {α β : Type} {r : Run α} {f : α → Run β} (h : Panics (r >>= f))
    (hr : ¬ Panics r) : ∃ a, r = .ok a ∧ Panics (f a) := by
  rcases r with s | a
  · obtain ⟨site, hsite⟩ := h
    exact absurd ⟨site, congrArg Except.error (Except.error.inj hsite)⟩ hr
  · exact ⟨a, rfl, h⟩

theorem not_panics_bind {α β : Type} {r : Run α} {f : α → Run β} (hr : ¬ Panics r)
    (hf : ∀ a, ¬ Panics (f a)) : ¬ Panics (r >>= f) := by
  rcases r with s | a
  · rintro ⟨p, hp⟩
    exact hr ⟨p, congrArg Except.error (Except.error.inj hp)⟩
  · exact hf a

theorem ok_or_errs {α : Type} {r : Run α} (h : ¬ Panics r) : (∃ a, r = .ok a) ∨ Errs r := by
  rcases r with s | a
  · cases s with
    | err m => exact .inr ⟨m, rfl⟩
    | panic p => exact False.elim (h ⟨p, rfl⟩)
  · exact .inl ⟨a, rfl⟩

theorem bind_ok {α β : Type} {r : Run α} {f : α → Run β} {b : β} (h : (r >>= f) = .ok b) :
    ∃ a, r = .ok a ∧ f a = .ok b := by
  cases r with
  | error s => cases h
  | ok a => exact ⟨a, rfl, h⟩

theorem errs_bind {α β : Type} {r : Run α} {f : α → Run β} (hr : ¬ Panics r)
    (hf : ∀ a, r = .ok a → Errs (f a)) : Errs (r >>= f) := by
  rcases ok_or_errs hr with ⟨a, rfl⟩ | ⟨m, rfl⟩
  · exact hf a rfl
  · exact ⟨m, rfl⟩

theorem ok_of_map {α β : Type} {r : Run α} {f : α → β} {b : β} (h : r.map f = .ok b) :
    ∃ a, r = .ok a ∧ f a = b := by
  cases r with
  | error s => cases h
  | ok a => exact ⟨a, rfl, Except.ok.inj h⟩

/-- Both calls return an error, or both succeed with the same answer as `f` and `g` read it. A
panic agrees with nothing. -/
def Agree {α β γ : Type} (f : α → γ) (g : β → γ) (r : Run α) (s : Run β) : Prop :=
  (Errs r ∧ Errs s) ∨ ∃ a b, r = .ok a ∧ s = .ok b ∧ f a = g b

theorem agree_self {α γ : Type} {f : α → γ} {r : Run α} (h : ¬ Panics r) : Agree f f r r := by
  rcases ok_or_errs h with ⟨a, ha⟩ | herr
  · exact .inr ⟨a, a, ha, ha, rfl⟩
  · exact .inl ⟨herr, herr⟩

theorem Agree.not_panics {α β γ : Type} {f : α → γ} {g : β → γ} {r : Run α} {s : Run β}
    (h : Agree f g r s) : ¬ Panics r := by
  rcases h with ⟨hr, _⟩ | ⟨a, _, rfl, _, _⟩
  · exact not_panics_of_errs hr
  · exact not_panics_ok a

theorem Agree.errs_iff {α β γ : Type} {f : α → γ} {g : β → γ} {r : Run α} {s : Run β}
    (h : Agree f g r s) : Errs r ↔ Errs s := by
  rcases h with ⟨hr, hs⟩ | ⟨a, b, rfl, rfl, _⟩
  · exact iff_of_true hr hs
  · exact iff_of_false (not_errs_ok a) (not_errs_ok b)

theorem agree_iff_of_errs {α β γ : Type} {f : α → γ} {g : β → γ} {r : Run α} {s : Run β}
    (h : Errs s) : Agree f g r s ↔ Errs r := by
  constructor
  · rintro (⟨herr, _⟩ | ⟨_, b, _, hb, _⟩)
    · exact herr
    · rw [hb] at h
      exact absurd h (not_errs_ok b)
  · exact fun herr => .inl ⟨herr, h⟩

/-- What an optional call answered; nothing where it did not return. -/
def answer {α : Type} : Run (Option α) → Option α
  | .ok r => r
  | .error _ => none

theorem answer_eq_some {α : Type} {r : Run (Option α)} {a : α} :
    answer r = some a ↔ r = .ok (some a) := by
  cases r with
  | error s => simp [answer]
  | ok a => simp [answer]

section Slices
variable {α : Type}

/-- `xs[i]` -/
def index (xs : List α) (i : Nat) : Run α :=
  match xs[i]? with
  | some x => .ok x
  | none => crash .indexOutOfBounds

/-- `&xs[..n]` -/
def sliceTo (xs : List α) (n : Nat) : Run (List α) :=
  if n ≤ xs.length then .ok (xs.take n) else crash .sliceLength

/-- `&xs[n..]` -/
def sliceFrom (xs : List α) (n : Nat) : Run (List α) :=
  if n ≤ xs.length then .ok (xs.drop n) else crash .sliceLength

/-- `&xs[a..b]` -/
def sliceRange (xs : List α) (a b : Nat) : Run (List α) :=
  if a ≤ b ∧ b ≤ xs.length then .ok ((xs.drop a).take (b - a)) else crash .sliceLength

def divide (a b : Nat) : Run Nat :=
  if b = 0 then crash .divideByZero else .ok (a / b)

theorem index_ok {xs : List α} {i : Nat} {x : α} (h : xs[i]? = some x) : index xs i = .ok x := by
  simp only [index, h]

theorem sliceTo_ok {xs : List α} {n : Nat} (h : n ≤ xs.length) : sliceTo xs n = .ok (xs.take n) :=
  if_pos h

theorem sliceFrom_ok {xs : List α} {n : Nat} (h : n ≤ xs.length) :
    sliceFrom xs n = .ok (xs.drop n) := if_pos h

theorem sliceRange_ok {xs : List α} {a b : Nat} (hab : a ≤ b) (hb : b ≤ xs.length) :
    sliceRange xs a b = .ok ((xs.drop a).take (b - a)) := if_pos ⟨hab, hb⟩

theorem divide_ok {a b : Nat} (h : b ≠ 0) : divide a b = .ok (a / b) := if_neg h

end Slices

section Loops
variable {α β : Type}

theorem mapM_ok {f : α → Run β} {g : α → β} {xs : List α} (h : ∀ x ∈ xs, f x = .ok (g x)) :
    xs.mapM f = .ok (xs.map g) := by
  induction xs with
  | nil => rfl
  | cons x xs ih =>
      have head := h x (by simp)
      have tail := ih (fun y hy => h y (List.mem_cons_of_mem x hy))
      simp only [List.mapM_cons, head, tail, ok_bind, pure_eq, List.map_cons]

theorem ok_of_mapM {f : α → Run β} {xs : List α} {ys : List β} (h : xs.mapM f = .ok ys) :
    ∀ x ∈ xs, ∃ y, f x = .ok y := by
  induction xs generalizing ys with
  | nil => simp
  | cons x xs ih =>
      rw [List.mapM_cons] at h
      obtain ⟨y, hy, h⟩ := bind_ok h
      obtain ⟨zs, hzs, _⟩ := bind_ok h
      exact List.forall_mem_cons.mpr ⟨⟨y, hy⟩, ih hzs⟩

theorem error_of_mapM {f : α → Run β} {xs : List α} {s : Stop} (h : xs.mapM f = .error s) :
    ∃ x ∈ xs, f x = .error s := by
  induction xs with
  | nil => cases h
  | cons x xs ih =>
      rw [List.mapM_cons] at h
      cases hx : f x with
      | error t =>
          rw [hx, error_bind] at h
          exact ⟨x, List.mem_cons_self, hx.trans (congrArg Except.error (Except.error.inj h))⟩
      | ok y =>
          cases hxs : xs.mapM f with
          | error t =>
              rw [hx, hxs, ok_bind, error_bind] at h
              obtain ⟨z, hz, hs⟩ := ih (hxs.trans h)
              exact ⟨z, List.mem_cons_of_mem x hz, hs⟩
          | ok ys =>
              rw [hx, hxs] at h
              cases h

theorem not_panics_mapM {f : α → Run β} {xs : List α} (h : ∀ x ∈ xs, ¬ Panics (f x)) :
    ¬ Panics (xs.mapM f) := by
  rintro ⟨site, hsite⟩
  obtain ⟨x, hx, hf⟩ := error_of_mapM hsite
  exact h x hx ⟨site, hf⟩

theorem filterMapM_ok {f : α → Run (Option β)} {g : α → Option β} {xs : List α}
    (h : ∀ x ∈ xs, f x = .ok (g x)) : xs.filterMapM f = .ok (xs.filterMap g) := by
  induction xs with
  | nil => rfl
  | cons x xs ih =>
      have head := h x (by simp)
      have tail := ih (fun y hy => h y (List.mem_cons_of_mem x hy))
      simp only [List.filterMapM_cons, head, tail, ok_bind, pure_eq]
      cases hg : g x with
      | none => rw [List.filterMap_cons_none hg]
      | some y => rw [List.filterMap_cons_some hg]

theorem ok_of_filterMapM {f : α → Run (Option β)} {xs : List α} {ys : List β}
    (h : xs.filterMapM f = .ok ys) : ∀ x ∈ xs, ∃ y, f x = .ok y := by
  induction xs generalizing ys with
  | nil => simp
  | cons x xs ih =>
      rw [List.filterMapM_cons] at h
      obtain ⟨y, hy, h⟩ := bind_ok h
      refine List.forall_mem_cons.mpr ⟨⟨y, hy⟩, ?_⟩
      cases y with
      | none => exact ih h
      | some z =>
          obtain ⟨zs, hzs, _⟩ := bind_ok h
          exact ih hzs

theorem not_panics_filterMapM {f : α → Run (Option β)} {xs : List α}
    (h : ∀ x ∈ xs, ¬ Panics (f x)) : ¬ Panics (xs.filterMapM f) := by
  induction xs with
  | nil => exact not_panics_ok []
  | cons x xs ih =>
      obtain ⟨hx, hxs⟩ := List.forall_mem_cons.mp h
      rw [List.filterMapM_cons]
      refine not_panics_bind hx ?_
      intro r
      cases r with
      | none => exact ih hxs
      | some b => exact not_panics_bind (ih hxs) fun ys => not_panics_ok (b :: ys)

theorem filterMapM_ok_or_crash {f : α → Run (Option β)} {g : α → Option β} {p : Panic}
    {xs : List α} (h : ∀ x ∈ xs, f x = .ok (g x) ∨ f x = crash p) :
    xs.filterMapM f = .ok (xs.filterMap g) ∨ xs.filterMapM f = crash p := by
  induction xs with
  | nil => exact .inl rfl
  | cons x xs ih =>
      have tail := ih (fun y hy => h y (List.mem_cons_of_mem x hy))
      rcases h x (by simp) with head | head
      · rcases tail with tail | tail
        · refine .inl ?_
          simp only [List.filterMapM_cons, head, tail, ok_bind, pure_eq]
          cases hg : g x with
          | none => rw [List.filterMap_cons_none hg]
          | some y => rw [List.filterMap_cons_some hg]
        · refine .inr ?_
          simp only [List.filterMapM_cons, head, tail, ok_bind, crash_bind]
          cases g x with
          | none => rfl
          | some y => rfl
      · refine .inr ?_
        simp only [List.filterMapM_cons, head, crash_bind]

theorem mapM_some {f : α → Option β} {g : α → β} {xs : List α} (h : ∀ x ∈ xs, f x = some (g x)) :
    xs.mapM f = some (xs.map g) := by
  induction xs with
  | nil => rfl
  | cons x xs ih =>
      have head := h x (by simp)
      have tail := ih (fun y hy => h y (List.mem_cons_of_mem x hy))
      simp only [List.mapM_cons, head, tail, Option.bind_eq_bind, Option.bind_some, Option.pure_def,
        List.map_cons]

end Loops
end Rust
