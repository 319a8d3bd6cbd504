import Memhunt.Lib.Windows

/-! Workers that share a list of tasks and one counter. Any task may move at any moment; what the
workers return together is what one of them returns alone, task after task. -/
namespace Workers
open Rust

variable {α σ γ β : Type}

/-- How far a task has come: not taken yet; taken, with what it found, how many items it has looked
at and those to come; given up. -/
inductive Task (σ γ β : Type) where
  | waiting
  | running (state : σ) (found : List β) (looked : Nat) (todo : List γ)
  | failed (looked : Nat) (stop : Stop)

structure Pool (α σ γ β : Type) where
  tasks : List (α × Task σ γ β)
  counter : Nat

def Pool.initial (work : List α) (counter : Nat) : Pool α σ γ β :=
  { tasks := work.map fun a => (a, .waiting), counter }

section Alone
variable (start : α → Run (σ × List γ)) (f : σ → γ → Run (σ × Option β))

/-- One task's items in their order. -/
def items : σ → List γ → Run (List β)
  | _, [] => .ok []
  | s, w :: ws => do
      let (s, b) ← f s w
      let found ← items s ws
      return b.toList ++ found

theorem items_cons_ok {f : σ → γ → Run (σ × Option β)} {s s' : σ} {w : γ} {ws : List γ}
    {b : Option β} (h : f s w = .ok (s', b)) :
    items f s (w :: ws) = items f s' ws >>= fun found => .ok (b.toList ++ found) := by
  rw [items, h]
  rfl

theorem items_cons_error {f : σ → γ → Run (σ × Option β)} {s : σ} {w : γ} {ws : List γ}
    {stop : Stop} (h : f s w = .error stop) : items f s (w :: ws) = .error stop := by
  rw [items, h]
  rfl

/-- One task from its start to its end: what it finds, and how many items it looks at. -/
def task (a : α) : Run (List β × Nat) := do
  let (s, ws) ← start a
  let found ← items f s ws
  return (found, ws.length)

/-- The tasks one after the other. -/
def sequential (work : List α) : Run (List β × Nat) := do
  let done ← work.mapM (task start f)
  return (done.flatMap Prod.fst, (done.map Prod.snd).sum)

end Alone

section Together
variable (start : α → Run (σ × List γ)) (body : σ → γ → Run (σ × Option β) → Prop)

/-- One move of one task, and what it adds to the counter. -/
inductive Move (a : α) : Task σ γ β → Nat → Task σ γ β → Prop where
  | take {s : σ} {ws : List γ} (h : start a = .ok (s, ws)) : Move a .waiting 0 (.running s [] 0 ws)
  | refuse {stop : Stop} (h : start a = .error stop) : Move a .waiting 0 (.failed 0 stop)
  | look {s s' : σ} {found : List β} {n : Nat} {w : γ} {ws : List γ} {b : Option β}
      (h : body s w (.ok (s', b))) :
      Move a (.running s found n (w :: ws)) 1 (.running s' (found ++ b.toList) (n + 1) ws)
  | stumble {s : σ} {found : List β} {n : Nat} {w : γ} {ws : List γ} {stop : Stop}
      (h : body s w (.error stop)) :
      Move a (.running s found n (w :: ws)) 1 (.failed (n + 1) stop)

/-- Some task moves; the others stand still. -/
inductive Step : Pool α σ γ β → Pool α σ γ β → Prop where
  | move {pre post : List (α × Task σ γ β)} {a : α} {t t' : Task σ γ β} {n counter : Nat}
      (h : Move start body a t n t') :
      Step ⟨pre ++ (a, t) :: post, counter⟩ ⟨pre ++ (a, t') :: post, counter + n⟩

abbrev Reach : Pool α σ γ β → Pool α σ γ β → Prop := Relation.ReflTransGen (Step start body)

end Together

def Task.found : Task σ γ β → List β
  | .running _ found _ _ => found
  | _ => []

def Task.looked : Task σ γ β → Nat
  | .waiting => 0
  | .running _ _ n _ => n
  | .failed n _ => n

def Task.Finished (t : Task σ γ β) : Prop := ∃ s found n, t = .running s found n []

/-- What the pool hands back: everything found in the order of the tasks, once all are finished; a
failure as soon as there is one. -/
inductive Outcome (p : Pool α σ γ β) : Run (List β × Nat) → Prop where
  | value (h : ∀ at_ ∈ p.tasks, at_.2.Finished) :
      Outcome p (.ok (p.tasks.flatMap fun at_ => at_.2.found, p.counter))
  | failure {a : α} {n : Nat} {stop : Stop} (h : (a, Task.failed n stop) ∈ p.tasks) :
      Outcome p (.error stop)

/-- The workers return `r`, in some order of their moves. -/
def Returns (start : α → Run (σ × List γ)) (body : σ → γ → Run (σ × Option β) → Prop)
    (work : List α) (counter : Nat) (r : Run (List β × Nat)) : Prop :=
  ∃ p, Reach start body (Pool.initial work counter) p ∧ Outcome p r

section Invariant
variable {start : α → Run (σ × List γ)} {body : σ → γ → Run (σ × Option β) → Prop}
variable {f : σ → γ → Run (σ × Option β)}

/-- On the items of `a` the body has the one result that `f` gives. -/
def Computes (start : α → Run (σ × List γ)) (body : σ → γ → Run (σ × Option β) → Prop)
    (f : σ → γ → Run (σ × Option β)) (a : α) : Prop :=
  ∀ s ws, start a = .ok (s, ws) → ∀ w ∈ ws, ∀ s' r, body s' w r ↔ r = f s' w

/-- What is still to come completes what the task has to the task's own result. -/
def Task.Sound (start : α → Run (σ × List γ)) (f : σ → γ → Run (σ × Option β)) (a : α) :
    Task σ γ β → Prop
  | .waiting => True
  | .running s found n todo =>
      (∃ s₀ ws, start a = .ok (s₀, ws) ∧ todo ⊆ ws) ∧
        task start f a = items f s todo >>= fun rest => .ok (found ++ rest, n + todo.length)
  | .failed _ stop => task start f a = .error stop

theorem sound_move {a : α} (hbody : Computes start body f a) {t t' : Task σ γ β} {n : Nat}
    (hmove : Move start body a t n t') (hsound : t.Sound start f a) :
    t'.Sound start f a ∧ t'.looked = t.looked + n := by
  cases hmove with
  | take h =>
      refine ⟨⟨⟨_, _, h, List.Subset.refl _⟩, ?_⟩, rfl⟩
      simp [task, h]
  | refuse h => exact ⟨by simp [Task.Sound, task, h], rfl⟩
  | @look s s' found n w ws b h =>
      obtain ⟨⟨s₀, ws₀, hstart, hsub⟩, htask⟩ := hsound
      have hf := (hbody _ _ hstart w (hsub List.mem_cons_self) s _).mp h
      refine ⟨⟨⟨s₀, ws₀, hstart, fun v hv => hsub (List.mem_cons_of_mem w hv)⟩, ?_⟩, rfl⟩
      rw [htask, items_cons_ok hf.symm]
      cases items f s' ws with
      | error stop => rfl
      | ok rest =>
          simp only [ok_bind, List.length_cons, List.append_assoc]
          rw [Nat.add_right_comm n 1 ws.length, Nat.add_assoc n]
  | @stumble s found n w ws stop h =>
      obtain ⟨⟨s₀, ws₀, hstart, hsub⟩, htask⟩ := hsound
      have hf := (hbody _ _ hstart w (hsub List.mem_cons_self) s _).mp h
      refine ⟨?_, rfl⟩
      rw [Task.Sound, htask, items_cons_error hf.symm]
      rfl

/-- The tasks are those of the work, each is sound, and the counter has counted every look. -/
structure Pool.Sound (start : α → Run (σ × List γ)) (f : σ → γ → Run (σ × Option β))
    (work : List α) (base : Nat) (p : Pool α σ γ β) : Prop where
  work_eq : p.tasks.map Prod.fst = work
  counter_eq : p.counter = base + (p.tasks.map fun at_ => at_.2.looked).sum
  sound : ∀ at_ ∈ p.tasks, at_.2.Sound start f at_.1

theorem sound_initial (work : List α) (base : Nat) :
    (Pool.initial work base : Pool α σ γ β).Sound start f work base := by
  constructor
  · simp [Pool.initial, Function.comp_def]
  · simp [Pool.initial, Function.comp_def, Task.looked]
  · intro at_ hat
    obtain ⟨a, _, rfl⟩ := List.mem_map.mp hat
    trivial

theorem sound_step {work : List α} {base : Nat} {p q : Pool α σ γ β}
    (hbody : ∀ a ∈ work, Computes start body f a) (hstep : Step start body p q)
    (h : p.Sound start f work base) : q.Sound start f work base := by
  obtain @⟨pre, post, a, t, t', n, counter, hmove⟩ := hstep
  have ha : a ∈ work := by
    rw [← h.work_eq]
    simp
  obtain ⟨hsound, hlooked⟩ := sound_move (hbody a ha) hmove (h.sound (a, t) (by simp))
  constructor
  · rw [← h.work_eq]
    simp
  · have hcounter : counter = _ := h.counter_eq
    rw [hcounter]
    simp [hlooked]
    omega
  · intro at_ hat
    rcases List.mem_append.mp hat with hpre | hpost
    · exact h.sound at_ (List.mem_append_left _ hpre)
    · rcases List.mem_cons.mp hpost with rfl | hpost
      · exact hsound
      · exact h.sound at_ (List.mem_append_right _ (List.mem_cons_of_mem _ hpost))

theorem sound_reach {work : List α} {base : Nat} {p : Pool α σ γ β}
    (hbody : ∀ a ∈ work, Computes start body f a)
    (hreach : Reach start body (Pool.initial work base) p) : p.Sound start f work base := by
  induction hreach with
  | refl => exact sound_initial work base
  | tail _ hstep ih => exact sound_step hbody hstep ih

theorem task_finished {a : α} {t : Task σ γ β} (hsound : t.Sound start f a) (h : t.Finished) :
    task start f a = .ok (t.found, t.looked) := by
  obtain ⟨s, found, n, rfl⟩ := h
  rw [hsound.2, items, ok_bind, List.append_nil]
  rfl

theorem sequential_of_finished {work : List α} {base : Nat} {p : Pool α σ γ β}
    (hsound : p.Sound start f work base) (h : ∀ at_ ∈ p.tasks, at_.2.Finished) :
    ∃ n, p.counter = base + n ∧
      sequential start f work = .ok (p.tasks.flatMap fun at_ => at_.2.found, n) := by
  refine ⟨(p.tasks.map fun at_ => at_.2.looked).sum, hsound.counter_eq, ?_⟩
  have hdone : work.mapM (task start f) =
      .ok (p.tasks.map fun at_ => (at_.2.found, at_.2.looked)) := by
    rw [← hsound.work_eq, List.mapM_map]
    exact mapM_ok fun at_ hat => task_finished (hsound.sound at_ hat) (h at_ hat)
  simp only [sequential, hdone, ok_bind, pure_eq, List.flatMap_map, List.map_map,
    Function.comp_def]

theorem error_of_failed {work : List α} {base : Nat} {p : Pool α σ γ β}
    (hsound : p.Sound start f work base) {a : α} {n : Nat} {stop : Stop}
    (h : (a, Task.failed n stop) ∈ p.tasks) : a ∈ work ∧ task start f a = .error stop := by
  refine ⟨?_, hsound.sound _ h⟩
  rw [← hsound.work_eq]
  exact List.mem_map.mpr ⟨_, h, rfl⟩

theorem sequential_ne_ok {work : List α} {a : α} {stop : Stop} (ha : a ∈ work)
    (h : task start f a = .error stop) (v : List β × Nat) : sequential start f work ≠ .ok v := by
  intro hok
  obtain ⟨done, hdone, _⟩ := bind_ok hok
  obtain ⟨y, hy⟩ := ok_of_mapM hdone a ha
  rw [h] at hy
  cases hy

theorem error_of_sequential {work : List α} {stop : Stop}
    (h : sequential start f work = .error stop) : ∃ a ∈ work, task start f a = .error stop := by
  unfold sequential at h
  cases hdone : work.mapM (task start f) with
  | ok done =>
      rw [hdone] at h
      cases h
  | error s =>
      rw [hdone] at h
      cases h
      exact error_of_mapM hdone

theorem sequential_cons (a : α) (work : List α) :
    sequential start f (a :: work) = task start f a >>= fun v =>
      sequential start f work >>= fun vs => .ok (v.1 ++ vs.1, v.2 + vs.2) := by
  simp only [sequential, List.mapM_cons]
  cases task start f a with
  | error s => rfl
  | ok v =>
      cases work.mapM (task start f) with
      | error s => rfl
      | ok done => rfl

/-- What the workers return is what one of them returns alone, with the counter moved on. -/
theorem returns_value {work : List α} {base : Nat} {v : List β × Nat}
    (hbody : ∀ a ∈ work, Computes start body f a)
    (h : Returns start body work base (.ok v)) :
    ∃ n, v.2 = base + n ∧ sequential start f work = .ok (v.1, n) := by
  obtain ⟨p, hreach, hout⟩ := h
  cases hout with
  | value hfin => exact sequential_of_finished (sound_reach hbody hreach) hfin

theorem returns_failure {work : List α} {base : Nat} {stop : Stop}
    (hbody : ∀ a ∈ work, Computes start body f a)
    (h : Returns start body work base (.error stop)) :
    ∃ a ∈ work, task start f a = .error stop := by
  obtain ⟨p, hreach, hout⟩ := h
  cases hout with
  | failure hmem =>
      obtain ⟨ha, hstop⟩ := error_of_failed (sound_reach hbody hreach) hmem
      exact ⟨_, ha, hstop⟩

end Invariant

section Progress
variable {start : α → Run (σ × List γ)} {body : σ → γ → Run (σ × Option β) → Prop}

/-- How many moves a task has before it. -/
def Task.left (start : α → Run (σ × List γ)) (a : α) : Task σ γ β → Nat
  | .waiting => 1 + match start a with
      | .ok (_, ws) => ws.length
      | .error _ => 0
  | .running _ _ _ todo => todo.length
  | .failed _ _ => 0

def Pool.left (start : α → Run (σ × List γ)) (p : Pool α σ γ β) : Nat :=
  (p.tasks.map fun at_ => at_.2.left start at_.1).sum

theorem left_move {a : α} {t t' : Task σ γ β} {n : Nat} (h : Move start body a t n t') :
    t'.left start a < t.left start a := by
  cases h with
  | take h =>
      simp only [Task.left, h]
      omega
  | refuse h =>
      simp only [Task.left, h]
      omega
  | look _ => simp [Task.left]
  | stumble _ => simp [Task.left]

theorem left_step {p q : Pool α σ γ β} (h : Step start body p q) : q.left start < p.left start := by
  obtain @⟨pre, post, a, t, t', n, counter, hmove⟩ := h
  have hleft := left_move hmove
  simp only [Pool.left, List.map_append, List.map_cons, List.sum_append, List.sum_cons]
  omega

/-- No run is longer than the moves that were left when it began. -/
theorem length_run_le {p : Pool α σ γ β} {qs : List (Pool α σ γ β)}
    (h : (p :: qs).IsChain (Step start body)) : qs.length ≤ p.left start := by
  induction qs generalizing p with
  | nil => exact Nat.zero_le _
  | cons q qs ih =>
      obtain ⟨hstep, hrest⟩ := List.isChain_cons_cons.mp h
      have hdown := left_step hstep
      have hlen := ih hrest
      rw [List.length_cons]
      omega

variable (start) in
theorem move_or_settled (hbody : ∀ s w, ∃ r, body s w r) (a : α) (t : Task σ γ β) :
    (∃ n t', Move start body a t n t') ∨ t.Finished ∨ ∃ n stop, t = .failed n stop := by
  cases t with
  | waiting =>
      refine .inl ?_
      cases hstart : start a with
      | error stop => exact ⟨0, _, .refuse hstart⟩
      | ok sws => exact ⟨0, _, .take hstart⟩
  | failed n stop => exact .inr (.inr ⟨n, stop, rfl⟩)
  | running s found n todo =>
      cases todo with
      | nil => exact .inr (.inl ⟨s, found, n, rfl⟩)
      | cons w ws =>
          refine .inl ?_
          obtain ⟨r, hr⟩ := hbody s w
          cases r with
          | error stop => exact ⟨1, _, .stumble hr⟩
          | ok sb => exact ⟨1, _, .look hr⟩

variable (start) in
/-- The workers are never stuck: either there is something to hand back or some task can move. -/
theorem outcome_or_step (hbody : ∀ s w, ∃ r, body s w r) (p : Pool α σ γ β) :
    (∃ r, Outcome p r) ∨ ∃ q, Step start body p q := by
  by_cases hfin : ∀ at_ ∈ p.tasks, at_.2.Finished
  · exact .inl ⟨_, .value hfin⟩
  · push Not at hfin
    obtain ⟨⟨a, t⟩, hmem, hnot⟩ := hfin
    rcases move_or_settled start hbody a t with ⟨n, t', hmove⟩ | hdone | ⟨n, stop, rfl⟩
    · refine .inr ?_
      obtain ⟨pre, post, htasks⟩ := List.append_of_mem hmem
      obtain ⟨tasks, counter⟩ := p
      obtain rfl : tasks = pre ++ (a, t) :: post := htasks
      exact ⟨_, .move hmove⟩
    · exact absurd hdone hnot
    · exact .inl ⟨_, .failure hmem⟩

variable (start) in
/-- From wherever they are, the workers can come to an end. -/
theorem outcome_reachable (hbody : ∀ s w, ∃ r, body s w r) (p : Pool α σ γ β) :
    ∃ q r, Reach start body p q ∧ Outcome q r := by
  induction h : p.left start using Nat.strong_induction_on generalizing p with
  | _ n ih =>
      rcases outcome_or_step start hbody p with ⟨r, hr⟩ | ⟨q, hstep⟩
      · exact ⟨p, r, .refl, hr⟩
      · have hdown : q.left start < n := h ▸ left_step hstep
        obtain ⟨q', r, hreach, hr⟩ := ih _ hdown q rfl
        exact ⟨q', r, .head hstep hreach, hr⟩

end Progress

section Bounds
variable {start : α → Run (σ × List γ)} {f : σ → γ → Run (σ × Option β)}

theorem looked_add_left_le {a : α} {t : Task σ γ β} {v : List β × Nat}
    (hsound : t.Sound start f a) (h : task start f a = .ok v) :
    t.looked ≤ v.2 ∧ t.looked + t.left start a ≤ v.2 + 1 := by
  cases t with
  | waiting =>
      obtain ⟨⟨s, ws⟩, hstart, hrest⟩ := bind_ok h
      obtain ⟨found, _, hv⟩ := bind_ok hrest
      obtain rfl := Except.ok.inj hv
      simp only [Task.looked, Task.left, hstart]
      omega
  | running s found n todo =>
      rw [hsound.2] at h
      obtain ⟨rest, _, hv⟩ := bind_ok h
      obtain rfl := Except.ok.inj hv
      simp only [Task.looked, Task.left]
      omega
  | failed n stop =>
      rw [Task.Sound, h] at hsound
      cases hsound

theorem sum_looked_add_left_le {tasks : List (α × Task σ γ β)} {v : List β × Nat}
    (hsound : ∀ at_ ∈ tasks, at_.2.Sound start f at_.1)
    (h : sequential start f (tasks.map Prod.fst) = .ok v) :
    (tasks.map fun at_ => at_.2.looked).sum ≤ v.2 ∧
      (tasks.map fun at_ => at_.2.looked).sum +
        (tasks.map fun at_ => at_.2.left start at_.1).sum ≤ v.2 + tasks.length := by
  induction tasks generalizing v with
  | nil => simp
  | cons at_ tasks ih =>
      rw [List.map_cons, sequential_cons] at h
      obtain ⟨first, hfirst, hrest⟩ := bind_ok h
      obtain ⟨others, hothers, hv⟩ := bind_ok hrest
      obtain rfl := Except.ok.inj hv
      have hhead := looked_add_left_le (hsound at_ List.mem_cons_self) hfirst
      have htail := ih (fun b hb => hsound b (List.mem_cons_of_mem at_ hb)) hothers
      simp only [List.map_cons, List.sum_cons, List.length_cons]
      omega

/-- No item is counted twice, and what is left to do shrinks as the counter grows. -/
theorem counter_add_left_le {work : List α} {base : Nat} {p : Pool α σ γ β} {v : List β × Nat}
    (hsound : p.Sound start f work base) (h : sequential start f work = .ok v) :
    (base ≤ p.counter ∧ p.counter ≤ base + v.2) ∧
      p.counter + p.left start ≤ base + v.2 + work.length := by
  have hwork := hsound.work_eq
  subst hwork
  have hsum := sum_looked_add_left_le hsound.sound h
  rw [hsound.counter_eq, List.length_map, Pool.left]
  omega

end Bounds

section Result
variable {start : α → Run (σ × List γ)} {body : σ → γ → Run (σ × Option β) → Prop}
variable {f : σ → γ → Run (σ × Option β)}

variable (start) in
theorem returns_exists (htotal : ∀ s w, ∃ r, body s w r) (work : List α) (base : Nat) :
    ∃ r, Returns start body work base r := by
  obtain ⟨q, r, hreach, hr⟩ := outcome_reachable start htotal
    (Pool.initial work base : Pool α σ γ β)
  exact ⟨r, q, hreach, hr⟩

theorem eq_of_returns {work : List α} {base : Nat}
    (hbody : ∀ a ∈ work, Computes start body f a)
    (hsame : ∀ a ∈ work, ∀ b ∈ work, ∀ s t, task start f a = .error s → task start f b = .error t →
      s = t)
    {r : Run (List β × Nat)} (h : Returns start body work base r) :
    r = (sequential start f work).map fun v => (v.1, base + v.2) := by
  cases r with
  | ok v =>
      obtain ⟨m, hm, hv⟩ := returns_value hbody h
      rw [hv]
      exact congrArg Except.ok (Prod.ext rfl hm)
  | error stop =>
      obtain ⟨a, ha, hstop⟩ := returns_failure hbody h
      cases hseq : sequential start f work with
      | ok v => exact absurd hseq (sequential_ne_ok ha hstop v)
      | error stop' =>
          obtain ⟨b, hb, hstop'⟩ := error_of_sequential hseq
          rw [hsame a ha b hb stop stop' hstop hstop']
          rfl

theorem eq_of_returns_of_ok {work : List α} {base : Nat} {v : List β × Nat}
    (hbody : ∀ a ∈ work, Computes start body f a) (h : sequential start f work = .ok v)
    {r : Run (List β × Nat)} (hr : Returns start body work base r) :
    r = .ok (v.1, base + v.2) := by
  rw [eq_of_returns hbody ?_ hr, h]
  · rfl
  · intro a ha _ _ s _ hs _
    exact absurd h (sequential_ne_ok ha hs v)

/-- Where no two tasks fail differently, the workers return what one of them returns alone, in
every order of their moves, and some order brings them to it. -/
theorem returns_iff (htotal : ∀ s w, ∃ r, body s w r) {work : List α} {base : Nat}
    (hbody : ∀ a ∈ work, Computes start body f a)
    (hsame : ∀ a ∈ work, ∀ b ∈ work, ∀ s t, task start f a = .error s → task start f b = .error t →
      s = t)
    (r : Run (List β × Nat)) :
    Returns start body work base r ↔
      r = (sequential start f work).map fun v => (v.1, base + v.2) := by
  constructor
  · exact eq_of_returns hbody hsame
  · rintro rfl
    obtain ⟨r, hr⟩ := returns_exists start htotal work base
    exact eq_of_returns hbody hsame hr ▸ hr

end Result

section Shared
open Windows (windowsOf windows visit visit_eq windowsOf_ok mem_zipIdx_windows)
open Bytes (slice)

variable {stop : Bool} {n : Nat} {xs : List α}

/-- A window of the list is a task with one item, unless `stop` is set. -/
def visitStart (stop : Bool) (wo : List α × Nat) : Run (Unit × List (List α × Nat)) :=
  .ok ((), [wo].filter fun _ => !stop)

def visitBody (body : List α → Nat → Run (Option β) → Prop) (_ : Unit) (wo : List α × Nat)
    (r : Run (Unit × Option β)) : Prop :=
  ∃ b, body wo.1 wo.2 b ∧ r = b.map fun b => ((), b)

/-- Workers visit the windows of a list, each window once, and count them. -/
def Visits (stop : Bool) (n : Nat) (xs : List α) (body : List α → Nat → Run (Option β) → Prop)
    (counter : Nat) (r : Run (List β × Nat)) : Prop :=
  match windowsOf n xs with
  | .error s => r = .error s
  | .ok candidates => Returns (visitStart stop) (visitBody body) candidates.zipIdx counter r

theorem visitBody_exists {body : List α → Nat → Run (Option β) → Prop}
    (htotal : ∀ w o, ∃ r, body w o r) (s : Unit) (wo : List α × Nat) :
    ∃ r, visitBody body s wo r := by
  obtain ⟨b, hb⟩ := htotal wo.1 wo.2
  exact ⟨_, b, hb, rfl⟩

section Alone
variable (f : List α → Nat → Run (Option β))

def visitItem (_ : Unit) (wo : List α × Nat) : Run (Unit × Option β) :=
  (f wo.1 wo.2).map fun b => ((), b)

theorem task_visit (wo : List α × Nat) :
    task (visitStart false) (visitItem f) wo = (f wo.1 wo.2).map fun b => (b.toList, 1) := by
  simp only [task, visitStart, ok_bind, Bool.not_false, List.filter_cons, if_true,
    List.filter_nil, items, visitItem]
  cases f wo.1 wo.2 with
  | error s => rfl
  | ok b => simp [Except.map]

theorem sequential_visit (candidates : List (List α × Nat)) :
    sequential (visitStart false) (visitItem f) candidates =
      (candidates.filterMapM fun (w, o) => f w o) >>= fun found =>
        .ok (found, candidates.length) := by
  induction candidates with
  | nil => rfl
  | cons wo candidates ih =>
      obtain ⟨w, o⟩ := wo
      rw [sequential_cons, task_visit, ih, List.filterMapM_cons]
      cases hf : f w o with
      | error s =>
          simp only [hf]
          rfl
      | ok b =>
          cases candidates.filterMapM fun (w, o) => f w o with
          | error s =>
              simp only [hf]
              cases b <;> rfl
          | ok found =>
              simp only [hf]
              cases b <;> simp [Except.map, Nat.add_comm]

end Alone

theorem computes_visit {body : List α → Nat → Run (Option β) → Prop}
    {f : List α → Nat → Run (Option β)}
    (hbody : ∀ o, o + n ≤ xs.length → ∀ r, body (slice xs o n) o r ↔ r = f (slice xs o n) o) :
    ∀ wo ∈ (windows n xs).zipIdx,
      Computes (visitStart false) (visitBody body) (visitItem f) wo := by
  intro (w, o) hmem s ws hstart wo hwo u r
  obtain ⟨ho, rfl⟩ := mem_zipIdx_windows.mp hmem
  obtain rfl : [(slice xs o n, o)] = ws := (Prod.mk.inj (Except.ok.inj hstart)).2
  obtain rfl := List.mem_singleton.mp hwo
  constructor
  · rintro ⟨b, hb, rfl⟩
    rw [(hbody o ho b).mp hb]
    rfl
  · rintro rfl
    exact ⟨_, (hbody o ho _).mpr rfl, rfl⟩

theorem sequential_eq_visit (hn : 0 < n) (f : List α → Nat → Run (Option β)) :
    sequential (visitStart false) (visitItem f) (windows n xs).zipIdx = visit false n xs f := by
  have hlen : (windows n xs).zipIdx.length = xs.length + 1 - n := by simp [windows]
  rw [sequential_visit, visit_eq hn, hlen]

theorem visits_iff {body : List α → Nat → Run (Option β) → Prop}
    {f : List α → Nat → Run (Option β)} (hn : 0 < n) (htotal : ∀ w o, ∃ r, body w o r)
    (hbody : ∀ o, o + n ≤ xs.length → ∀ r, body (slice xs o n) o r ↔ r = f (slice xs o n) o)
    (hsame : ∀ o o', o + n ≤ xs.length → o' + n ≤ xs.length → ∀ s t,
      f (slice xs o n) o = .error s → f (slice xs o' n) o' = .error t → s = t)
    (counter : Nat) (r : Run (List β × Nat)) :
    Visits false n xs body counter r ↔
      r = (visit false n xs f).map fun v => (v.1, counter + v.2) := by
  have herror : ∀ {w : List α} {o : Nat} {s : Stop},
      task (visitStart false) (visitItem f) (w, o) = .error s → f w o = .error s := by
    intro w o s h
    rw [task_visit] at h
    cases hf : f w o with
    | error t =>
        rw [hf] at h
        cases h
        rfl
    | ok b =>
        rw [hf] at h
        cases h
  simp only [Visits, windowsOf_ok hn]
  rw [returns_iff (visitBody_exists htotal) (computes_visit hbody), sequential_eq_visit hn]
  rintro ⟨w, o⟩ hwo ⟨w', o'⟩ hwo' s t hs ht
  obtain ⟨ho, rfl⟩ := mem_zipIdx_windows.mp hwo
  obtain ⟨ho', rfl⟩ := mem_zipIdx_windows.mp hwo'
  exact hsame o o' ho ho' s t (herror hs) (herror ht)

/-- The state of a search after any moves of its workers, where the search succeeds alone: what it
has counted, how long it can go on, and where every continuation ends. -/
theorem visits_run {body : List α → Nat → Run (Option β) → Prop}
    {f : List α → Nat → Run (Option β)} (hn : 0 < n) (htotal : ∀ w o, ∃ r, body w o r)
    (hbody : ∀ o, o + n ≤ xs.length → ∀ r, body (slice xs o n) o r ↔ r = f (slice xs o n) o)
    {v : List β × Nat} (h : visit false n xs f = .ok v) {base : Nat}
    {p : Pool (List α × Nat) Unit (List α × Nat) β}
    (hreach : Reach (visitStart false) (visitBody body)
      (Pool.initial (windows n xs).zipIdx base) p) :
    (base ≤ p.counter ∧ p.counter ≤ base + v.2) ∧
      (∀ qs, (p :: qs).IsChain (Step (visitStart false) (visitBody body)) →
        qs.length ≤ 2 * v.2) ∧
      (∃ q, Reach (visitStart false) (visitBody body) p q ∧ Outcome q (.ok (v.1, base + v.2))) ∧
      ∀ q r, Reach (visitStart false) (visitBody body) p q → Outcome q r →
        r = .ok (v.1, base + v.2) := by
  have hcomputes := computes_visit hbody
  have hseq := (sequential_eq_visit hn f).trans h
  have only : ∀ q r, Reach (visitStart false) (visitBody body) p q → Outcome q r →
      r = .ok (v.1, base + v.2) :=
    fun q r hq hr => eq_of_returns_of_ok hcomputes hseq ⟨q, hreach.trans hq, hr⟩
  have hlen : (windows n xs).zipIdx.length = v.2 := by
    rw [Windows.count_of_visit hn h]
    simp [windows]
  obtain ⟨hcounter, hbound⟩ := counter_add_left_le (sound_reach hcomputes hreach) hseq
  rw [hlen] at hbound
  refine ⟨hcounter, ?_, ?_, only⟩
  · intro qs hqs
    have := length_run_le hqs
    omega
  · obtain ⟨q, r, hq, hr⟩ := outcome_reachable (visitStart false) (visitBody_exists htotal) p
    exact ⟨q, hq, only q r hq hr ▸ hr⟩

/-- A search that succeeds alone has no window that fails. -/
theorem window_ok_of_visit {f : List α → Nat → Run (Option β)} (hn : 0 < n) {v : List β × Nat}
    (h : visit false n xs f = .ok v) {o : Nat} (ho : o + n ≤ xs.length) :
    ∃ b, f (slice xs o n) o = .ok b := by
  rw [visit_eq hn] at h
  obtain ⟨found, hfound, _⟩ := bind_ok h
  exact ok_of_filterMapM hfound (slice xs o n, o) (mem_zipIdx_windows.mpr ⟨ho, rfl⟩)

theorem visits_eq_iff {f : List α → Nat → Run (Option β)} (hn : 0 < n)
    (hsame : ∀ o o', o + n ≤ xs.length → o' + n ≤ xs.length → ∀ s t,
      f (slice xs o n) o = .error s → f (slice xs o' n) o' = .error t → s = t)
    (counter : Nat) (r : Run (List β × Nat)) :
    Visits false n xs (fun w o r => r = f w o) counter r ↔
      r = (visit false n xs f).map fun v => (v.1, counter + v.2) := by
  have htotal : ∀ w o, ∃ r, (fun r => r = f w o) r := fun w o => ⟨f w o, rfl⟩
  exact visits_iff hn htotal (fun _ _ _ => Iff.rfl) hsame counter r

theorem visits_eq_iff_of_ok {f : List α → Nat → Run (Option β)} (hn : 0 < n) {v : List β × Nat}
    (h : visit false n xs f = .ok v) (counter : Nat) (r : Run (List β × Nat)) :
    Visits false n xs (fun w o r => r = f w o) counter r ↔ r = .ok (v.1, counter + v.2) := by
  rw [visits_eq_iff hn ?_ counter r, h]
  · exact Iff.rfl
  · intro o _ ho _ s _ hs _
    obtain ⟨b, hb⟩ := window_ok_of_visit hn h ho
    rw [hb] at hs
    cases hs

end Shared

section Rounds
variable {ι : Type}

/-- What follows a call of the main thread; where the call stops, so does the function. -/
def Follows {α β : Type} (r : Run α) (next : α → Run β → Prop) (out : Run β) : Prop :=
  match r with
  | .ok a => next a out
  | .error s => out = .error s

/-- Rounds of work one after the other, each skipped, stopped or finished, until `limit` results are
there (0 = unlimited). The counter is not reset between them. -/
def rounds (limit : Nat) (round : ι → Run (Option (List β × Nat))) :
    List ι → List β → Nat → Run (List β × Nat)
  | [], found, counter => .ok (found, counter)
  | i :: rest, found, counter => do
      match ← round i with
      | none => rounds limit round rest found counter
      | some (more, n) =>
          if 0 < limit ∧ limit ≤ (found ++ more).length then
            return ((found ++ more).take limit, counter + n)
          else rounds limit round rest (found ++ more) (counter + n)

/-- The same with workers in each round; a round is given the counter and moves it on. -/
inductive RoundsReturn (limit : Nat) (round : ι → Nat → Run (Option (List β × Nat)) → Prop) :
    List ι → List β → Nat → Run (List β × Nat) → Prop where
  | done {found : List β} {counter : Nat} :
      RoundsReturn limit round [] found counter (.ok (found, counter))
  | stopped {i : ι} {rest : List ι} {found : List β} {counter : Nat} {s : Stop}
      (h : round i counter (.error s)) :
      RoundsReturn limit round (i :: rest) found counter (.error s)
  | skipped {i : ι} {rest : List ι} {found : List β} {counter : Nat} {r : Run (List β × Nat)}
      (h : round i counter (.ok none)) (hrest : RoundsReturn limit round rest found counter r) :
      RoundsReturn limit round (i :: rest) found counter r
  | full {i : ι} {rest : List ι} {found more : List β} {counter now : Nat}
      (h : round i counter (.ok (some (more, now))))
      (hmax : 0 < limit ∧ limit ≤ (found ++ more).length) :
      RoundsReturn limit round (i :: rest) found counter (.ok ((found ++ more).take limit, now))
  | more {i : ι} {rest : List ι} {found more : List β} {counter now : Nat}
      {r : Run (List β × Nat)} (h : round i counter (.ok (some (more, now))))
      (hmax : ¬ (0 < limit ∧ limit ≤ (found ++ more).length))
      (hrest : RoundsReturn limit round rest (found ++ more) now r) :
      RoundsReturn limit round (i :: rest) found counter r

/-- The workers of a round hand back what the round alone finds, with the counter moved on. -/
def Counts (round : Nat → Run (Option (List β × Nat)) → Prop)
    (alone : Run (Option (List β × Nat))) : Prop :=
  ∀ counter r, round counter r ↔ r = alone.map (Option.map fun v => (v.1, counter + v.2))

theorem roundsReturn_iff (limit : Nat) {round : ι → Nat → Run (Option (List β × Nat)) → Prop}
    {alone : ι → Run (Option (List β × Nat))} {is : List ι}
    (h : ∀ i ∈ is, Counts (round i) (alone i)) (found : List β) (counter : Nat)
    (r : Run (List β × Nat)) :
    RoundsReturn limit round is found counter r ↔ r = rounds limit alone is found counter := by
  induction is generalizing found counter r with
  | nil =>
      constructor
      · rintro ⟨⟩
        rfl
      · rintro rfl
        exact .done
  | cons i is ih =>
      have hround := h i List.mem_cons_self counter
      have hrest := fun found counter r =>
        ih (fun j hj => h j (List.mem_cons_of_mem i hj)) found counter r
      unfold rounds
      cases halone : alone i with
      | error s =>
          rw [halone] at hround
          constructor
          · intro hr
            cases hr with
            | stopped hr => exact congrArg Except.error (Except.error.inj ((hround _).mp hr))
            | skipped hr _ => cases (hround _).mp hr
            | full hr _ => cases (hround _).mp hr
            | more hr _ _ => cases (hround _).mp hr
          · rintro rfl
            exact .stopped ((hround _).mpr rfl)
      | ok part =>
          rw [halone] at hround
          cases part with
          | none =>
              constructor
              · intro hr
                cases hr with
                | stopped hr => cases (hround _).mp hr
                | skipped _ hr => exact (hrest ..).mp hr
                | full hr _ => cases (hround _).mp hr
                | more hr _ _ => cases (hround _).mp hr
              · intro hr
                exact .skipped ((hround _).mpr rfl) ((hrest ..).mpr hr)
          | some part =>
              obtain ⟨more, n⟩ := part
              simp only [ok_bind]
              by_cases hmax : 0 < limit ∧ limit ≤ (found ++ more).length
              · rw [if_pos hmax]
                constructor
                · intro hr
                  cases hr with
                  | stopped hr => cases (hround _).mp hr
                  | skipped hr _ => cases (hround _).mp hr
                  | full hr _ =>
                      cases (hround _).mp hr
                      rfl
                  | more hr hnot _ =>
                      cases (hround _).mp hr
                      exact absurd hmax hnot
                · rintro rfl
                  exact .full ((hround _).mpr rfl) hmax
              · rw [if_neg hmax]
                constructor
                · intro hr
                  cases hr with
                  | stopped hr => cases (hround _).mp hr
                  | skipped hr _ => cases (hround _).mp hr
                  | full hr hfull =>
                      cases (hround _).mp hr
                      exact absurd hfull hmax
                  | more hr _ hr' =>
                      cases (hround _).mp hr
                      exact (hrest ..).mp hr'
                · intro hr
                  exact .more ((hround _).mpr rfl) hmax ((hrest ..).mpr hr)

/-- Without a limit the rounds add up; a skipped one adds nothing. -/
theorem rounds_unlimited {alone : ι → Run (Option (List β × Nat))} {part : ι → List β × Nat}
    {is : List ι} (h : ∀ i ∈ is, alone i = .ok (some (part i)) ∨
      (alone i = .ok none ∧ part i = ([], 0))) (found : List β) (counter : Nat) :
    rounds 0 alone is found counter =
      .ok (found ++ is.flatMap fun i => (part i).1, counter + (is.map fun i => (part i).2).sum) := by
  induction is generalizing found counter with
  | nil => simp [rounds]
  | cons i is ih =>
      have hrest := ih (fun j hj => h j (List.mem_cons_of_mem i hj))
      rcases h i List.mem_cons_self with hi | ⟨hi, hpart⟩
      · simp [rounds, hi, hrest, Nat.add_assoc]
      · simp [rounds, hi, hpart, hrest]

/-- Results cut to a limit, if there is one. -/
def upTo (limit : Nat) (found : List β) : List β := if limit = 0 then found else found.take limit

def Reached (limit : Nat) (found : List β) : Prop := 0 < limit ∧ limit ≤ found.length

/-- How far the rounds went: through the first of them, `gone`, up to the one that reached the limit
or to the last. These are their results, and this is their count. -/
structure Accounts (limit : Nat) (is : List ι) (results : ι → List β) (work : ι → Nat)
    (found : List β) (total : Nat) (gone : List ι) : Prop where
  front : gone <+: is
  found : found = upTo limit (gone.flatMap results)
  counted : total = (gone.map work).sum
  cut : gone ≠ is → Reached limit (gone.flatMap results)
  needed : ∀ fewer, fewer <+: gone → fewer ≠ gone → ¬ Reached limit (fewer.flatMap results)

theorem gone_of_rounds {limit : Nat} {alone : ι → Run (Option (List β × Nat))}
    {results : ι → List β} {work : ι → Nat} {is : List ι}
    (h : ∀ i ∈ is, ∀ r, alone i = .ok r →
      r = some (results i, work i) ∨ (r = none ∧ results i = [] ∧ work i = 0))
    {before found : List β} {counter total : Nat} (hbefore : ¬ Reached limit before)
    (hr : rounds limit alone is before counter = .ok (found, total)) :
    ∃ gone, gone <+: is ∧ found = upTo limit (before ++ gone.flatMap results) ∧
      total = counter + (gone.map work).sum ∧
      (gone ≠ is → Reached limit (before ++ gone.flatMap results)) ∧
      ∀ fewer, fewer <+: gone → fewer ≠ gone →
        ¬ Reached limit (before ++ fewer.flatMap results) := by
  induction is generalizing before counter with
  | nil =>
      obtain ⟨rfl, rfl⟩ := Prod.mk.inj (Except.ok.inj hr)
      refine ⟨[], List.prefix_rfl, ?_, rfl, fun hne => absurd rfl hne, fun fewer hfewer hne => ?_⟩
      · rw [List.flatMap_nil, List.append_nil, upTo]
        split
        · rfl
        · rename_i hlimit
          refine (List.take_of_length_le (Nat.le_of_not_le fun hle => hbefore ⟨?_, hle⟩)).symm
          omega
      · exact absurd (List.prefix_nil.mp hfewer) hne
  | cons i is ih =>
      have hrest := fun j hj => h j (List.mem_cons_of_mem i hj)
      -- a round that goes on leaves the rest to the rounds behind it
      have step : ∀ {more : List β} {n : Nat}, results i = more → work i = n →
          ¬ Reached limit (before ++ more) →
          rounds limit alone is (before ++ more) (counter + n) = .ok (found, total) →
          ∃ gone, gone <+: i :: is ∧ found = upTo limit (before ++ gone.flatMap results) ∧
            total = counter + (gone.map work).sum ∧
            (gone ≠ i :: is → Reached limit (before ++ gone.flatMap results)) ∧
            ∀ fewer, fewer <+: gone → fewer ≠ gone →
              ¬ Reached limit (before ++ fewer.flatMap results) := by
        rintro more n rfl rfl hmore htail
        obtain ⟨gone, hfront, hfound, htotal, hcut, hneeded⟩ := ih hrest hmore htail
        refine ⟨i :: gone, (List.prefix_cons_inj i).mpr hfront, ?_, ?_, fun hne => ?_, ?_⟩
        · rw [hfound, List.flatMap_cons, List.append_assoc]
        · rw [htotal, List.map_cons, List.sum_cons, Nat.add_assoc]
        · rw [List.flatMap_cons, ← List.append_assoc]
          exact hcut fun heq => hne (congrArg (i :: ·) heq)
        · intro fewer hfewer hne
          cases fewer with
          | nil =>
              rw [List.flatMap_nil, List.append_nil]
              exact hbefore
          | cons j fewer =>
              obtain ⟨rfl, htails⟩ := List.cons_prefix_cons.mp hfewer
              rw [List.flatMap_cons, ← List.append_assoc]
              exact hneeded fewer htails fun heq => hne (congrArg (j :: ·) heq)
      rw [rounds] at hr
      cases hi : alone i with
      | error s =>
          rw [hi] at hr
          cases hr
      | ok r =>
          rw [hi, ok_bind] at hr
          rcases h i List.mem_cons_self r hi with rfl | ⟨rfl, hnil, hzero⟩
          · dsimp only at hr
            by_cases hfull : 0 < limit ∧ limit ≤ (before ++ results i).length
            · rw [if_pos hfull] at hr
              obtain ⟨rfl, rfl⟩ := Prod.mk.inj (Except.ok.inj hr)
              have hone : [i].flatMap results = results i := by simp
              refine ⟨[i], ⟨is, rfl⟩, ?_, ?_, fun _ => hone ▸ hfull, fun fewer hfewer hne => ?_⟩
              · rw [hone, upTo, if_neg (by omega)]
              · simp
              · cases fewer with
                | nil =>
                    rw [List.flatMap_nil, List.append_nil]
                    exact hbefore
                | cons j fewer =>
                    obtain ⟨rfl, htail⟩ := List.cons_prefix_cons.mp hfewer
                    exact absurd (congrArg (j :: ·) (List.prefix_nil.mp htail)) hne
            · rw [if_neg hfull] at hr
              exact step rfl rfl hfull hr
          · refine step hnil hzero ?_ ?_
            · rwa [List.append_nil]
            · rwa [List.append_nil, Nat.add_zero]

theorem accounts_of_rounds {limit : Nat} {alone : ι → Run (Option (List β × Nat))}
    {results : ι → List β} {work : ι → Nat} {is : List ι}
    (h : ∀ i ∈ is, ∀ r, alone i = .ok r →
      r = some (results i, work i) ∨ (r = none ∧ results i = [] ∧ work i = 0))
    {found : List β} {total : Nat} (hr : rounds limit alone is [] 0 = .ok (found, total)) :
    ∃ gone, Accounts limit is results work found total gone := by
  have hnone : ¬ Reached limit ([] : List β) := fun hreached =>
    absurd hreached.2 (Nat.not_le_of_lt hreached.1)
  obtain ⟨gone, hfront, hfound, htotal, hcut, hneeded⟩ := gone_of_rounds h hnone hr
  rw [List.nil_append] at hfound hcut
  rw [Nat.zero_add] at htotal
  exact ⟨gone, hfront, hfound, htotal, hcut, hneeded⟩

/-- The full count tells that nothing was left to do: what was not gone through was no work. -/
theorem Accounts.complete {limit : Nat} {is gone : List ι} {results : ι → List β} {work : ι → Nat}
    {found : List β} {total : Nat} (h : Accounts limit is results work found total gone)
    (hidle : ∀ i ∈ is, work i = 0 → results i = []) (htotal : total = (is.map work).sum) :
    found = upTo limit (is.flatMap results) := by
  obtain ⟨rest, rfl⟩ := h.front
  have hsum := h.counted.symm.trans htotal
  rw [List.map_append, List.sum_append] at hsum
  have hzero : (rest.map work).sum = 0 := by omega
  have hnone : rest.flatMap results = [] := by
    rw [List.flatMap_eq_nil_iff]
    intro i hi
    have hwork : work i = 0 :=
      List.sum_eq_zero_iff.mp hzero _ (List.mem_map.mpr ⟨i, hi, rfl⟩)
    exact hidle i (List.mem_append_right gone hi) hwork
  rw [h.found, List.flatMap_append, hnone, List.append_nil]

theorem exists_map_iff {β γ : Type} {P : Run β → Prop} {f : β → γ} {a : Run β}
    (h : ∀ r, P r ↔ r = a) (r : Run γ) : (∃ found, P found ∧ r = found.map f) ↔ r = a.map f := by
  constructor
  · rintro ⟨found, hfound, rfl⟩
    rw [(h found).mp hfound]
  · rintro rfl
    exact ⟨a, (h a).mpr rfl, rfl⟩

end Rounds

end Workers
