import Memhunt.KeySchedule.Exact
import Memhunt.Lib.Workers

/-! The key-schedule scan with its workers, and the number of windows it tries. -/
namespace Memhunt
open Rust
open Workers (Follows RoundsReturn Counts roundsReturn_iff rounds_unlimited exists_map_iff)

/-- One window of the search for AES keys. -/
def keySizeWindow (dump : Bytes) (nk : Nat) (algo : String) (win : Bytes) (offset : Nat) :
    Run (Option KeyScheduleHit) := do
  match ← scheduleHeadValid dump offset nk with
  | none => return none
  | some validated =>
      let key ← sliceTo win (nk * 4)
      return some { algo, offset, keyHex := Hex.encode key, wordsValidated := validated + nk }

/-- One window of the search for SM4 keys. -/
def sm4Window (dump : Bytes) (_win : Bytes) (offset : Nat) : Run (Option KeyScheduleHit) := do
  match ← sm4ScheduleHeadValid dump offset with
  | none => return none
  | some validated =>
      let key ← sliceRange dump offset (offset + 16)
      return some { algo := "sm4", offset, keyHex := Hex.encode key, wordsValidated := validated }

/-- The body of the loop over the key sizes, its windows shared among workers. -/
def KeySizeReturns (dump : Bytes) (size : Nat × String) (tried : Nat)
    (r : Run (Option (List KeyScheduleHit × Nat))) : Prop :=
  let window := (size.1 + 4) * 4
  if dump.length < window then r = .ok none
  else
    ∃ found, Workers.Visits false window dump
        (fun win offset r => r = keySizeWindow dump size.1 size.2 win offset) tried found ∧
      r = found.map some

def Sm4Returns (dump : Bytes) (tried : Nat) (r : Run (List KeyScheduleHit × Nat)) : Prop :=
  if dump.length < 20 then r = .ok ([], tried)
  else Workers.Visits false 20 dump (fun win offset r => r = sm4Window dump win offset) tried r

/-- The scan with its workers returns `r`, in some order of their moves. -/
def KeySchedulesReturn (dump : Bytes) (r : Run KeyScheduleResult) : Prop :=
  ∃ found, RoundsReturn 0 (KeySizeReturns dump) [(4, "aes-128"), (6, "aes-192"), (8, "aes-256")]
      [] 0 found ∧
    Follows found (fun found r =>
      ∃ sm4, Sm4Returns dump found.2 sm4 ∧
        r = sm4.map fun sm4 =>
          { hits := found.1 ++ sm4.1
            stats := { dumpSize := dump.length, candidatesTried := sm4.2 } }) r

theorem scanKeySize_visit (dump : Bytes) (nk : Nat) (algo : String) :
    scanKeySize dump nk algo =
      if dump.length < (nk + 4) * 4 then .ok ([], 0)
      else Windows.visit false ((nk + 4) * 4) dump (keySizeWindow dump nk algo) := rfl

theorem scanSm4Schedules_visit (dump : Bytes) :
    scanSm4Schedules dump =
      if dump.length < 20 then .ok ([], 0)
      else Windows.visit false 20 dump (sm4Window dump) := rfl

/-- The hits of one key size, and every window of the dump tried for it. -/
theorem scanKeySize_eq {nk : Nat} (dump : Bytes) (algo : String) (hnk : nk ∈ keyWords) :
    scanKeySize dump nk algo =
      .ok (headHits dump nk algo, dump.length + 1 - (nk + 4) * 4) := by
  obtain ⟨tried, htried⟩ := scanKeySize_ok dump algo hnk
  have hcount : tried = dump.length + 1 - (nk + 4) * 4 := by
    rw [scanKeySize_visit] at htried
    by_cases hshort : dump.length < (nk + 4) * 4
    · rw [if_pos hshort] at htried
      have htried := (Prod.mk.inj (Except.ok.inj htried)).2
      omega
    · rw [if_neg hshort] at htried
      exact Windows.count_of_visit (by omega) htried
  rw [htried, hcount]

theorem scanSm4Schedules_eq (dump : Bytes) :
    scanSm4Schedules dump = .ok (sm4Hits dump, dump.length + 1 - 20) := by
  obtain ⟨tried, htried⟩ := scanSm4Schedules_ok dump
  have hcount : tried = dump.length + 1 - 20 := by
    rw [scanSm4Schedules_visit] at htried
    by_cases hshort : dump.length < 20
    · rw [if_pos hshort] at htried
      have htried := (Prod.mk.inj (Except.ok.inj htried)).2
      omega
    · rw [if_neg hshort] at htried
      exact Windows.count_of_visit (by omega) htried
  rw [htried, hcount]

/-- What the loop body contributes; a dump that is too short is skipped. -/
def keySizePart (dump : Bytes) (size : Nat × String) : Run (Option (List KeyScheduleHit × Nat)) :=
  if dump.length < (size.1 + 4) * 4 then .ok none else (scanKeySize dump size.1 size.2).map some

theorem keySize_counts (dump : Bytes) {size : Nat × String} (hnk : size.1 ∈ keyWords) :
    Counts (KeySizeReturns dump size) (keySizePart dump size) := by
  intro tried r
  have hsize := scanKeySize_eq dump size.2 hnk
  rw [scanKeySize_visit] at hsize
  unfold KeySizeReturns keySizePart
  by_cases hshort : dump.length < (size.1 + 4) * 4
  · simp only [if_pos hshort]
    exact Iff.rfl
  · rw [if_neg hshort] at hsize
    simp only [if_neg hshort, scanKeySize_visit, hsize]
    exact exists_map_iff (Workers.visits_eq_iff_of_ok (by omega) hsize tried) r

theorem keySizePart_cases (dump : Bytes) {size : Nat × String} (hnk : size.1 ∈ keyWords) :
    keySizePart dump size =
        .ok (some (headHits dump size.1 size.2, dump.length + 1 - (size.1 + 4) * 4)) ∨
      (keySizePart dump size = .ok none ∧
        (headHits dump size.1 size.2, dump.length + 1 - (size.1 + 4) * 4) = ([], 0)) := by
  unfold keySizePart
  have hsize := scanKeySize_eq dump size.2 hnk
  by_cases hshort : dump.length < (size.1 + 4) * 4
  · rw [scanKeySize_visit, if_pos hshort] at hsize
    exact .inr ⟨if_pos hshort, (Except.ok.inj hsize).symm⟩
  · rw [if_neg hshort, hsize]
    exact .inl rfl

theorem sm4Returns_iff (dump : Bytes) (tried : Nat) (r : Run (List KeyScheduleHit × Nat)) :
    Sm4Returns dump tried r ↔ r = .ok (sm4Hits dump, tried + (dump.length + 1 - 20)) := by
  have hsm4 := scanSm4Schedules_eq dump
  rw [scanSm4Schedules_visit] at hsm4
  unfold Sm4Returns
  by_cases hshort : dump.length < 20
  · rw [if_pos hshort] at hsm4
    obtain ⟨hnil, hzero⟩ := Prod.mk.inj (Except.ok.inj hsm4)
    rw [if_pos hshort, ← hnil, ← hzero, Nat.add_zero]
  · rw [if_neg hshort] at hsm4 ⊢
    exact Workers.visits_eq_iff_of_ok (by omega) hsm4 tried r

/-- The scan counts each window once for each of its four searches. -/
theorem scanKeySchedules_eq (dump : Bytes) :
    scanKeySchedules dump = .ok {
      hits := headHits dump 4 "aes-128" ++ headHits dump 6 "aes-192" ++
        headHits dump 8 "aes-256" ++ sm4Hits dump
      stats := {
        dumpSize := dump.length
        candidatesTried := (dump.length + 1 - 32) + (dump.length + 1 - 40) +
          (dump.length + 1 - 48) + (dump.length + 1 - 20) } } := by
  have h128 := @scanKeySize_eq 4 dump "aes-128" (by decide)
  have h192 := @scanKeySize_eq 6 dump "aes-192" (by decide)
  have h256 := @scanKeySize_eq 8 dump "aes-256" (by decide)
  simp only [scanKeySchedules, List.mapM_cons, List.mapM_nil, h128, h192, h256,
    scanSm4Schedules_eq, ok_bind, pure_eq]
  simp [Nat.add_assoc]

/-- In every order in which the workers move the scan returns what it returns without them. -/
theorem key_schedules_whatever_the_schedule (dump : Bytes) (r : Run KeyScheduleResult) :
    KeySchedulesReturn dump r ↔ r = scanKeySchedules dump := by
  have hsizes : ∀ size ∈ [(4, "aes-128"), (6, "aes-192"), (8, "aes-256")], size.1 ∈ keyWords := by
    decide
  have hrounds := rounds_unlimited (fun size hsize => keySizePart_cases dump (hsizes size hsize)) [] 0
  have hreturns :=
    roundsReturn_iff 0 (fun size hsize => keySize_counts dump (hsizes size hsize)) [] 0
  unfold KeySchedulesReturn
  constructor
  · rintro ⟨found, hfound, hfollows⟩
    rw [(hreturns found).mp hfound, hrounds] at hfollows
    obtain ⟨sm4, hsm4, rfl⟩ := hfollows
    rw [(sm4Returns_iff dump _ sm4).mp hsm4, scanKeySchedules_eq]
    simp [Except.map, Nat.add_assoc]
  · rintro rfl
    refine ⟨_, (hreturns _).mpr rfl, ?_⟩
    rw [hrounds]
    refine ⟨_, (sm4Returns_iff dump _ _).mpr rfl, ?_⟩
    rw [scanKeySchedules_eq]
    simp [Except.map, Nat.add_assoc]

end Memhunt
