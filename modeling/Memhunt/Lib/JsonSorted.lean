import Memhunt.Lib.JsonRead

/-! Objects as maps: the members in the order of their keys, one for each key. Of two members with
one key the first counts, as it does for a lookup. -/
namespace Json

/-- A member put into a map that is kept in the order of the keys. -/
def insertMember (m : String × Value) : List (String × Value) → List (String × Value)
  | [] => [m]
  | l :: ls =>
      if m.1 < l.1 then m :: l :: ls
      else if m.1 = l.1 then m :: ls
      else l :: insertMember m ls

theorem lookup_cons_if (key : String) (m : String × Value) (ms : List (String × Value)) :
    (m :: ms).lookup key = if key = m.1 then some m.2 else ms.lookup key := by
  obtain ⟨k, v⟩ := m
  rw [List.lookup_cons]
  by_cases h : key = k
  · rw [if_pos h, beq_iff_eq.mpr h]
  · rw [if_neg h, beq_false_of_ne h]

theorem lookup_insertMember (key : String) (m : String × Value) (ms : List (String × Value)) :
    (insertMember m ms).lookup key = if key = m.1 then some m.2 else ms.lookup key := by
  induction ms with
  | nil => rw [insertMember, lookup_cons_if]
  | cons l ls ih =>
      rw [insertMember]
      by_cases hlt : m.1 < l.1
      · rw [if_pos hlt, lookup_cons_if]
      · rw [if_neg hlt]
        by_cases heq : m.1 = l.1
        · rw [if_pos heq, lookup_cons_if, lookup_cons_if, heq]
          split_ifs
          · rfl
          · rfl
        · rw [if_neg heq, lookup_cons_if, lookup_cons_if, ih]
          by_cases hkey : key = m.1
          · have hother : key ≠ l.1 := fun h => heq (hkey.symm.trans h)
            rw [if_pos hkey, if_neg hother, if_pos hkey]
          · rw [if_neg hkey, if_neg hkey]

namespace Value

mutual

def sorted : Value → Value
  | null => null
  | bool b => bool b
  | number n => number n
  | string s => string s
  | array vs => array (sortedElements vs)
  | object ms => object (sortedMembers ms)

def sortedElements : List Value → List Value
  | [] => []
  | v :: vs => sorted v :: sortedElements vs

def sortedMembers : List (String × Value) → List (String × Value)
  | [] => []
  | m :: ms => insertMember (sortedEntry m) (sortedMembers ms)

def sortedEntry : String × Value → String × Value
  | (key, v) => (key, sorted v)

end

/-- A lookup does not see the order. -/
theorem get_sorted (v : Value) (key : String) : v.sorted.get key = (v.get key).map sorted := by
  have hmembers : ∀ ms : List (String × Value),
      (sortedMembers ms).lookup key = (ms.lookup key).map sorted := by
    intro ms
    induction ms with
    | nil => rfl
    | cons m ms ih =>
        obtain ⟨k, w⟩ := m
        rw [sortedMembers, sortedEntry, lookup_insertMember, lookup_cons_if, ih]
        split_ifs
        · rfl
        · rfl
  cases v with
  | null => rfl
  | bool b => rfl
  | number n => rfl
  | string s => rfl
  | array vs => rfl
  | object ms => exact hmembers ms

theorem sortedElements_eq (vs : List Value) : sortedElements vs = vs.map sorted := by
  induction vs with
  | nil => rfl
  | cons v vs ih => rw [sortedElements, ih, List.map_cons]

@[simp] theorem asStr_sorted (v : Value) : v.sorted.asStr = v.asStr := by
  cases v <;> rfl

@[simp] theorem asU64_sorted (v : Value) : v.sorted.asU64 = v.asU64 := by
  cases v <;> rfl

theorem integral_insertMember {m : String × Value} {ms : List (String × Value)}
    (hm : integralEntry m = true) (hms : integralMembers ms = true) :
    integralMembers (insertMember m ms) = true := by
  induction ms with
  | nil => rw [insertMember, integralMembers, hm, hms, Bool.and_self]
  | cons l ls ih =>
      have hboth := hms
      rw [integralMembers, Bool.and_eq_true] at hboth
      rw [insertMember]
      split_ifs
      · rw [integralMembers, hm, hms, Bool.and_self]
      · rw [integralMembers, hm, hboth.2, Bool.and_self]
      · rw [integralMembers, hboth.1, ih hboth.2, Bool.and_self]

mutual

theorem integral_sorted (v : Value) (h : integral v = true) : integral v.sorted = true := by
  match v with
  | null => rfl
  | bool _ => rfl
  | number n => exact h
  | string _ => rfl
  | array vs => exact integralElements_sorted vs h
  | object ms => exact integralMembers_sorted ms h

theorem integralElements_sorted (vs : List Value) (h : integralElements vs = true) :
    integralElements (sortedElements vs) = true := by
  match vs with
  | [] => rfl
  | v :: vs =>
      rw [integralElements, Bool.and_eq_true] at h
      rw [sortedElements, integralElements, integral_sorted v h.1, integralElements_sorted vs h.2]
      rfl

theorem integralMembers_sorted (ms : List (String × Value)) (h : integralMembers ms = true) :
    integralMembers (sortedMembers ms) = true := by
  match ms with
  | [] => rfl
  | m :: ms =>
      rw [integralMembers, Bool.and_eq_true] at h
      exact integral_insertMember (integralEntry_sorted m h.1) (integralMembers_sorted ms h.2)

theorem integralEntry_sorted (m : String × Value) (h : integralEntry m = true) :
    integralEntry (sortedEntry m) = true := by
  match m with
  | (_, v) => exact integral_sorted v h

end

end Value
end Json
