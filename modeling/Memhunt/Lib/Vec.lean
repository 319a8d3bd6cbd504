import Memhunt.Lib.Rust

/-! Growable arrays and the room they take. No buffer has more bytes than the largest signed word
counts; below that there is memory for everything. -/
namespace Rust

/-- `isize::MAX` -/
def isizeMax : Nat := 2 ^ 63 - 1

/-- A `Vec` whose items take `size` bytes each: the items, and how many its buffer has room for. -/
structure Vec (α : Type) (size : Nat) where
  items : List α
  capacity : Nat
  fits : items.length ≤ capacity
  allocated : capacity * size ≤ isizeMax

namespace Vec
variable {α : Type} {size : Nat}

/-- `collect()` on `count` numbers from `start` on. A range knows how many it has, so the room for all
of them is asked for at once. -/
def collectRange (size start count : Nat) : Run (Vec Nat size) :=
  if h : count * size ≤ isizeMax then
    .ok { items := List.range' start count, capacity := count, fits := List.length_range'.le,
          allocated := h }
  else crash .capacityOverflow

/-- The first buffer has room for this many. -/
def minNonZeroCap (size : Nat) : Nat :=
  if size = 1 then 8 else if size ≤ 1024 then 4 else 1

/-- What a full buffer is exchanged for. -/
def grown (size capacity : Nat) : Nat := max (max (2 * capacity) (capacity + 1)) (minNonZeroCap size)

def push (v : Vec α size) (x : α) : Run (Vec α size) :=
  if hroom : v.items.length < v.capacity then
    .ok { items := v.items ++ [x], capacity := v.capacity,
          fits := List.length_append.trans_le hroom, allocated := v.allocated }
  else if hgrown : grown size v.capacity * size ≤ isizeMax then
    .ok { items := v.items ++ [x], capacity := grown size v.capacity,
          fits := by
            have hfits := v.fits
            simp only [List.length_append, List.length_singleton, grown]
            omega
          allocated := hgrown }
  else crash .capacityOverflow

theorem collectRange_ok {start count : Nat} (h : count * size ≤ isizeMax) :
    ∃ v, collectRange size start count = .ok v ∧ v.items = List.range' start count ∧
      v.capacity = count :=
  ⟨_, dif_pos h, rfl, rfl⟩

theorem collectRange_overflow {start count : Nat} (h : isizeMax < count * size) :
    collectRange size start count = crash .capacityOverflow := dif_neg (Nat.not_le.mpr h)

theorem push_room {v : Vec α size} (x : α) (h : v.items.length < v.capacity) :
    ∃ w, v.push x = .ok w ∧ w.items = v.items ++ [x] ∧ w.capacity = v.capacity :=
  ⟨_, dif_pos h, rfl, rfl⟩

theorem push_grown {v : Vec α size} (x : α) (hfull : v.capacity ≤ v.items.length)
    (h : grown size v.capacity * size ≤ isizeMax) :
    ∃ w, v.push x = .ok w ∧ w.items = v.items ++ [x] ∧ w.capacity = grown size v.capacity :=
  ⟨_, (dif_neg (Nat.not_lt.mpr hfull)).trans (dif_pos h), rfl, rfl⟩

theorem push_overflow {v : Vec α size} (x : α) (hfull : v.capacity ≤ v.items.length)
    (h : isizeMax < grown size v.capacity * size) : v.push x = crash .capacityOverflow :=
  (dif_neg (Nat.not_lt.mpr hfull)).trans (dif_neg (Nat.not_le.mpr h))

end Vec

end Rust
