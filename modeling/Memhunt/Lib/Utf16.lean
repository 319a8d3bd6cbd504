import Memhunt.Lib.Bytes

/-! UTF-16 with the low byte of each code unit first. -/
namespace Utf16

/-- The code units of a character: one, or a surrogate pair. -/
def charUnits (c : Char) : List Nat :=
  if c.toNat < 0x10000 then [c.toNat]
  else [0xd800 + (c.toNat - 0x10000) / 0x400, 0xdc00 + (c.toNat - 0x10000) % 0x400]

def unitBytes (u : Nat) : Bytes := [UInt8.ofNat (u % 256), UInt8.ofNat (u / 256)]

def ofUnits (us : List Nat) : Bytes := us.flatMap unitBytes

def encodeLE (s : List Char) : Bytes := ofUnits (s.flatMap charUnits)

/-- The units of the whole pairs of bytes. -/
def units (bytes : Bytes) : List Nat :=
  (Bytes.chunksExact 2 bytes).map fun c => (c.getD 0 0).toNat + 256 * (c.getD 1 0).toNat

example : encodeLE ['a', '€', '𝄞'] = [0x61, 0, 0xac, 0x20, 0x34, 0xd8, 0x1e, 0xdd] := by decide

theorem flatMap_charUnits {s : List Char} (h : ∀ c ∈ s, c.toNat < 0x10000) :
    s.flatMap charUnits = s.map Char.toNat := by
  induction s with
  | nil => rfl
  | cons c s ih =>
      obtain ⟨hc, hs⟩ := List.forall_mem_cons.mp h
      rw [List.flatMap_cons, charUnits, if_pos hc, ih hs, List.map_cons, List.singleton_append]

theorem length_ofUnits (us : List Nat) : (ofUnits us).length = 2 * us.length := by
  induction us with
  | nil => rfl
  | cons u us ih =>
      rw [ofUnits] at ih ⊢
      rw [List.flatMap_cons, List.length_append, ih, List.length_cons]
      simp only [unitBytes, List.length_cons, List.length_nil]
      omega

theorem units_ofUnits {us : List Nat} (h : ∀ u ∈ us, u < 0x10000) : units (ofUnits us) = us := by
  have hpairs : ∀ p ∈ us.map unitBytes, p.length = 2 := by
    intro p hp
    obtain ⟨u, _, rfl⟩ := List.mem_map.mp hp
    rfl
  have hvalue : ∀ u < 0x10000, ((unitBytes u).getD 0 0).toNat +
      256 * ((unitBytes u).getD 1 0).toNat = u := by
    intro u hu
    have hlow : (UInt8.ofNat (u % 256)).toNat = u % 256 := Bytes.toNat_ofNat (by omega)
    have hhigh : (UInt8.ofNat (u / 256)).toNat = u / 256 := Bytes.toNat_ofNat (by omega)
    simp only [unitBytes, List.getD_cons_zero, List.getD_cons_succ, hlow, hhigh]
    omega
  rw [units, ofUnits, List.flatMap_def, Bytes.chunksExact_flatten (by decide) hpairs, List.map_map]
  refine (List.map_congr_left ?_).trans (List.map_id us)
  intro u hu
  exact hvalue u (h u hu)

end Utf16
