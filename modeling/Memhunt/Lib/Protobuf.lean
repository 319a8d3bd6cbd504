import Memhunt.Lib.Varint

/-! The wire format of Protocol Buffers: a message is its fields one after the other, each a key and
what the wire type of the key announces. -/
namespace Protobuf

inductive Payload where
  | varint (n : UInt64)
  | fixed64 (bytes : { bytes : Bytes // bytes.length = 8 })
  | delimited (bytes : Bytes) (fits : bytes.length < 2 ^ 64)
  | fixed32 (bytes : { bytes : Bytes // bytes.length = 4 })

namespace Payload

def wireType : Payload → Nat
  | varint _ => 0
  | fixed64 _ => 1
  | delimited _ _ => 2
  | fixed32 _ => 5

def encode : Payload → Bytes
  | varint n => Varint.encode n.toNat
  | fixed64 bytes => bytes.val
  | delimited bytes _ => Varint.encode bytes.length ++ bytes
  | fixed32 bytes => bytes.val

theorem wireType_lt (p : Payload) : p.wireType < 8 := by
  cases p <;> simp [wireType]

theorem delimited_of_wireType {p : Payload} (h : p.wireType = 2) :
    ∃ bytes fits, p = .delimited bytes fits := by
  cases p with
  | varint n => cases h
  | fixed64 bytes => cases h
  | delimited bytes fits => exact ⟨bytes, fits, rfl⟩
  | fixed32 bytes => cases h

end Payload

structure Field where
  number : Nat
  payload : Payload
  positive : 0 < number

namespace Field

def key (f : Field) : Nat := 8 * f.number + f.payload.wireType

def encode (f : Field) : Bytes := Varint.encode f.key ++ f.payload.encode

theorem key_mod (f : Field) : f.key % 8 = f.payload.wireType := by
  have h := f.payload.wireType_lt
  rw [key]
  omega

theorem key_lt_iff (f : Field) : f.key < 128 ↔ f.number ≤ 15 := by
  have h := f.payload.wireType_lt
  rw [key]
  omega

end Field

def encode (fs : List Field) : Bytes := fs.flatMap Field.encode

/-- One byte up to 127; from 128 on the first byte says that another one follows. -/
theorem varint_first (n : Nat) : ∃ k bs, Varint.encode n = UInt8.ofNat k :: bs ∧ k < 256 ∧
    (n < 128 → k = n ∧ bs = []) ∧ (128 ≤ n → 128 ≤ k ∧ bs ≠ []) := by
  rw [Varint.encode]
  by_cases h : n < 128
  · rw [if_pos h]
    exact ⟨n, [], rfl, by omega, fun _ => ⟨rfl, rfl⟩, fun hle => absurd h (by omega)⟩
  · rw [if_neg h]
    refine ⟨_, _, rfl, by omega, fun hlt => absurd hlt h, fun _ => ⟨by omega, ?_⟩⟩
    exact List.ne_nil_of_length_pos (Varint.encoding_encode _).length_pos

end Protobuf
