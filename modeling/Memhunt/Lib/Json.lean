import Mathlib

/-! JSON values as a program holds them, with the accessors that look one member up. -/
namespace Json

/-- A number as it was read: an unsigned or a negative integer of 64 bits, or a double by its
bits. -/
inductive Number where
  | posInt (n : UInt64)
  | negInt (n : Int64)
  | float (bits : UInt64)
  deriving DecidableEq, Repr

inductive Value where
  | null
  | bool (b : Bool)
  | number (n : Number)
  | string (s : String)
  | array (elements : List Value)
  | object (members : List (String × Value))

namespace Value

/-- A member of an object. Other values have none. -/
def get (key : String) : Value → Option Value
  | object members => members.lookup key
  | _ => none

def asStr : Value → Option String
  | string s => some s
  | _ => none

def asU64 : Value → Option Nat
  | number (.posInt n) => some n.toNat
  | _ => none

end Value

end Json
