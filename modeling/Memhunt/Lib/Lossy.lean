import Memhunt.Lib.Utf8

/-! UTF-8 read whatever it holds: a replacement character stands for every longest piece that begins
a character and does not go on. -/
namespace Utf8

def replacement : Char := Char.ofNat 0xfffd

/-- `String::from_utf8_lossy`, as the characters of the string. -/
def lossy : Bytes → List Char
  | [] => []
  | a :: rest =>
      if a.toNat < 0x80 then scalar1 a :: lossy rest
      else match rest with
        | [] => [replacement]
        | b :: rest =>
            if Leads2 a ∧ Continues b then scalar2 a b :: lossy rest
            else if Leads3 a b ∨ Leads4 a b then
              match rest with
              | [] => [replacement]
              | c :: rest =>
                  if Continues c then
                    if Leads3 a b then scalar3 a b c :: lossy rest
                    else match rest with
                      | [] => [replacement]
                      | d :: rest =>
                          if Continues d then scalar4 a b c d :: lossy rest
                          else replacement :: lossy (d :: rest)
                  else replacement :: lossy (c :: rest)
            else replacement :: lossy (b :: rest)

example : lossy [0x61, 0xe2, 0x82, 0x62, 0xff] = ['a', replacement, 'b', replacement] := by decide

end Utf8
