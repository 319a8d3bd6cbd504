import Memhunt.Lib.Json

/-! JSON values written out without white space, the strings with as few escapes as the format
allows. How a double is printed is a parameter. -/
namespace Json

structure Digits where
  chars : List Char
  nonempty : chars ≠ []
  digits : ∀ c ∈ chars, c.isDigit = true

def Digits.first (d : Digits) : Char := d.chars.head d.nonempty

theorem Digits.chars_eq (d : Digits) : d.chars = d.first :: d.chars.tail :=
  (List.cons_head_tail d.nonempty).symm

theorem Digits.first_isDigit (d : Digits) : d.first.isDigit = true :=
  d.digits d.first (List.head_mem d.nonempty)

def Digits.ofNat (n : Nat) : Digits where
  chars := Nat.toDigits 10 n
  nonempty := Nat.toDigits_ne_nil
  digits _ h := Nat.isDigit_of_mem_toDigits (by decide) (by decide) h

structure Exponent where
  sign : List Char
  sign_mem : sign ∈ [[], ['+'], ['-']]
  size : Digits

structure Numeral where
  negative : Bool
  whole : Digits
  fraction : Option Digits
  exponent : Option Exponent

namespace Numeral

def ofInt (n : Int) : Numeral where
  negative := decide (n < 0)
  whole := .ofNat n.natAbs
  fraction := none
  exponent := none

def fractionText : Option Digits → List Char
  | none => []
  | some d => '.' :: d.chars

def exponentText : Option Exponent → List Char
  | none => []
  | some e => 'e' :: (e.sign ++ e.size.chars)

def text (n : Numeral) : List Char :=
  (if n.negative then ['-'] else []) ++
    (n.whole.chars ++ (fractionText n.fraction ++ exponentText n.exponent))

end Numeral

def Number.numeral (floats : UInt64 → Numeral) : Number → Numeral
  | .posInt n => .ofInt n.toNat
  | .negInt n => .ofInt n.toInt
  | .float bits => floats bits

/-- A character inside a string: escaped where the format asks for it. -/
def escape (c : Char) : List Char :=
  if c = '"' then ['\\', '"']
  else if c = '\\' then ['\\', '\\']
  else if c.toNat = 0x08 then ['\\', 'b']
  else if c = '\t' then ['\\', 't']
  else if c = '\n' then ['\\', 'n']
  else if c.toNat = 0x0c then ['\\', 'f']
  else if c = '\r' then ['\\', 'r']
  else if c.toNat < 0x20 then
    ['\\', 'u', '0', '0', Nat.digitChar (c.toNat / 16), Nat.digitChar (c.toNat % 16)]
  else [c]

def quote (s : String) : List Char := '"' :: (s.toList.flatMap escape ++ ['"'])

namespace Value
variable (floats : UInt64 → Numeral)

mutual

def compact : Value → List Char
  | null => ['n', 'u', 'l', 'l']
  | bool true => ['t', 'r', 'u', 'e']
  | bool false => ['f', 'a', 'l', 's', 'e']
  | number n => (n.numeral floats).text
  | string s => quote s
  | array vs => '[' :: ([','].intercalate (elements vs) ++ [']'])
  | object ms => '\x7b' :: ([','].intercalate (entries ms) ++ ['\x7d'])

def elements : List Value → List (List Char)
  | [] => []
  | v :: vs => compact v :: elements vs

def entries : List (String × Value) → List (List Char)
  | [] => []
  | m :: ms => entry m :: entries ms

def entry : String × Value → List Char
  | (key, v) => quote key ++ ':' :: compact v

end

mutual

/-- The strings and the keys in a value. -/
def strings : Value → List String
  | null => []
  | bool _ => []
  | number _ => []
  | string s => [s]
  | array vs => elementStrings vs
  | object ms => memberStrings ms

def elementStrings : List Value → List String
  | [] => []
  | v :: vs => strings v ++ elementStrings vs

def memberStrings : List (String × Value) → List String
  | [] => []
  | m :: ms => entryStrings m ++ memberStrings ms

def entryStrings : String × Value → List String
  | (key, v) => key :: strings v

end

end Value

section Characters
variable {floats : UInt64 → Numeral} {P : Char → Prop}

def Plain (c : Char) : Prop := 0x20 ≤ c.toNat ∧ c.toNat < 0x7f

instance (c : Char) : Decidable (Plain c) :=
  inferInstanceAs (Decidable (0x20 ≤ c.toNat ∧ c.toNat < 0x7f))

theorem plain_of_isDigit {c : Char} (h : c.isDigit = true) : Plain c := by
  obtain ⟨hlow, hhigh⟩ := Char.isDigit_iff_toNat.mp h
  have hzero : '0'.toNat = 0x30 := rfl
  have hnine : '9'.toNat = 0x39 := rfl
  unfold Plain
  omega

theorem Numeral.text_plain (n : Numeral) : ∀ c ∈ n.text, Plain c := by
  have hdigits : ∀ d : Digits, ∀ c ∈ d.chars, Plain c := fun d c hc =>
    plain_of_isDigit (d.digits c hc)
  have hsign : ∀ c ∈ (if n.negative then ['-'] else []), Plain c := by
    cases n.negative with
    | false => simp
    | true =>
        intro c hc
        obtain rfl := List.mem_singleton.mp hc
        decide
  have hfraction : ∀ c ∈ fractionText n.fraction, Plain c := by
    cases n.fraction with
    | none => simp [fractionText]
    | some d => exact List.forall_mem_cons.mpr ⟨by decide, hdigits d⟩
  have hexponent : ∀ c ∈ exponentText n.exponent, Plain c := by
    cases n.exponent with
    | none => simp [exponentText]
    | some e =>
        refine List.forall_mem_cons.mpr ⟨by decide, ?_⟩
        have hsize : ∀ c ∈ e.sign, Plain c := by
          have hsign := e.sign_mem
          simp only [List.mem_cons, List.not_mem_nil, or_false] at hsign
          rcases hsign with h | h | h
          · simp [h]
          · simp [h, Plain]
          · simp [h, Plain]
        exact List.forall_mem_append.mpr ⟨hsize, hdigits e.size⟩
  exact List.forall_mem_append.mpr ⟨hsign, List.forall_mem_append.mpr ⟨hdigits n.whole,
    List.forall_mem_append.mpr ⟨hfraction, hexponent⟩⟩⟩

theorem forall_mem_intercalate {sep : List Char} (hsep : ∀ c ∈ sep, P c) (ls : List (List Char)) :
    (∀ c ∈ sep.intercalate ls, P c) ↔ ∀ l ∈ ls, ∀ c ∈ l, P c := by
  induction ls with
  | nil => simp [List.intercalate_nil]
  | cons l ls ih =>
      cases ls with
      | nil => simp [List.intercalate_singleton]
      | cons m ls =>
          rw [List.intercalate_cons_cons, List.forall_mem_append, List.forall_mem_append, ih,
            and_assoc, and_iff_right hsep]
          exact (List.forall_mem_cons (p := fun part => ∀ c ∈ part, P c)).symm

theorem forall_mem_quote (hplain : ∀ c, Plain c → P c) (s : String) :
    (∀ c ∈ quote s, P c) ↔ ∀ c ∈ s.toList, ∀ e ∈ escape c, P e := by
  have hquote : P '"' := hplain '"' (by decide)
  rw [quote, List.forall_mem_cons, List.forall_mem_append, List.forall_mem_singleton,
    List.forall_mem_flatMap]
  simp only [hquote, true_and, and_true]

namespace Value

mutual

/-- What holds of the plain characters holds of a whole text where it holds of its strings, in the
form in which they are written. -/
theorem forall_mem_compact (hplain : ∀ c, Plain c → P c) (v : Value) :
    (∀ c ∈ compact floats v, P c) ↔ ∀ s ∈ strings v, ∀ c ∈ s.toList, ∀ e ∈ escape c, P e := by
  have hcomma : ∀ c ∈ [','], P c := List.forall_mem_singleton.mpr (hplain ',' (by decide))
  have hword : ∀ word : List Char, (∀ c ∈ word, Plain c) → ((∀ c ∈ word, P c) ↔
      ∀ s ∈ ([] : List String), ∀ c ∈ s.toList, ∀ e ∈ escape c, P e) := fun word h =>
    iff_of_true (fun c hc => hplain c (h c hc)) (fun _ hs => absurd hs List.not_mem_nil)
  match v with
  | null => exact hword ['n', 'u', 'l', 'l'] (by simp [Plain])
  | bool true => exact hword ['t', 'r', 'u', 'e'] (by simp [Plain])
  | bool false => exact hword ['f', 'a', 'l', 's', 'e'] (by simp [Plain])
  | number n => exact hword (n.numeral floats).text (Numeral.text_plain _)
  | string s =>
      rw [compact, strings, List.forall_mem_singleton]
      exact forall_mem_quote hplain s
  | array vs =>
      rw [compact, strings, List.forall_mem_cons, List.forall_mem_append,
        List.forall_mem_singleton, forall_mem_intercalate hcomma, forall_mem_elements hplain vs]
      simp only [hplain '[' (by decide), hplain ']' (by decide), true_and, and_true]
  | object ms =>
      rw [compact, strings, List.forall_mem_cons, List.forall_mem_append,
        List.forall_mem_singleton, forall_mem_intercalate hcomma, forall_mem_entries hplain ms]
      simp only [hplain '\x7b' (by decide), hplain '\x7d' (by decide), true_and, and_true]

theorem forall_mem_elements (hplain : ∀ c, Plain c → P c) (vs : List Value) :
    (∀ l ∈ elements floats vs, ∀ c ∈ l, P c) ↔
      ∀ s ∈ elementStrings vs, ∀ c ∈ s.toList, ∀ e ∈ escape c, P e := by
  match vs with
  | [] => simp [elements, elementStrings]
  | v :: vs =>
      rw [elements, elementStrings, List.forall_mem_append, ← forall_mem_elements hplain vs,
        ← forall_mem_compact hplain v]
      exact List.forall_mem_cons (p := fun part => ∀ c ∈ part, P c)

theorem forall_mem_entries (hplain : ∀ c, Plain c → P c) (ms : List (String × Value)) :
    (∀ l ∈ entries floats ms, ∀ c ∈ l, P c) ↔
      ∀ s ∈ memberStrings ms, ∀ c ∈ s.toList, ∀ e ∈ escape c, P e := by
  match ms with
  | [] => simp [entries, memberStrings]
  | m :: ms =>
      rw [entries, memberStrings, List.forall_mem_append, ← forall_mem_entries hplain ms,
        ← forall_mem_entry hplain m]
      exact List.forall_mem_cons (p := fun part => ∀ c ∈ part, P c)

theorem forall_mem_entry (hplain : ∀ c, Plain c → P c) (m : String × Value) :
    (∀ c ∈ entry floats m, P c) ↔ ∀ s ∈ entryStrings m, ∀ c ∈ s.toList, ∀ e ∈ escape c, P e := by
  match m with
  | (key, v) =>
      have hcolon : P ':' := hplain ':' (by decide)
      have hcons := List.forall_mem_cons
        (p := fun s : String => ∀ c ∈ s.toList, ∀ e ∈ escape c, P e) (a := key) (l := strings v)
      rw [entry, entryStrings, List.forall_mem_append, List.forall_mem_cons,
        forall_mem_quote hplain key, and_iff_right hcolon, forall_mem_compact hplain v]
      exact hcons.symm

end

end Value

end Characters

section OneLine

theorem newline_not_mem_escape (c : Char) : ∀ e ∈ escape c, e ≠ '\n' := by
  have hdigit : ∀ d < 16, Nat.digitChar d ≠ '\n' := by decide
  unfold escape
  split_ifs with h₁ h₂ h₃ h₄ h₅ h₆ h₇ h₈
  case pos => simp
  case pos => simp
  case pos => simp
  case pos => simp
  case pos => simp
  case pos => simp
  case pos => simp
  case pos =>
    have hhigh := hdigit (c.toNat / 16) (by omega)
    have hlow := hdigit (c.toNat % 16) (by omega)
    simp [hhigh, hlow]
  case neg => simp [h₅]

/-- A text has no end of line in it. -/
theorem newline_not_mem_compact (floats : UInt64 → Numeral) (v : Value) :
    '\n' ∉ v.compact floats := by
  have hplain : ∀ c, Plain c → c ≠ '\n' := by
    rintro c hc rfl
    exact absurd hc (by decide)
  have hall := (@Value.forall_mem_compact floats _ hplain v).mpr
    fun s _ c _ => newline_not_mem_escape c
  exact fun h => hall _ h rfl

end OneLine

section Heads
variable (floats : UInt64 → Numeral)

namespace Value

/-- The first character of a text. -/
def leading : Value → Char
  | null => 'n'
  | bool true => 't'
  | bool false => 'f'
  | number n => if (n.numeral floats).negative then '-' else (n.numeral floats).whole.first
  | string _ => '"'
  | array _ => '['
  | object _ => '\x7b'

theorem leading_plain (v : Value) : Plain (leading floats v) := by
  match v with
  | null => exact (by decide : Plain 'n')
  | bool true => exact (by decide : Plain 't')
  | bool false => exact (by decide : Plain 'f')
  | number n =>
      rw [leading]
      by_cases hneg : (n.numeral floats).negative = true
      · rw [if_pos hneg]
        decide
      · rw [if_neg hneg]
        exact plain_of_isDigit (n.numeral floats).whole.first_isDigit
  | string s => exact (by decide : Plain '"')
  | array vs => exact (by decide : Plain '[')
  | object ms => exact (by decide : Plain '\x7b')

theorem compact_leading (v : Value) : ∃ rest, compact floats v = leading floats v :: rest := by
  match v with
  | null => exact ⟨_, rfl⟩
  | bool true => exact ⟨_, rfl⟩
  | bool false => exact ⟨_, rfl⟩
  | number n =>
      rw [compact, leading, Numeral.text]
      by_cases hneg : (n.numeral floats).negative = true
      · rw [if_pos hneg, if_pos hneg]
        exact ⟨_, rfl⟩
      · rw [if_neg hneg, if_neg hneg, List.nil_append, Digits.chars_eq]
        exact ⟨_, rfl⟩
  | string s => exact ⟨_, rfl⟩
  | array vs => exact ⟨_, rfl⟩
  | object ms => exact ⟨_, rfl⟩

theorem compact_array (v : Value) (vs : List Value) :
    ∃ rest, compact floats (.array (v :: vs)) = '[' :: leading floats v :: rest := by
  obtain ⟨rest, h⟩ := compact_leading floats v
  rw [compact, elements, h, List.intercalate_cons_cons_left]
  exact ⟨_, rfl⟩

theorem compact_object (m : String × Value) (ms : List (String × Value)) :
    ∃ rest, compact floats (.object (m :: ms)) = '\x7b' :: '"' :: rest := by
  obtain ⟨key, v⟩ := m
  rw [compact, entries, entry, quote, List.cons_append, List.intercalate_cons_cons_left]
  exact ⟨_, rfl⟩

end Value

end Heads

example : String.ofList (Value.compact (fun _ => .ofInt 0) (.object [("a\n", .array
    [.number (.negInt (-12)), .bool true])])) = "\x7b\"a\\n\":[-12,true]\x7d" := by decide +kernel

end Json
