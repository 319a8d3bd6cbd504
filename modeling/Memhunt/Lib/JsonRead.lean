import Memhunt.Lib.JsonText

/-! Compact JSON texts read back. The reader takes what the writer writes: no white space, no
doubles, and of the escapes those that the writer uses. -/
namespace Json

section Strings

def hexDigit (c : Char) : Option Nat := (List.range 16).find? fun d => Nat.digitChar d == c

/-- The character that a short escape stands for. -/
def shortEscape (c : Char) : Option Char :=
  if c = '"' then some '"'
  else if c = '\\' then some '\\'
  else if c = 'b' then some (Char.ofNat 0x08)
  else if c = 't' then some '\t'
  else if c = 'n' then some '\n'
  else if c = 'f' then some (Char.ofNat 0x0c)
  else if c = 'r' then some '\r'
  else none

/-- The characters of a string up to its closing quote, and what follows the quote. -/
def readChars : List Char → Option (List Char × List Char)
  | [] => none
  | c :: rest =>
      if c = '"' then some ([], rest)
      else if c = '\\' then
        match rest with
        | [] => none
        | e :: more =>
            if e = 'u' then
              match more with
              | '0' :: '0' :: high :: low :: more => do
                  let high ← hexDigit high
                  let low ← hexDigit low
                  let (s, out) ← readChars more
                  return (Char.ofNat (16 * high + low) :: s, out)
              | _ => none
            else do
              let c ← shortEscape e
              let (s, out) ← readChars more
              return (c :: s, out)
      else do
        let (s, out) ← readChars rest
        return (c :: s, out)

theorem hexDigit_digitChar : ∀ d < 16, hexDigit (Nat.digitChar d) = some d := by decide

/-- One character more in front of what was read. -/
def consRead (c : Char) (r : List Char × List Char) : List Char × List Char := (c :: r.1, r.2)

theorem readChars_plain {c : Char} (hquote : c ≠ '"') (hback : c ≠ '\\') (rest : List Char) :
    readChars (c :: rest) = (readChars rest).map (consRead c) := by
  rw [readChars.eq_def]
  simp only [if_neg hquote, if_neg hback]
  cases readChars rest <;> rfl

theorem readChars_short {e c : Char} (hu : e ≠ 'u') (h : shortEscape e = some c)
    (rest : List Char) :
    readChars ('\\' :: e :: rest) = (readChars rest).map (consRead c) := by
  have hback : ('\\' : Char) ≠ '"' := by decide
  rw [readChars.eq_def]
  simp only [if_neg hback, if_true, if_neg hu, h]
  cases readChars rest <;> rfl

theorem readChars_unicode {high low : Nat} (hhigh : high < 16) (hlow : low < 16)
    (rest : List Char) :
    readChars ('\\' :: 'u' :: '0' :: '0' :: Nat.digitChar high :: Nat.digitChar low :: rest) =
      (readChars rest).map (consRead (Char.ofNat (16 * high + low))) := by
  have hback : ('\\' : Char) ≠ '"' := by decide
  rw [readChars.eq_def]
  simp only [if_neg hback, if_true, hexDigit_digitChar high hhigh, hexDigit_digitChar low hlow]
  cases readChars rest <;> rfl

/-- Whatever the character, its escape is read as the character. -/
theorem readChars_escape (c : Char) (rest : List Char) :
    readChars (escape c ++ rest) = (readChars rest).map (consRead c) := by
  have hback : ∀ n, c.toNat = n → Char.ofNat n = c := by
    rintro n rfl
    exact Char.ofNat_toNat c
  unfold escape
  split
  · rename_i h
    subst h
    exact readChars_short (by decide) (by decide) rest
  rename_i hquote
  split
  · rename_i h
    subst h
    exact readChars_short (by decide) (by decide) rest
  rename_i hslash
  split
  · rename_i h
    obtain rfl := hback _ h
    exact readChars_short (by decide) (by decide) rest
  split
  · rename_i h
    subst h
    exact readChars_short (by decide) (by decide) rest
  split
  · rename_i h
    subst h
    exact readChars_short (by decide) (by decide) rest
  split
  · rename_i h
    obtain rfl := hback _ h
    exact readChars_short (by decide) (by decide) rest
  split
  · rename_i h
    subst h
    exact readChars_short (by decide) (by decide) rest
  split
  · rename_i h
    have hhigh : c.toNat / 16 < 16 := by omega
    have hlow : c.toNat % 16 < 16 := by omega
    have hread := readChars_unicode hhigh hlow rest
    rw [hback _ (Nat.div_add_mod c.toNat 16).symm] at hread
    exact hread
  · exact readChars_plain hquote hslash rest

theorem readChars_quote (s rest : List Char) :
    readChars (s.flatMap escape ++ '"' :: rest) = some (s, rest) := by
  induction s with
  | nil =>
      rw [List.flatMap_nil, List.nil_append, readChars.eq_def]
      rfl
  | cons c s ih =>
      rw [List.flatMap_cons, List.append_assoc, readChars_escape, ih]
      rfl

end Strings

section Numbers

/-- A number can be told from what follows it. -/
def Stops (rest : List Char) : Prop := ∀ c ∈ rest.head?, c.isDigit = false

def readDigits (cs : List Char) : Option (Nat × List Char) :=
  match cs.takeWhile Char.isDigit with
  | [] => none
  | d :: ds => some (Nat.ofDigitChars 10 (d :: ds) 0, cs.dropWhile Char.isDigit)

def readNumber (cs : List Char) : Option (Number × List Char) :=
  match cs with
  | '-' :: rest => do
      let (n, out) ← readDigits rest
      if 0 < n ∧ n ≤ 2 ^ 63 then return (.negInt (Int64.ofInt (-n)), out) else none
  | cs => do
      let (n, out) ← readDigits cs
      if n < 2 ^ 64 then return (.posInt (UInt64.ofNat n), out) else none

theorem readDigits_toDigits (n : Nat) {rest : List Char} (hrest : Stops rest) :
    readDigits (Nat.toDigits 10 n ++ rest) = some (n, rest) := by
  have hdigits : ∀ c ∈ Nat.toDigits 10 n, c.isDigit = true := fun c hc =>
    Nat.isDigit_of_mem_toDigits (by decide) (by decide) hc
  have htake : (Nat.toDigits 10 n ++ rest).takeWhile Char.isDigit = Nat.toDigits 10 n := by
    rw [List.takeWhile_append_of_pos hdigits]
    cases rest with
    | nil => simp
    | cons c rest =>
        rw [List.takeWhile_cons_of_neg (by simp [hrest c rfl]), List.append_nil]
  have hdrop : (Nat.toDigits 10 n ++ rest).dropWhile Char.isDigit = rest := by
    rw [List.dropWhile_append_of_pos hdigits]
    cases rest with
    | nil => rfl
    | cons c rest => exact List.dropWhile_cons_of_neg (by simp [hrest c rfl])
  unfold readDigits
  rw [htake, hdrop]
  cases h : Nat.toDigits 10 n with
  | nil => exact absurd h Nat.toDigits_ne_nil
  | cons d ds =>
      simp only
      rw [← h, Nat.ofDigitChars_ten_toDigits]

/-- A number of the integer kinds, as it is kept: what is not negative is unsigned. -/
def Number.integral : Number → Bool
  | .posInt _ => true
  | .negInt n => n < 0
  | .float _ => false

theorem readNumber_digits {n : Nat} (hn : n < 2 ^ 64) {rest : List Char} (hrest : Stops rest) :
    readNumber (Nat.toDigits 10 n ++ rest) = some (.posInt (UInt64.ofNat n), rest) := by
  have hread := readDigits_toDigits n hrest
  have hfirst : ∀ more, Nat.toDigits 10 n ++ rest ≠ '-' :: more := by
    intro more h
    cases hd : Nat.toDigits 10 n with
    | nil => exact Nat.toDigits_ne_nil hd
    | cons d ds =>
        have hmem : d ∈ Nat.toDigits 10 n := hd ▸ List.mem_cons_self
        have hdigit := Nat.isDigit_of_mem_toDigits (by decide) (by decide) hmem
        rw [hd, List.cons_append, List.cons.injEq] at h
        rw [h.1] at hdigit
        cases hdigit
  unfold readNumber
  split
  · rename_i more h
    exact absurd h (hfirst more)
  · simp only [hread, Option.bind_eq_bind, Option.bind_some, if_pos hn, Option.pure_def]

theorem readNumber_minus {n : Nat} (hpos : 0 < n) (hn : n ≤ 2 ^ 63) {rest : List Char}
    (hrest : Stops rest) :
    readNumber ('-' :: (Nat.toDigits 10 n ++ rest)) = some (.negInt (Int64.ofInt (-n)), rest) := by
  simp only [readNumber, readDigits_toDigits n hrest, Option.bind_eq_bind, Option.bind_some,
    hpos, hn, and_self, if_true, Option.pure_def]

theorem readNumber_numeral (floats : UInt64 → Numeral) {n : Number} (hn : n.integral = true)
    {rest : List Char} (hrest : Stops rest) :
    readNumber ((n.numeral floats).text ++ rest) = some (n, rest) := by
  cases n with
  | float bits => cases hn
  | posInt n =>
      have htext : (Numeral.ofInt n.toNat).text = Nat.toDigits 10 n.toNat := by
        simp [Numeral.text, Numeral.ofInt, Numeral.fractionText, Numeral.exponentText, Digits.ofNat]
      rw [Number.numeral, htext, readNumber_digits n.toNat_lt hrest, UInt64.ofNat_toNat]
  | negInt n =>
      have hneg : n.toInt < 0 := Int64.lt_iff_toInt_lt.mp (of_decide_eq_true hn)
      have htext : (Numeral.ofInt n.toInt).text = '-' :: Nat.toDigits 10 n.toInt.natAbs := by
        simp [Numeral.text, Numeral.ofInt, Numeral.fractionText, Numeral.exponentText, Digits.ofNat,
          hneg]
      have hle := Int64.le_toInt n
      rw [Number.numeral, htext, List.cons_append, readNumber_minus (by omega) (by omega) hrest]
      have hback : (-(n.toInt.natAbs : Int)) = n.toInt := by omega
      rw [hback, Int64.ofInt_toInt]

end Numbers

section Values

def readWord (word : List Char) (v : Value) (cs : List Char) : Option (Value × List Char) :=
  if word.isPrefixOf cs then some (v, cs.drop word.length) else none

mutual

/-- A value at the head of a text, and what follows it. The fuel bounds the length of the text. -/
def readValue : Nat → List Char → Option (Value × List Char)
  | 0, _ => none
  | _ + 1, [] => none
  | fuel + 1, c :: cs =>
      if c = '"' then (readChars cs).map fun (s, rest) => (.string (String.ofList s), rest)
      else if c = '[' then
        match cs with
        | ']' :: rest => some (.array [], rest)
        | cs => (readElements fuel cs).map fun (vs, rest) => (.array vs, rest)
      else if c = '\x7b' then
        match cs with
        | '\x7d' :: rest => some (.object [], rest)
        | cs => (readMembers fuel cs).map fun (ms, rest) => (.object ms, rest)
      else if c = 'n' then readWord ['u', 'l', 'l'] .null cs
      else if c = 't' then readWord ['r', 'u', 'e'] (.bool true) cs
      else if c = 'f' then readWord ['a', 'l', 's', 'e'] (.bool false) cs
      else (readNumber (c :: cs)).map fun (n, rest) => (.number n, rest)

def readElements : Nat → List Char → Option (List Value × List Char)
  | 0, _ => none
  | fuel + 1, cs =>
      match readValue fuel cs with
      | some (v, ',' :: rest) => (readElements fuel rest).map fun (vs, out) => (v :: vs, out)
      | some (v, ']' :: rest) => some ([v], rest)
      | _ => none

def readMembers : Nat → List Char → Option (List (String × Value) × List Char)
  | 0, _ => none
  | fuel + 1, cs =>
      match readEntry fuel cs with
      | some (m, ',' :: rest) => (readMembers fuel rest).map fun (ms, out) => (m :: ms, out)
      | some (m, '\x7d' :: rest) => some ([m], rest)
      | _ => none

def readEntry : Nat → List Char → Option ((String × Value) × List Char)
  | 0, _ => none
  | fuel + 1, cs =>
      match cs with
      | '"' :: cs =>
          match readChars cs with
          | some (key, ':' :: cs) =>
              (readValue fuel cs).map fun (v, rest) => ((String.ofList key, v), rest)
          | _ => none
      | _ => none

end

/-- A whole text as one value. -/
def read (cs : List Char) : Option Value :=
  match readValue cs.length cs with
  | some (v, []) => some v
  | _ => none

namespace Value

mutual

/-- No doubles, and no number kept as a negative one that is not. -/
def integral : Value → Bool
  | null => true
  | bool _ => true
  | number n => n.integral
  | string _ => true
  | array vs => integralElements vs
  | object ms => integralMembers ms

def integralElements : List Value → Bool
  | [] => true
  | v :: vs => integral v && integralElements vs

def integralMembers : List (String × Value) → Bool
  | [] => true
  | m :: ms => integralEntry m && integralMembers ms

def integralEntry : String × Value → Bool
  | (_, v) => integral v

end

end Value

end Values

section RoundTrip
variable {floats : UInt64 → Numeral}

theorem stops_of_not_digit {c : Char} (h : c.isDigit = false) (rest : List Char) :
    Stops (c :: rest) := by
  intro d hd
  obtain rfl := Option.some.inj hd
  exact h

theorem stops_nil : Stops [] := fun _ h => nomatch h

namespace Value

theorem leading_number {n : Number} {c : Char} (hdigit : c.isDigit = false) (hminus : c ≠ '-') :
    leading floats (.number n) ≠ c := by
  rintro rfl
  rw [leading] at hdigit hminus
  by_cases hneg : (n.numeral floats).negative = true
  · rw [if_pos hneg] at hminus
    exact hminus rfl
  · rw [if_neg hneg, Digits.first_isDigit] at hdigit
    cases hdigit

/-- No value begins with the bracket that closes an array. -/
theorem leading_ne_close (v : Value) : leading floats v ≠ ']' := by
  cases v with
  | null => exact (by decide : 'n' ≠ ']')
  | bool b =>
      cases b with
      | true => exact (by decide : 't' ≠ ']')
      | false => exact (by decide : 'f' ≠ ']')
  | number n => exact leading_number (by decide) (by decide)
  | string s => exact (by decide : '"' ≠ ']')
  | array vs => exact (by decide : '[' ≠ ']')
  | object ms => exact (by decide : '\x7b' ≠ ']')

variable (floats) in
theorem compact_length_pos (v : Value) : 0 < (compact floats v).length := by
  obtain ⟨rest, h⟩ := compact_leading floats v
  rw [h]
  exact Nat.succ_pos _

theorem readValue_number (fuel : Nat) {n : Number} (hn : n.integral = true) {rest : List Char}
    (hrest : Stops rest) :
    readValue (fuel + 1) (compact floats (.number n) ++ rest) = some (.number n, rest) := by
  have hread := readNumber_numeral floats hn hrest
  obtain ⟨tail, htail⟩ := compact_leading floats (.number n)
  have hne : ∀ c : Char, c.isDigit = false → c ≠ '-' → leading floats (.number n) ≠ c :=
    fun c => leading_number
  rw [compact] at htail
  rw [htail, List.cons_append] at hread
  rw [compact, htail, List.cons_append, readValue.eq_def]
  simp only [if_neg (hne '"' (by decide) (by decide)), if_neg (hne '[' (by decide) (by decide)),
    if_neg (hne '\x7b' (by decide) (by decide)), if_neg (hne 'n' (by decide) (by decide)),
    if_neg (hne 't' (by decide) (by decide)), if_neg (hne 'f' (by decide) (by decide)), hread]
  rfl

theorem readValue_string (fuel : Nat) (s : String) (rest : List Char) :
    readValue (fuel + 1) (quote s ++ rest) = some (.string s, rest) := by
  rw [quote, List.cons_append, List.append_assoc, readValue.eq_def]
  simp only [if_true]
  rw [List.singleton_append, readChars_quote]
  simp

/-- What stands in an array or an object is read in one go only if it is not its closing bracket. -/
theorem readValue_array (fuel : Nat) {c : Char} (hc : c ≠ ']') (cs : List Char) :
    readValue (fuel + 1) ('[' :: c :: cs) =
      (readElements fuel (c :: cs)).map fun r => (.array r.1, r.2) := by
  have hquote : ('[' : Char) ≠ '"' := by decide
  rw [readValue.eq_def]
  simp only [if_neg hquote, if_true]
  split
  · rename_i h
    exact absurd (List.cons.inj h).1 hc
  · rfl

theorem readValue_object (fuel : Nat) {c : Char} (hc : c ≠ '\x7d') (cs : List Char) :
    readValue (fuel + 1) ('\x7b' :: c :: cs) =
      (readMembers fuel (c :: cs)).map fun r => (.object r.1, r.2) := by
  have hquote : ('\x7b' : Char) ≠ '"' := by decide
  have hopen : ('\x7b' : Char) ≠ '[' := by decide
  rw [readValue.eq_def]
  simp only [if_neg hquote, if_neg hopen, if_true]
  split
  · rename_i h
    exact absurd (List.cons.inj h).1 hc
  · rfl

variable (floats) in
theorem compact_cons_array (v : Value) (vs : List Value) (rest : List Char) :
    ∃ cs, [','].intercalate (elements floats (v :: vs)) ++ ']' :: rest =
      leading floats v :: cs := by
  obtain ⟨tail, htail⟩ := compact_leading floats v
  rw [elements, htail, List.intercalate_cons_cons_left, List.cons_append]
  exact ⟨_, rfl⟩

variable (floats) in
theorem compact_cons_object (m : String × Value) (ms : List (String × Value)) (rest : List Char) :
    ∃ cs, [','].intercalate (entries floats (m :: ms)) ++ '\x7d' :: rest = '"' :: cs := by
  obtain ⟨key, v⟩ := m
  rw [entries, entry, quote, List.cons_append, List.intercalate_cons_cons_left, List.cons_append]
  exact ⟨_, rfl⟩

mutual

/-- What is written is read back, whatever follows that cannot be taken for a part of it. -/
theorem readValue_compact (v : Value) (hv : integral v = true) (fuel : Nat) (rest : List Char)
    (hfuel : (compact floats v).length ≤ fuel) (hrest : Stops rest) :
    readValue fuel (compact floats v ++ rest) = some (v, rest) := by
  have hpos := compact_length_pos floats v
  obtain ⟨fuel, rfl⟩ : ∃ f, fuel = f + 1 := ⟨fuel - 1, by omega⟩
  match v with
  | null => rfl
  | bool true => rfl
  | bool false => rfl
  | number n => exact readValue_number fuel hv hrest
  | string s => exact readValue_string fuel s rest
  | array [] => rfl
  | array (v :: vs) =>
      have hlen : ([','].intercalate (elements floats (v :: vs))).length + 1 ≤ fuel := by
        simp only [compact, List.length_cons, List.length_append, List.length_nil] at hfuel
        omega
      have helements := readElements_elements (v :: vs) hv (by simp) fuel rest hlen
      obtain ⟨cs, hcs⟩ := compact_cons_array floats v vs rest
      rw [compact, List.cons_append, List.append_assoc, List.singleton_append, hcs,
        readValue_array fuel (leading_ne_close v), ← hcs, helements]
      rfl
  | object [] => rfl
  | object (m :: ms) =>
      have hlen : ([','].intercalate (entries floats (m :: ms))).length + 1 ≤ fuel := by
        simp only [compact, List.length_cons, List.length_append, List.length_nil] at hfuel
        omega
      have hmembers := readMembers_entries (m :: ms) hv (by simp) fuel rest hlen
      obtain ⟨cs, hcs⟩ := compact_cons_object floats m ms rest
      rw [compact, List.cons_append, List.append_assoc, List.singleton_append, hcs,
        readValue_object fuel (by decide), ← hcs, hmembers]
      rfl

theorem readElements_elements (vs : List Value) (hvs : integralElements vs = true) (hne : vs ≠ [])
    (fuel : Nat) (rest : List Char)
    (hfuel : ([','].intercalate (elements floats vs)).length + 1 ≤ fuel) :
    readElements fuel ([','].intercalate (elements floats vs) ++ ']' :: rest) =
      some (vs, rest) := by
  obtain ⟨fuel, rfl⟩ : ∃ f, fuel = f + 1 := ⟨fuel - 1, by omega⟩
  match vs with
  | [] => exact absurd rfl hne
  | [v] =>
      rw [integralElements, Bool.and_eq_true] at hvs
      simp only [elements, List.intercalate_singleton] at hfuel ⊢
      have hv := readValue_compact v hvs.1 fuel (']' :: rest) (by omega)
        (stops_of_not_digit (by decide) rest)
      rw [readElements, hv]
      rfl
  | v :: w :: ws =>
      rw [integralElements, Bool.and_eq_true] at hvs
      simp only [elements, List.intercalate_cons_cons, List.length_append, List.length_cons,
        List.length_nil] at hfuel
      have hv := readValue_compact v hvs.1 fuel
        (',' :: ([','].intercalate (elements floats (w :: ws)) ++ ']' :: rest)) (by omega)
        (stops_of_not_digit (by decide) _)
      have hws := readElements_elements (w :: ws) hvs.2 (by simp) fuel rest (by
        simp only [elements]
        omega)
      have htext : [','].intercalate (elements floats (v :: w :: ws)) ++ ']' :: rest =
          compact floats v ++
            ',' :: ([','].intercalate (elements floats (w :: ws)) ++ ']' :: rest) := by
        simp only [elements, List.intercalate_cons_cons, List.append_assoc, List.cons_append,
          List.nil_append]
      rw [htext, readElements, hv]
      simp only [hws, Option.map_some]

theorem readMembers_entries (ms : List (String × Value)) (hms : integralMembers ms = true)
    (hne : ms ≠ []) (fuel : Nat) (rest : List Char)
    (hfuel : ([','].intercalate (entries floats ms)).length + 1 ≤ fuel) :
    readMembers fuel ([','].intercalate (entries floats ms) ++ '\x7d' :: rest) =
      some (ms, rest) := by
  obtain ⟨fuel, rfl⟩ : ∃ f, fuel = f + 1 := ⟨fuel - 1, by omega⟩
  match ms with
  | [] => exact absurd rfl hne
  | [m] =>
      rw [integralMembers, Bool.and_eq_true] at hms
      simp only [entries, List.intercalate_singleton] at hfuel ⊢
      have hm := readEntry_entry m hms.1 fuel ('\x7d' :: rest) (by omega)
        (stops_of_not_digit (by decide) rest)
      rw [readMembers, hm]
      rfl
  | m :: l :: ls =>
      rw [integralMembers, Bool.and_eq_true] at hms
      simp only [entries, List.intercalate_cons_cons, List.length_append, List.length_cons,
        List.length_nil] at hfuel
      have hm := readEntry_entry m hms.1 fuel
        (',' :: ([','].intercalate (entries floats (l :: ls)) ++ '\x7d' :: rest)) (by omega)
        (stops_of_not_digit (by decide) _)
      have hls := readMembers_entries (l :: ls) hms.2 (by simp) fuel rest (by
        simp only [entries]
        omega)
      have htext : [','].intercalate (entries floats (m :: l :: ls)) ++ '\x7d' :: rest =
          entry floats m ++
            ',' :: ([','].intercalate (entries floats (l :: ls)) ++ '\x7d' :: rest) := by
        simp only [entries, List.intercalate_cons_cons, List.append_assoc, List.cons_append,
          List.nil_append]
      rw [htext, readMembers, hm]
      simp only [hls, Option.map_some]

theorem readEntry_entry (m : String × Value) (hm : integralEntry m = true) (fuel : Nat)
    (rest : List Char) (hfuel : (entry floats m).length ≤ fuel) (hrest : Stops rest) :
    readEntry fuel (entry floats m ++ rest) = some (m, rest) := by
  match m with
  | (key, v) =>
      simp only [entry, quote, List.length_append, List.length_cons] at hfuel
      obtain ⟨fuel, rfl⟩ : ∃ f, fuel = f + 1 := ⟨fuel - 1, by omega⟩
      have hv := readValue_compact v hm fuel rest (by omega) hrest
      have htext : entry floats (key, v) ++ rest =
          '"' :: (key.toList.flatMap escape ++ '"' :: ':' :: (compact floats v ++ rest)) := by
        simp only [entry, quote, List.cons_append, List.append_assoc, List.nil_append]
      rw [htext, readEntry]
      simp only [readChars_quote, hv, Option.map_some, String.ofList_toList]

end

/-- A value without doubles is what its own text reads as. -/
theorem read_compact (floats : UInt64 → Numeral) {v : Value} (hv : integral v = true) :
    read (compact floats v) = some v := by
  have h := @readValue_compact floats v hv (compact floats v).length [] le_rfl stops_nil
  rw [List.append_nil] at h
  rw [read, h]

end Value

end RoundTrip

end Json
