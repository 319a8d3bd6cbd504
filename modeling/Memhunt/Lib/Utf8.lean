import Memhunt.Lib.Bytes

/-! Strict UTF-8: the decoder of well-formed byte strings (no overlong form, no surrogate), and
where a well-formed string may be cut. Byte values are compared as numbers. -/
namespace Utf8

/-- A byte that only continues a character: `10xxxxxx`. -/
def Continues (b : UInt8) : Prop := 0x80 ≤ b.toNat ∧ b.toNat ≤ 0xbf

def Leads2 (a : UInt8) : Prop := 0xc2 ≤ a.toNat ∧ a.toNat ≤ 0xdf

/-- First two bytes of a three-byte character: not overlong, not a surrogate. -/
def Leads3 (a b : UInt8) : Prop :=
  (a.toNat = 0xe0 ∧ 0xa0 ≤ b.toNat ∧ b.toNat ≤ 0xbf) ∨
  (0xe1 ≤ a.toNat ∧ a.toNat ≤ 0xec ∧ Continues b) ∨
  (a.toNat = 0xed ∧ 0x80 ≤ b.toNat ∧ b.toNat ≤ 0x9f) ∨
  (0xee ≤ a.toNat ∧ a.toNat ≤ 0xef ∧ Continues b)

/-- First two bytes of a four-byte character: not overlong, at most `10ffff`. -/
def Leads4 (a b : UInt8) : Prop :=
  (a.toNat = 0xf0 ∧ 0x90 ≤ b.toNat ∧ b.toNat ≤ 0xbf) ∨
  (0xf1 ≤ a.toNat ∧ a.toNat ≤ 0xf3 ∧ Continues b) ∨
  (a.toNat = 0xf4 ∧ 0x80 ≤ b.toNat ∧ b.toNat ≤ 0x8f)

instance (b : UInt8) : Decidable (Continues b) :=
  inferInstanceAs (Decidable (0x80 ≤ b.toNat ∧ b.toNat ≤ 0xbf))

instance (a : UInt8) : Decidable (Leads2 a) :=
  inferInstanceAs (Decidable (0xc2 ≤ a.toNat ∧ a.toNat ≤ 0xdf))

instance (a b : UInt8) : Decidable (Leads3 a b) :=
  inferInstanceAs (Decidable ((a.toNat = 0xe0 ∧ 0xa0 ≤ b.toNat ∧ b.toNat ≤ 0xbf) ∨
    (0xe1 ≤ a.toNat ∧ a.toNat ≤ 0xec ∧ Continues b) ∨
    (a.toNat = 0xed ∧ 0x80 ≤ b.toNat ∧ b.toNat ≤ 0x9f) ∨
    (0xee ≤ a.toNat ∧ a.toNat ≤ 0xef ∧ Continues b)))

instance (a b : UInt8) : Decidable (Leads4 a b) :=
  inferInstanceAs (Decidable ((a.toNat = 0xf0 ∧ 0x90 ≤ b.toNat ∧ b.toNat ≤ 0xbf) ∨
    (0xf1 ≤ a.toNat ∧ a.toNat ≤ 0xf3 ∧ Continues b) ∨
    (a.toNat = 0xf4 ∧ 0x80 ≤ b.toNat ∧ b.toNat ≤ 0x8f)))

def scalar1 (a : UInt8) : Char := Char.ofNat a.toNat

def scalar2 (a b : UInt8) : Char := Char.ofNat (a.toNat % 32 * 64 + b.toNat % 64)

def scalar3 (a b c : UInt8) : Char :=
  Char.ofNat (a.toNat % 16 * 4096 + b.toNat % 64 * 64 + c.toNat % 64)

def scalar4 (a b c d : UInt8) : Char :=
  Char.ofNat (a.toNat % 8 * 262144 + b.toNat % 64 * 4096 + c.toNat % 64 * 64 + d.toNat % 64)

/-- `std::str::from_utf8(bytes).ok()`, as the characters of the string. -/
def fromUtf8 : Bytes → Option (List Char)
  | [] => some []
  | a :: rest =>
      if a.toNat < 0x80 then (fromUtf8 rest).map (scalar1 a :: ·)
      else match rest with
        | [] => none
        | b :: rest =>
            if Leads2 a ∧ Continues b then (fromUtf8 rest).map (scalar2 a b :: ·)
            else match rest with
              | [] => none
              | c :: rest =>
                  if Leads3 a b ∧ Continues c then (fromUtf8 rest).map (scalar3 a b c :: ·)
                  else match rest with
                    | [] => none
                    | d :: rest =>
                        if Leads4 a b ∧ Continues c ∧ Continues d then
                          (fromUtf8 rest).map (scalar4 a b c d :: ·)
                        else none

/-- `String::from_utf8` where it succeeds. -/
def toUtf8 (bytes : Bytes) : Option String := (fromUtf8 bytes).map String.ofList

/-- `char::is_control`: the general category Cc. -/
def isControl (c : Char) : Bool := c.toNat < 0x20 || (0x7f ≤ c.toNat && c.toNat ≤ 0x9f)

example : fromUtf8 [0x61, 0xc3, 0xa9, 0xe2, 0x82, 0xac] = some ['a', 'é', '€'] := by decide
example : fromUtf8 [0xed, 0xa0, 0x80] = none := by decide

inductive Front : Bytes → Char → Bytes → Prop
  | one {a rest} : a.toNat < 0x80 → Front (a :: rest) (scalar1 a) rest
  | two {a b rest} : Leads2 a → Continues b → Front (a :: b :: rest) (scalar2 a b) rest
  | three {a b c rest} : Leads3 a b → Continues c → Front (a :: b :: c :: rest) (scalar3 a b c) rest
  | four {a b c d rest} : Leads4 a b → Continues c → Continues d →
      Front (a :: b :: c :: d :: rest) (scalar4 a b c d) rest

theorem leads3_not_leads2 {a b : UInt8} (h : Leads3 a b) : ¬ a.toNat < 0x80 ∧ ¬ Leads2 a := by
  unfold Leads3 at h
  unfold Leads2
  omega

theorem leads4_not_leads2 {a b : UInt8} (h : Leads4 a b) :
    ¬ a.toNat < 0x80 ∧ ¬ Leads2 a ∧ ¬ Leads3 a b := by
  unfold Leads4 at h
  unfold Leads2 Leads3
  omega

theorem fromUtf8_front {bytes rest : Bytes} {c : Char} (h : Front bytes c rest) :
    fromUtf8 bytes = (fromUtf8 rest).map (c :: ·) := by
  cases h with
  | one ha =>
      rw [fromUtf8.eq_def]
      simp only [if_pos ha]
  | @two a b _ ha hb =>
      have hn : ¬ a.toNat < 0x80 := by unfold Leads2 at ha; omega
      rw [fromUtf8.eq_def]
      simp only [if_neg hn, if_pos (And.intro ha hb)]
  | @three a b c _ hab hc =>
      obtain ⟨h1, h2⟩ := leads3_not_leads2 hab
      rw [fromUtf8.eq_def]
      simp only [if_neg h1, if_neg (fun h : Leads2 a ∧ Continues b => h2 h.1),
        if_pos (And.intro hab hc)]
  | @four a b c d _ hab hc hd =>
      obtain ⟨h1, h2, h3⟩ := leads4_not_leads2 hab
      rw [fromUtf8.eq_def]
      simp only [if_neg h1, if_neg (fun h : Leads2 a ∧ Continues b => h2 h.1),
        if_neg (fun h : Leads3 a b ∧ Continues c => h3 h.1), if_pos (And.intro hab (And.intro hc hd))]

theorem front_of_some {a : UInt8} {rest : Bytes} {cs : List Char}
    (h : fromUtf8 (a :: rest) = some cs) :
    ∃ c tail cs', Front (a :: rest) c tail ∧ fromUtf8 tail = some cs' ∧ cs = c :: cs' := by
  have take : ∀ {c tail}, Front (a :: rest) c tail →
      ∃ c tail cs', Front (a :: rest) c tail ∧ fromUtf8 tail = some cs' ∧ cs = c :: cs' := by
    intro c tail hf
    rw [fromUtf8_front hf, Option.map_eq_some_iff] at h
    obtain ⟨cs', hcs, rfl⟩ := h
    exact ⟨c, tail, cs', hf, hcs, rfl⟩
  by_cases h1 : a.toNat < 0x80
  · exact take (.one h1)
  · rw [fromUtf8.eq_def] at h
    simp only [if_neg h1] at h
    rcases rest with _ | ⟨b, rest⟩
    · cases h
    · by_cases h2 : Leads2 a ∧ Continues b
      · exact take (.two h2.1 h2.2)
      · simp only [if_neg h2] at h
        rcases rest with _ | ⟨c, rest⟩
        · cases h
        · by_cases h3 : Leads3 a b ∧ Continues c
          · exact take (.three h3.1 h3.2)
          · simp only [if_neg h3] at h
            rcases rest with _ | ⟨d, rest⟩
            · cases h
            · by_cases h4 : Leads4 a b ∧ Continues c ∧ Continues d
              · exact take (.four h4.1 h4.2.1 h4.2.2)
              · simp only [if_neg h4] at h
                cases h

theorem Front.shape {bytes rest : Bytes} {c : Char} (h : Front bytes c rest) :
    ∃ a conts, bytes = a :: (conts ++ rest) ∧ ¬ Continues a ∧ (∀ b ∈ conts, Continues b) ∧
      ∀ k < conts.length, fromUtf8 (a :: conts.take k) = none := by
  cases h with
  | @one a rest ha =>
      refine ⟨a, [], rfl, ?_, by simp, by simp⟩
      unfold Continues
      omega
  | @two a b rest ha hb =>
      refine ⟨a, [b], rfl, ?_, by simpa using hb, ?_⟩
      · unfold Leads2 at ha
        unfold Continues
        omega
      · intro k hk
        have hn : ¬ a.toNat < 0x80 := by unfold Leads2 at ha; omega
        obtain rfl : k = 0 := by simpa using hk
        simp [fromUtf8, hn]
  | @three a b c rest hab hc =>
      obtain ⟨h1, h2⟩ := leads3_not_leads2 hab
      have hb : Continues b := by unfold Leads3 Continues at hab; unfold Continues; omega
      refine ⟨a, [b, c], rfl, ?_, by simp [hb, hc], ?_⟩
      · unfold Leads3 at hab
        unfold Continues
        omega
      · intro k hk
        have hk' : k = 0 ∨ k = 1 := by simp at hk; omega
        rcases hk' with rfl | rfl <;> simp [fromUtf8, h1, h2]
  | @four a b c d rest hab hc hd =>
      obtain ⟨h1, h2, h3⟩ := leads4_not_leads2 hab
      have hb : Continues b := by unfold Leads4 Continues at hab; unfold Continues; omega
      refine ⟨a, [b, c, d], rfl, ?_, by simp [hb, hc, hd], ?_⟩
      · unfold Leads4 at hab
        unfold Continues
        omega
      · intro k hk
        have hk' : k = 0 ∨ k = 1 ∨ k = 2 := by simp at hk; omega
        rcases hk' with rfl | rfl | rfl <;> simp [fromUtf8, h1, h2, h3]

theorem Front.cut {a : UInt8} {conts rest : Bytes} {c : Char}
    (h : Front (a :: (conts ++ rest)) c rest) (rest' : Bytes) :
    Front (a :: (conts ++ rest')) c rest' := by
  generalize hb : a :: (conts ++ rest) = bytes at h
  cases h with
  | one ha =>
      obtain ⟨rfl, hr⟩ := List.cons.inj hb
      have : conts = [] := by simpa using congrArg List.length hr
      subst this
      exact .one ha
  | @two a' b _ ha hb' =>
      obtain ⟨rfl, hr⟩ := List.cons.inj hb
      have : conts = [b] := List.append_cancel_right (hr.trans (List.singleton_append).symm)
      subst this
      exact .two ha hb'
  | @three a' b c' _ hab hc =>
      obtain ⟨rfl, hr⟩ := List.cons.inj hb
      have happ : conts ++ rest = [b, c'] ++ rest := by simpa using hr
      have : conts = [b, c'] := List.append_cancel_right happ
      subst this
      exact .three hab hc
  | @four a' b c' d _ hab hc hd =>
      obtain ⟨rfl, hr⟩ := List.cons.inj hb
      have happ : conts ++ rest = [b, c', d] ++ rest := by simpa using hr
      have : conts = [b, c', d] := List.append_cancel_right happ
      subst this
      exact .four hab hc hd

/-- The cut at `k` leaves well-formed text, the first characters of the whole, unless it falls
inside a character: then what is left is not UTF-8 at all. -/
theorem fromUtf8_take {bytes : Bytes} {cs : List Char} (h : fromUtf8 bytes = some cs) (k : Nat) :
    ((∀ b, bytes[k]? = some b → ¬ Continues b) ∧
      ∃ cs', fromUtf8 (bytes.take k) = some cs' ∧ cs' <+: cs) ∨
    ((∃ b, bytes[k]? = some b ∧ Continues b) ∧ fromUtf8 (bytes.take k) = none) := by
  induction hn : bytes.length using Nat.strongRecOn generalizing bytes cs k with
  | ind n ih =>
      subst hn
      cases bytes with
      | nil => exact .inl ⟨by simp, [], by rw [List.take_nil]; rfl, List.nil_prefix⟩
      | cons a rest =>
          obtain ⟨c, tail, cs', hf, htail, rfl⟩ := front_of_some h
          obtain ⟨a', conts, hshape, hna, hconts, hnone⟩ := hf.shape
          obtain ⟨rfl, rfl⟩ := List.cons.inj hshape
          cases k with
          | zero => exact .inl ⟨by simpa using hna, [], rfl, List.nil_prefix⟩
          | succ k =>
              by_cases hk : k < conts.length
              · have hb : (a :: (conts ++ tail))[k + 1]? = some conts[k] := by
                  rw [List.getElem?_cons_succ, List.getElem?_append_left hk,
                    List.getElem?_eq_getElem hk]
                refine .inr ⟨⟨conts[k], hb, hconts _ (List.getElem_mem hk)⟩, ?_⟩
                rw [List.take_succ_cons, List.take_append_of_le_length (by omega)]
                exact hnone k hk
              · obtain ⟨j, rfl⟩ := Nat.exists_eq_add_of_le (Nat.le_of_not_lt hk)
                have hget : (a :: (conts ++ tail))[conts.length + j + 1]? = tail[j]? := by
                  rw [List.getElem?_cons_succ, List.getElem?_append_right (by omega),
                    Nat.add_sub_cancel_left]
                have hcut : fromUtf8 ((a :: (conts ++ tail)).take (conts.length + j + 1)) =
                    (fromUtf8 (tail.take j)).map (c :: ·) := by
                  rw [List.take_succ_cons, List.take_length_add_append]
                  exact fromUtf8_front (hf.cut (tail.take j))
                have hlt : tail.length < (a :: (conts ++ tail)).length := by
                  simp only [List.length_cons, List.length_append]
                  omega
                rw [hget, hcut]
                rcases ih tail.length hlt htail j rfl with ⟨hb, cs'', hsome, hpre⟩ | ⟨hb, hnone'⟩
                · refine .inl ⟨hb, c :: cs'', by rw [hsome]; rfl, ?_⟩
                  exact (List.prefix_cons_inj c).mpr hpre
                · exact .inr ⟨hb, by rw [hnone']; rfl⟩

theorem fromUtf8_ascii {bytes : Bytes} (h : ∀ b ∈ bytes, b.toNat < 0x80) :
    fromUtf8 bytes = some (bytes.map scalar1) := by
  induction bytes with
  | nil => rfl
  | cons b bytes ih =>
      have tail := ih (fun x hx => h x (List.mem_cons_of_mem b hx))
      rw [fromUtf8_front (.one (h b (by simp))), tail]
      rfl

theorem Front.of_ascii {a : UInt8} {rest tail : Bytes} {c : Char} (h : Front (a :: rest) c tail)
    (ha : a.toNat < 0x80) : c = scalar1 a := by
  cases h with
  | one => rfl
  | two hlead => unfold Leads2 at hlead; omega
  | three hlead => exact absurd ha (leads3_not_leads2 hlead).1
  | four hlead => exact absurd ha (leads4_not_leads2 hlead).1

theorem scalar1_mem {bytes : Bytes} {cs : List Char} (h : fromUtf8 bytes = some cs) {b : UInt8}
    (hb : b ∈ bytes) (hascii : b.toNat < 0x80) : scalar1 b ∈ cs := by
  induction hn : bytes.length using Nat.strongRecOn generalizing bytes cs with
  | ind n ih =>
      subst hn
      cases bytes with
      | nil => cases hb
      | cons a rest =>
          obtain ⟨c, tail, cs', hf, htail, rfl⟩ := front_of_some h
          obtain ⟨a', conts, hshape, _, hconts, _⟩ := hf.shape
          obtain ⟨rfl, rfl⟩ := List.cons.inj hshape
          have hlt : tail.length < (a :: (conts ++ tail)).length := by
            simp only [List.length_cons, List.length_append]
            omega
          rcases List.mem_cons.mp hb with rfl | hb
          · exact List.mem_cons.mpr (.inl (hf.of_ascii hascii).symm)
          · rcases List.mem_append.mp hb with hb | hb
            · have hcont := hconts b hb
              unfold Continues at hcont
              omega
            · exact List.mem_cons_of_mem c (ih tail.length hlt htail hb rfl)

/-- An ASCII byte in the encoding of a character is that character. -/
theorem ascii_of_mem_encode {b : UInt8} {c : Char} (h : b ∈ String.utf8EncodeChar c)
    (hb : b.toNat < 0x80) : c.toNat = b.toNat := by
  have hvalue : ∀ n : Nat, b = UInt8.ofNat n → n < 256 → b.toNat = n := by
    rintro n rfl hn
    exact UInt8.toNat_ofNat_of_lt' hn
  have hcontinues : ∀ n : Nat, 0x80 ≤ n → n < 256 → b ≠ UInt8.ofNat n := by
    intro n hlow hn heq
    have := hvalue n heq hn
    omega
  unfold String.utf8EncodeChar at h
  dsimp only at h
  split_ifs at h with h1 h2 h3
  · exact (hvalue c.val.toNat (List.mem_singleton.mp h) (by omega)).symm
  · simp only [List.mem_cons, List.not_mem_nil, or_false] at h
    rcases h with h | h <;> exact absurd h (hcontinues _ (by omega) (by omega))
  · simp only [List.mem_cons, List.not_mem_nil, or_false] at h
    rcases h with h | h | h <;> exact absurd h (hcontinues _ (by omega) (by omega))
  · simp only [List.mem_cons, List.not_mem_nil, or_false] at h
    rcases h with h | h | h | h <;> exact absurd h (hcontinues _ (by omega) (by omega))

/-- `str::as_bytes` -/
def encode (cs : List Char) : Bytes := cs.flatMap String.utf8EncodeChar

theorem front_encodeChar (c : Char) (rest : Bytes) :
    Front (String.utf8EncodeChar c ++ rest) c rest := by
  have hbyte : ∀ (n : Nat) (b : UInt8), UInt8.ofNat n = b → n < 256 → b.toNat = n := by
    rintro n b rfl hn
    exact UInt8.toNat_ofNat_of_lt' hn
  have hchar : ∀ n : Nat, n = c.val.toNat → c = Char.ofNat n := by
    rintro n rfl
    exact (Char.ofNat_toNat c).symm
  have hvalid : c.val.toNat < 0xd800 ∨ 0xdfff < c.val.toNat ∧ c.val.toNat < 0x110000 := c.valid
  unfold String.utf8EncodeChar
  dsimp only
  split_ifs with h1 h2 h3
  · generalize hA : UInt8.ofNat c.val.toNat = a
    have ha := hbyte _ a hA (by omega)
    rw [hchar a.toNat ha]
    exact .one (by omega)
  · generalize hA : UInt8.ofNat (c.val.toNat / 64 % 0x20 + 0xc0) = a
    generalize hB : UInt8.ofNat (c.val.toNat % 0x40 + 0x80) = b
    have ha := hbyte _ a hA (by omega)
    have hb := hbyte _ b hB (by omega)
    rw [hchar (a.toNat % 32 * 64 + b.toNat % 64) (by omega)]
    refine .two ?_ ?_
    · unfold Leads2
      omega
    · unfold Continues
      omega
  · generalize hA : UInt8.ofNat (c.val.toNat / 4096 % 0x10 + 0xe0) = a
    generalize hB : UInt8.ofNat (c.val.toNat / 64 % 0x40 + 0x80) = b
    generalize hD : UInt8.ofNat (c.val.toNat % 0x40 + 0x80) = d
    have ha := hbyte _ a hA (by omega)
    have hb := hbyte _ b hB (by omega)
    have hd := hbyte _ d hD (by omega)
    rw [hchar (a.toNat % 16 * 4096 + b.toNat % 64 * 64 + d.toNat % 64) (by omega)]
    refine .three ?_ ?_
    · unfold Leads3 Continues
      omega
    · unfold Continues
      omega
  · generalize hA : UInt8.ofNat (c.val.toNat / 262144 % 0x08 + 0xf0) = a
    generalize hB : UInt8.ofNat (c.val.toNat / 4096 % 0x40 + 0x80) = b
    generalize hD : UInt8.ofNat (c.val.toNat / 64 % 0x40 + 0x80) = d
    generalize hE : UInt8.ofNat (c.val.toNat % 0x40 + 0x80) = e
    have ha := hbyte _ a hA (by omega)
    have hb := hbyte _ b hB (by omega)
    have hd := hbyte _ d hD (by omega)
    have he := hbyte _ e hE (by omega)
    rw [hchar (a.toNat % 8 * 262144 + b.toNat % 64 * 4096 + d.toNat % 64 * 64 + e.toNat % 64)
      (by omega)]
    refine .four ?_ ?_ ?_
    · unfold Leads4 Continues
      omega
    · unfold Continues
      omega
    · unfold Continues
      omega

/-- What is encoded is decoded again. -/
theorem fromUtf8_encode (cs : List Char) : fromUtf8 (encode cs) = some cs := by
  induction cs with
  | nil => rfl
  | cons c cs ih =>
      have hcons : encode (c :: cs) = String.utf8EncodeChar c ++ encode cs := List.flatMap_cons
      rw [hcons, fromUtf8_front (front_encodeChar c _), ih]
      rfl

theorem encode_ascii {c : Char} (h : c.toNat < 0x80) (cs : List Char) :
    encode (c :: cs) = UInt8.ofNat c.toNat :: encode cs := by
  have hle : c.val.toNat ≤ 0x7f := Nat.le_of_lt_succ h
  have hone : String.utf8EncodeChar c = [UInt8.ofNat c.toNat] := if_pos hle
  rw [encode, List.flatMap_cons, hone]
  rfl

theorem length_encode_ascii {cs : List Char} (h : ∀ c ∈ cs, c.toNat < 0x80) :
    (encode cs).length = cs.length := by
  induction cs with
  | nil => rfl
  | cons c cs ih =>
      obtain ⟨hc, hcs⟩ := List.forall_mem_cons.mp h
      rw [encode_ascii hc, List.length_cons, ih hcs, List.length_cons]

end Utf8
