import Memhunt.Spec.Tokens

/-! Which documented cipher lists are accepted, and which accepted lists any request can scan
with. -/
namespace Memhunt
open Rust
open CipherChoice (parseList parseToken splitMode tokens tokenReading named)

/-- The lists of one mode that the documentation offers. -/
inductive CipherGroup where
  | block
  | stream
  | aesCtr
  | aesGcm
  | poly1305
  deriving DecidableEq, Repr

namespace CipherGroup

/-- The tokens of the group, each with the ciphers it names. -/
def table : CipherGroup → List (String × List CipherChoice)
  | block =>
      [("aes-128", [.aes128]), ("aes-192", [.aes192]), ("aes-256", [.aes256]),
        ("aes", [.aes128, .aes192, .aes256]), ("des", [.des]), ("3des", [.tdesEde3]),
        ("sm4", [.sm4])]
  | stream => [("chacha20", [.chaCha20]), ("xchacha20", [.xChaCha20])]
  | aesCtr =>
      [("aes-128-ctr", [.aes128]), ("aes-192-ctr", [.aes192]), ("aes-256-ctr", [.aes256]),
        ("aes-ctr", [.aes128, .aes192, .aes256])]
  | aesGcm =>
      [("aes-128-gcm", [.aes128]), ("aes-192-gcm", [.aes192]), ("aes-256-gcm", [.aes256]),
        ("aes-gcm", [.aes128, .aes192, .aes256])]
  | poly1305 => [("chacha20-poly1305", [.chaCha20]), ("xchacha20-poly1305", [.xChaCha20])]

def mode : CipherGroup → CipherMode
  | block | stream => .block
  | aesCtr => .ctr
  | aesGcm | poly1305 => .gcm

/-- The list has tokens, all of them from the group. -/
def Lists (G : CipherGroup) (spec : String) : Prop :=
  tokens spec ≠ [] ∧ ∀ t ∈ tokens spec, ∃ names, (String.ofList t, names) ∈ G.table

/-- The list is accepted with the mode of the group, as an ordered list of the ciphers that its
tokens name. -/
def ParsedFrom (G : CipherGroup) (spec : String) : Prop :=
  ∃ sel, parseList spec = .ok sel ∧ sel.mode = G.mode ∧
    sel.ciphers.Pairwise (fun a b => a.rank < b.rank) ∧
    ∀ c, c ∈ sel.ciphers ↔
      ∃ t ∈ tokens spec, ∃ names, (String.ofList t, names) ∈ G.table ∧ c ∈ names

theorem reading_of_table {G : CipherGroup} (hG : G ≠ .poly1305) :
    ∀ entry ∈ G.table, tokenReading entry.1.toList = some (G.mode, entry.2) := by
  cases G with
  | poly1305 => exact absurd rfl hG
  | block => decide +kernel
  | stream => decide +kernel
  | aesCtr => decide +kernel
  | aesGcm => decide +kernel

theorem reading_of_poly1305 :
    ∀ entry ∈ poly1305.table, tokenReading entry.1.toList = none := by
  decide +kernel

theorem reading_of_token {G : CipherGroup} (hG : G ≠ .poly1305) {t : List Char}
    {names : List CipherChoice} (h : (String.ofList t, names) ∈ G.table) :
    tokenReading t = some (G.mode, names) := by
  have hread := reading_of_table hG _ h
  rw [String.toList_ofList] at hread
  exact hread

theorem parsedFrom_of_lists {G : CipherGroup} (hG : G ≠ .poly1305) {spec : String}
    (h : G.Lists spec) : G.ParsedFrom spec := by
  obtain ⟨hne, hall⟩ := h
  let sel : CipherSelection :=
    { ciphers := SortDedup.sortDedup CipherChoice.rank ((tokens spec).flatMap named),
      mode := G.mode }
  have hparse : parseList spec = .ok sel := by
    refine CipherChoice.parseList_eq_ok_iff.mpr ⟨hne, ?_, rfl⟩
    intro t ht
    obtain ⟨names, hnames⟩ := hall t ht
    exact ⟨names, reading_of_token hG hnames⟩
  refine ⟨sel, hparse, rfl, CipherChoice.ciphers_increasing hparse, fun c => ?_⟩
  rw [CipherChoice.mem_ciphers_iff hparse]
  constructor
  · rintro ⟨t, ht, hc⟩
    obtain ⟨names, hnames⟩ := hall t ht
    rw [CipherChoice.named_of_reading (reading_of_token hG hnames)] at hc
    exact ⟨t, ht, names, hnames, hc⟩
  · rintro ⟨t, ht, names, hnames, hc⟩
    refine ⟨t, ht, ?_⟩
    rw [CipherChoice.named_of_reading (reading_of_token hG hnames)]
    exact hc

theorem not_parsedFrom_poly1305 {spec : String} (h : poly1305.Lists spec) :
    ¬ poly1305.ParsedFrom spec := by
  rintro ⟨sel, hparse, _⟩
  obtain ⟨t, ht⟩ := List.exists_mem_of_ne_nil _ h.1
  obtain ⟨names, hnames⟩ := h.2 t ht
  obtain ⟨found, hfound⟩ := (CipherChoice.parseList_eq_ok_iff.mp hparse).2.1 t ht
  have hnone := reading_of_poly1305 _ hnames
  rw [String.toList_ofList, hfound] at hnone
  cases hnone

end CipherGroup

/-- Every documented list of one mode is accepted but those of the Poly1305 tokens: their tokens
set a mode that the check of the ciphers then refuses. -/
theorem parseList_group_iff (G : CipherGroup) (spec : String) (h : G.Lists spec) :
    G.ParsedFrom spec ↔ G ≠ .poly1305 := by
  constructor
  · rintro hparsed rfl
    exact CipherGroup.not_parsedFrom_poly1305 h hparsed
  · exact fun hG => CipherGroup.parsedFrom_of_lists hG h

theorem parseList_group_sample : CipherGroup.ParsedFrom .block " DES ,aes,, Aes-128,des" :=
  (parseList_group_iff .block _ (by
    have htokens : tokens " DES ,aes,, Aes-128,des" =
        ["des".toList, "aes".toList, "aes-128".toList, "des".toList] := by decide +kernel
    refine ⟨by rw [htokens]; simp, ?_⟩
    rw [htokens]
    intro t ht
    simp only [List.mem_cons, List.not_mem_nil, or_false] at ht
    rcases ht with rfl | rfl | rfl | rfl
    · exact ⟨[.des], by decide⟩
    · exact ⟨[.aes128, .aes192, .aes256], by decide⟩
    · exact ⟨[.aes128], by decide⟩
    · exact ⟨[.des], by decide⟩)).mpr (by decide)

theorem parseList_poly1305_rejected :
    CipherGroup.Lists .poly1305 "chacha20-poly1305" ∧
    parseList "chacha20-poly1305" = fail "CTR and GCM support AES keys only" ∧
    ¬ CipherGroup.ParsedFrom .poly1305 "chacha20-poly1305" := by
  have htokens : tokens "chacha20-poly1305" = ["chacha20-poly1305".toList] := by decide +kernel
  have hrejected : parseList "chacha20-poly1305" = fail "CTR and GCM support AES keys only" := by
    decide +kernel
  refine ⟨⟨by rw [htokens]; simp, ?_⟩, hrejected, ?_⟩
  · rw [htokens]
    intro t ht
    rw [List.mem_singleton.mp ht]
    exact ⟨[.chaCha20], by decide⟩
  · rintro ⟨sel, hparse, _⟩
    rw [hrejected] at hparse
    exact fail_ne_ok _ _ hparse

/-- The tokens whose ciphers a configuration cannot mix with those of any other. -/
inductive TokenKind where
  | all
  | chacha
  | xchacha
  | other
  deriving DecidableEq, Repr

def tokenKind (token : String) : TokenKind :=
  if token = "all" then .all
  else if token = "chacha20" ∨ token = "chacha" then .chacha
  else if token = "xchacha20" ∨ token = "xchacha" then .xchacha
  else .other

def TokenKind.Names : TokenKind → List CipherChoice → Prop
  | all, found => found = CipherChoice.all
  | chacha, found => found = [.chaCha20]
  | xchacha, found => found = [.xChaCha20]
  | other, found => ∀ c ∈ found, c.isStreamCipher = false

/-- One kind of token, and not `all`. -/
def OneKind (spec : String) : Prop :=
  ∃ k, k ≠ TokenKind.all ∧ ∀ t ∈ tokens spec, tokenKind (String.ofList t) = k

def CipherSelection.config (sel : CipherSelection) (maxHits : Nat) (scanIv : Bool)
    (fixedIv nonce tag aad : Option Bytes) : ScanConfig :=
  { ciphers := sel.ciphers, mode := sel.mode, maxHits, scanIv, fixedIv, nonce, tag, aad }

def CipherSelection.Scannable (sel : CipherSelection) : Prop :=
  ∀ maxHits scanIv, ∃ fixedIv nonce tag aad,
    validateConfig (sel.config maxHits scanIv fixedIv nonce tag aad) = .ok ()

instance (k : TokenKind) (found : List CipherChoice) : Decidable (k.Names found) :=
  match k with
  | .all => inferInstanceAs (Decidable (found = CipherChoice.all))
  | .chacha => inferInstanceAs (Decidable (found = [.chaCha20]))
  | .xchacha => inferInstanceAs (Decidable (found = [.xChaCha20]))
  | .other => inferInstanceAs (Decidable (∀ c ∈ found, c.isStreamCipher = false))

theorem parseToken_kind {token : String} {mode : CipherMode} {found : List CipherChoice}
    (h : parseToken token mode = .ok (found, none)) : (tokenKind token).Names found := by
  unfold parseToken at h
  split at h
  case h_16 =>
    split at h
    · rename_i hdes
      cases h
      rw [hdes.1]
      decide
    split at h
    · rename_i htdes
      cases h
      rcases htdes.1 with htoken | htoken | htoken
      all_goals rw [htoken]; decide
    split at h
    · rename_i hsm4
      cases h
      rw [hsm4.1]
      decide
    split at h
    · rename_i hall
      cases h
      rw [hall.1]
      decide
    · cases h
  all_goals first
    | cases h; decide
    | cases h

theorem splitMode_block {lower : List Char} (h : (splitMode lower).2 = .block) :
    (splitMode lower).1 = lower := by
  unfold splitMode at h ⊢
  split at h
  · cases h
  split at h
  · cases h
  · rfl

theorem splitMode_of_kind {t : List Char} (h : tokenKind (String.ofList t) ≠ .other) :
    splitMode t = (t, .block) := by
  have hmem : String.ofList t ∈ ["all", "chacha20", "chacha", "xchacha20", "xchacha"] := by
    by_contra hnot
    simp only [List.mem_cons, List.not_mem_nil, or_false, not_or] at hnot
    exact h (by simp [tokenKind, hnot])
  have hsplit : ∀ s ∈ ["all", "chacha20", "chacha", "xchacha20", "xchacha"],
      splitMode s.toList = (s.toList, .block) := by decide +kernel
  have := hsplit _ hmem
  rwa [String.toList_ofList] at this

/-- What an accepted token names is a matter of its kind. -/
theorem names_of_reading {t : List Char} {mode : CipherMode} {found : List CipherChoice}
    (h : tokenReading t = some (mode, found)) :
    (tokenKind (String.ofList t)).Names found ∧
      (tokenKind (String.ofList t) ≠ .other → mode = .block) := by
  obtain ⟨hmode, hparse, haes⟩ := CipherChoice.tokenReading_eq_some.mp h
  by_cases hkind : tokenKind (String.ofList t) = .other
  · refine ⟨?_, fun hne => absurd hkind hne⟩
    rcases haes with hblock | haes
    · rw [splitMode_block (hmode.trans hblock)] at hparse
      exact parseToken_kind hparse
    · rw [hkind]
      exact fun c hc => CipherChoice.not_stream_of_aes (haes c hc)
  · have hsplit := splitMode_of_kind hkind
    rw [hsplit] at hparse hmode
    exact ⟨parseToken_kind hparse, fun _ => hmode.symm⟩

def CipherChoice.kind : CipherChoice → TokenKind
  | chaCha20 => .chacha
  | xChaCha20 => .xchacha
  | _ => .other

theorem CipherChoice.kind_of_not_stream {c : CipherChoice} (h : c.isStreamCipher = false) :
    c.kind = .other := by
  cases c <;> first | rfl | cases h

theorem CipherChoice.stream_cases {c : CipherChoice} (h : c.isStreamCipher = true) :
    c = .chaCha20 ∨ c = .xChaCha20 := by
  cases c <;> first | exact .inl rfl | exact .inr rfl | cases h

/-- One nonce serves stream ciphers of one kind. -/
theorem ScanConfig.Valid.same_cipherKind {config : ScanConfig} (h : config.Valid)
    {c d : CipherChoice} (hc : c ∈ config.ciphers) (hd : d ∈ config.ciphers) : c.kind = d.kind := by
  have hstream := h.same_kind hc hd
  cases hs : d.isStreamCipher with
  | false =>
      rw [hs] at hstream
      rw [CipherChoice.kind_of_not_stream hstream, CipherChoice.kind_of_not_stream hs]
  | true =>
      rw [hs] at hstream
      cases h with
      | stream nonce _ _ _ _ hxchacha hchacha =>
          have hclash : CipherChoice.chaCha20 ∈ config.ciphers →
              CipherChoice.xChaCha20 ∉ config.ciphers := by
            intro h₁ h₂
            have := hchacha h₁
            have := hxchacha h₂
            omega
          rcases CipherChoice.stream_cases hstream with rfl | rfl
          · rcases CipherChoice.stream_cases hs with rfl | rfl
            · rfl
            · exact absurd hd (hclash hc)
          · rcases CipherChoice.stream_cases hs with rfl | rfl
            · exact absurd hc (hclash hd)
            · rfl
      | block hnone => rw [hnone d hd] at hs; cases hs
      | ctr _ haes => rw [CipherChoice.not_stream_of_aes (haes d hd)] at hs; cases hs
      | gcm _ haes => rw [CipherChoice.not_stream_of_aes (haes d hd)] at hs; cases hs

section Scannable
variable {spec : String} {sel : CipherSelection}

theorem kind_names (h : parseList spec = .ok sel) {t : List Char} (ht : t ∈ tokens spec) :
    (tokenKind (String.ofList t)).Names (named t) ∧ named t ≠ [] ∧
      (tokenKind (String.ofList t) ≠ .other → sel.mode = .block) ∧ ∀ c ∈ named t, c ∈ sel.ciphers := by
  obtain ⟨found, hread⟩ := (CipherChoice.parseList_eq_ok_iff.mp h).2.1 t ht
  have hnamed := CipherChoice.named_of_reading hread
  obtain ⟨hnames, hmode⟩ := names_of_reading hread
  refine ⟨hnamed ▸ hnames, ?_, hmode, fun c hc => ?_⟩
  · rw [hnamed]
    exact CipherChoice.parseToken_nonempty (CipherChoice.tokenReading_eq_some.mp hread).2.1
  · exact (CipherChoice.mem_ciphers_iff h).mpr ⟨t, ht, hc⟩

theorem isAes_of_mode (h : parseList spec = .ok sel) (hmode : sel.mode ≠ .block)
    {c : CipherChoice} (hc : c ∈ sel.ciphers) : c.isAes = true := by
  obtain ⟨t, ht, hct⟩ := (CipherChoice.mem_ciphers_iff h).mp hc
  obtain ⟨found, hread⟩ := (CipherChoice.parseList_eq_ok_iff.mp h).2.1 t ht
  rw [CipherChoice.named_of_reading hread] at hct
  rcases (CipherChoice.tokenReading_eq_some.mp hread).2.2 with hblock | haes
  · exact absurd hblock hmode
  · exact haes c hct

/-- A list of one stream cipher is scanned with a nonce of the length of that cipher. -/
theorem scannable_of_stream (h : parseList spec = .ok sel) {c : CipherChoice}
    (hc : c.isStreamCipher = true) (hnames : ∀ t ∈ tokens spec, named t = [c])
    (hmode : sel.mode = .block) : sel.Scannable := by
  have hne := (CipherChoice.parseList_eq_ok_iff.mp h).1
  have honly : ∀ d, d ∈ sel.ciphers ↔ d = c := by
    intro d
    rw [CipherChoice.mem_ciphers_iff h]
    constructor
    · rintro ⟨t, ht, hd⟩
      rw [hnames t ht] at hd
      exact List.mem_singleton.mp hd
    · rintro rfl
      obtain ⟨t, ht⟩ := List.exists_mem_of_ne_nil _ hne
      exact ⟨t, ht, by rw [hnames t ht]; exact List.mem_singleton.mpr rfl⟩
  intro maxHits scanIv
  refine ⟨none, some (List.replicate c.nonceLen 0), none, none, validateConfig_of_valid ?_⟩
  refine .stream (List.replicate c.nonceLen 0) ⟨c, (honly c).mpr rfl, hc⟩ ?_ rfl rfl ?_ ?_ ?_ ?_
  · intro d hd
    rw [(honly d).mp hd]
    exact hc
  · intro hx
    rw [← (honly _).mp hx]
    rfl
  · intro hx
    rw [← (honly _).mp hx]
    rfl
  · intro tag ht
    cases ht
  · show sel.mode ≠ .ctr
    rw [hmode]
    simp

theorem scannable_of_other (h : parseList spec = .ok sel)
    (hkinds : ∀ t ∈ tokens spec, tokenKind (String.ofList t) = .other) : sel.Scannable := by
  have hnone : ∀ c ∈ sel.ciphers, c.isStreamCipher = false := by
    intro c hc
    obtain ⟨t, ht, hct⟩ := (CipherChoice.mem_ciphers_iff h).mp hc
    have hnames := (kind_names h ht).1
    rw [hkinds t ht] at hnames
    exact hnames c hct
  have haes := fun hmode => fun c (hc : c ∈ sel.ciphers) => isAes_of_mode h hmode hc
  intro maxHits scanIv
  cases hmode : sel.mode with
  | block =>
      exact ⟨none, none, none, none, validateConfig_of_valid (.block hnone hmode rfl rfl rfl)⟩
  | ctr =>
      exact ⟨none, some (List.replicate 16 0), none, none, validateConfig_of_valid
        (.ctr _ (haes (by simp [hmode])) hmode rfl rfl rfl rfl rfl)⟩
  | gcm =>
      exact ⟨none, some (List.replicate 12 0), none, none, validateConfig_of_valid
        (.gcm _ (haes (by simp [hmode])) hmode rfl rfl rfl (fun _ ht => by cases ht)
          fun _ => rfl)⟩

theorem TokenKind.Names.kind_eq {k : TokenKind} {found : List CipherChoice} (h : k.Names found)
    (hk : k ≠ .all) {c : CipherChoice} (hc : c ∈ found) : c.kind = k := by
  cases k with
  | all => exact absurd rfl hk
  | chacha =>
      rw [show found = [.chaCha20] from h, List.mem_singleton] at hc
      rw [hc]
      rfl
  | xchacha =>
      rw [show found = [.xChaCha20] from h, List.mem_singleton] at hc
      rw [hc]
      rfl
  | other => exact CipherChoice.kind_of_not_stream (h c hc)

theorem oneKind_of_scannable (h : parseList spec = .ok sel) (hscan : sel.Scannable) :
    OneKind spec := by
  obtain ⟨fixedIv, nonce, tag, aad, hvalid⟩ := hscan 0 true
  have hsame : ∀ c ∈ sel.ciphers, ∀ d ∈ sel.ciphers, c.kind = d.kind :=
    fun c hc d hd => (validateConfig_ok hvalid).same_cipherKind hc hd
  have hnoAll : ∀ t ∈ tokens spec, tokenKind (String.ofList t) ≠ .all := by
    intro t ht hkind
    obtain ⟨hfound, _, _, hmem⟩ := kind_names h ht
    rw [hkind] at hfound
    have hall : ∀ c, c ∈ sel.ciphers := by
      intro c
      apply hmem
      rw [show named t = CipherChoice.all from hfound]
      cases c <;> decide
    have := hsame .des (hall _) .chaCha20 (hall _)
    cases this
  have hkind : ∀ t ∈ tokens spec, ∃ c ∈ sel.ciphers, c.kind = tokenKind (String.ofList t) := by
    intro t ht
    obtain ⟨hfound, hne, _, hmem⟩ := kind_names h ht
    obtain ⟨c, hc⟩ := List.exists_mem_of_ne_nil _ hne
    exact ⟨c, hmem c hc, hfound.kind_eq (hnoAll t ht) hc⟩
  obtain ⟨t, ht⟩ := List.exists_mem_of_ne_nil _ (CipherChoice.parseList_eq_ok_iff.mp h).1
  refine ⟨tokenKind (String.ofList t), hnoAll t ht, fun u hu => ?_⟩
  obtain ⟨c, hc, hct⟩ := hkind t ht
  obtain ⟨d, hd, hdu⟩ := hkind u hu
  rw [← hct, ← hdu]
  exact hsame d hd c hc

theorem scannable_of_oneKind (h : parseList spec = .ok sel) (hone : OneKind spec) :
    sel.Scannable := by
  obtain ⟨k, hk, hkinds⟩ := hone
  obtain ⟨t, ht⟩ := List.exists_mem_of_ne_nil _ (CipherChoice.parseList_eq_ok_iff.mp h).1
  have hnames : ∀ u ∈ tokens spec, k.Names (named u) :=
    fun u hu => hkinds u hu ▸ (kind_names h hu).1
  have hmode : k ≠ .other → sel.mode = .block :=
    fun hne => (kind_names h ht).2.2.1 (by rw [hkinds t ht]; exact hne)
  cases k with
  | all => exact absurd rfl hk
  | chacha => exact scannable_of_stream h rfl hnames (hmode (by simp))
  | xchacha => exact scannable_of_stream h rfl hnames (hmode (by simp))
  | other => exact scannable_of_other h hkinds

end Scannable

/-- An accepted list can be scanned with some options exactly where it names one stream cipher, or
none, and does not ask for all ciphers. -/
theorem accepted_list_scannable_iff (spec : String) (sel : CipherSelection)
    (h : parseList spec = .ok sel) : sel.Scannable ↔ OneKind spec :=
  ⟨oneKind_of_scannable h, scannable_of_oneKind h⟩

theorem accepted_list_scannable_sample :
    CipherSelection.Scannable { ciphers := [.xChaCha20], mode := .block } := by
  have hparse : parseList "XChaCha20, xchacha" = .ok { ciphers := [.xChaCha20], mode := .block } := by
    decide +kernel
  refine (accepted_list_scannable_iff "XChaCha20, xchacha" _ hparse).mpr ⟨.xchacha, by decide, ?_⟩
  have htokens : tokens "XChaCha20, xchacha" = ["xchacha20".toList, "xchacha".toList] := by
    decide +kernel
  rw [htokens]
  decide +kernel

/-- The documented list `all` is accepted, and every configuration made of it is refused. -/
theorem all_not_scannable :
    ∃ sel, parseList "all" = .ok sel ∧ ¬ sel.Scannable := by
  have hparse : parseList "all" = .ok { ciphers := CipherChoice.all, mode := .block } := by
    decide +kernel
  refine ⟨_, hparse, fun hscan => ?_⟩
  obtain ⟨k, hk, hkinds⟩ := oneKind_of_scannable hparse hscan
  have htokens : tokens "all" = ["all".toList] := by decide +kernel
  rw [htokens] at hkinds
  exact hk (hkinds _ (List.mem_singleton.mpr rfl)).symm

end Memhunt
