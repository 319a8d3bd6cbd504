import Memhunt.Scan.Lists

/-! What is accepted before a scan starts: cipher lists by their tokens, and configurations by the
options the hunt goes on to use. -/
namespace Memhunt
open Rust

namespace CipherChoice

/-- The same tokens, in any order and any number. -/
def SameTokens (s t : String) : Prop := ∀ token, token ∈ tokens s ↔ token ∈ tokens t

theorem parseToken_not_panics (token : String) (mode : CipherMode) :
    ¬ Panics (parseToken token mode) := by
  unfold parseToken
  repeat' split
  all_goals first | exact not_panics_ok _ | exact not_panics_fail _

theorem checkMode_not_panics (mode : Option CipherMode) (tokenMode : CipherMode) :
    ¬ Panics (checkMode mode tokenMode) := by
  unfold checkMode
  repeat' split
  all_goals first | exact not_panics_ok _ | exact not_panics_fail _

theorem parseParts_not_panics (parts : List (List Char)) (out : List CipherChoice)
    (mode : Option CipherMode) : ¬ Panics (parseParts parts out mode) := by
  induction parts generalizing out mode with
  | nil => exact not_panics_ok _
  | cons part parts ih =>
      unfold parseParts
      refine not_panics_bind (checkMode_not_panics mode _) fun m => ?_
      refine not_panics_bind (parseToken_not_panics _ _) fun found => ?_
      exact ih _ _

theorem parseList_not_panics (spec : String) : ¬ Panics (parseList spec) := by
  unfold parseList
  refine not_panics_bind (parseParts_not_panics _ _ _) fun parsed => ?_
  repeat' split
  all_goals first | exact not_panics_ok _ | exact not_panics_fail _

theorem parseList_of_same_tokens {s t : String} (h : SameTokens s t) {sel : CipherSelection}
    (hs : parseList s = .ok sel) : parseList t = .ok sel := by
  obtain ⟨hne, hread, hciphers⟩ := parseList_eq_ok_iff.mp hs
  refine parseList_eq_ok_iff.mpr ⟨?_, fun token ht => hread token ((h token).mpr ht), ?_⟩
  · obtain ⟨token, htoken⟩ := List.exists_mem_of_ne_nil _ hne
    exact List.ne_nil_of_mem ((h token).mp htoken)
  · rw [hciphers]
    apply SortDedup.sortDedup_congr rank_injective
    intro c
    simp only [List.mem_flatMap]
    exact exists_congr fun token => and_congr_left' (h token)

/-- A list is read by the set of its tokens: neither their order nor how often they are repeated
decides whether it is accepted, or as what. -/
theorem parseList_same_tokens (s t : String) (h : SameTokens s t) :
    (Errs (parseList s) ∧ Errs (parseList t)) ∨
      ∃ sel, parseList s = .ok sel ∧ parseList t = .ok sel ∧
        sel.ciphers.Pairwise (fun a b => a.rank ≤ b.rank) ∧ sel.ciphers.Nodup := by
  rcases ok_or_errs (parseList_not_panics s) with ⟨sel, hs⟩ | herr
  · have hincreasing := ciphers_increasing hs
    refine .inr ⟨sel, hs, parseList_of_same_tokens h hs, ?_, ?_⟩
    · exact hincreasing.imp fun hlt => hlt.le
    · exact hincreasing.imp fun hlt heq => absurd (congrArg rank heq) hlt.ne
  · refine .inl ⟨herr, ?_⟩
    rcases ok_or_errs (parseList_not_panics t) with ⟨sel, ht⟩ | herr'
    · have hs := parseList_of_same_tokens (fun token => (h token).symm) ht
      rw [hs] at herr
      exact absurd herr (not_errs_ok sel)
    · exact herr'

theorem parseList_same_tokens_sample :
    ∃ sel, parseList "DES,aes-128 , des" = .ok sel ∧ parseList "aes-128,des" = .ok sel := by
  have htokens : SameTokens "DES,aes-128 , des" "aes-128,des" := by
    have hs : tokens "DES,aes-128 , des" = ["des".toList, "aes-128".toList, "des".toList] := by
      decide +kernel
    have ht : tokens "aes-128,des" = ["aes-128".toList, "des".toList] := by decide +kernel
    intro token
    rw [hs, ht]
    simp only [List.mem_cons, List.not_mem_nil, or_false]
    tauto
  have haccepted : ¬ Errs (parseList "aes-128,des") := by
    have hok : parseList "aes-128,des" = .ok { ciphers := [aes128, des], mode := .block } := by
      decide +kernel
    rw [hok]
    exact not_errs_ok _
  rcases parseList_same_tokens _ _ htokens with ⟨_, herr⟩ | ⟨sel, hs, ht, _⟩
  · exact absurd herr haccepted
  · exact ⟨sel, hs, ht⟩

end CipherChoice

/-- The nonce length that a cipher asks for in a mode. -/
def CipherChoice.neededNonce (mode : CipherMode) (c : CipherChoice) : Nat :=
  if c.isStreamCipher then c.nonceLen
  else match mode with
    | .ctr => 16
    | _ => 12

/-- The options of a configuration are those that the hunt for its ciphers looks at. -/
structure ScanConfig.UsesOptions (config : ScanConfig) : Prop where
  aad : config.aad.isSome = true → config.tag.isSome = true
  tag : ∀ tag, config.tag = some tag → tag.length = 16 ∧
    ∀ c ∈ config.ciphers, (c.isAes = true ∧ config.mode = .gcm) ∨ c.isStreamCipher = true
  fixedIv : config.fixedIv.isSome = true →
    config.mode = .block ∧ ∀ c ∈ config.ciphers, c.isStreamCipher = false
  nonce : config.nonce.isSome = true ↔
    config.mode ≠ .block ∨ ∀ c ∈ config.ciphers, c.isStreamCipher = true
  nonceLen : ∀ nonce, config.nonce = some nonce →
    ∀ c ∈ config.ciphers, nonce.length = c.neededNonce config.mode
  oneKind : ∀ c ∈ config.ciphers, ∀ d ∈ config.ciphers, c.isStreamCipher = d.isStreamCipher

/-- Associated data for stream ciphers, and no tag that it could be checked with. -/
def ScanConfig.StrayAad (config : ScanConfig) : Prop :=
  (∃ c ∈ config.ciphers, c.isStreamCipher = true) ∧ config.aad.isSome = true ∧ config.tag = none

theorem CipherChoice.neededNonce_of_aes {c : CipherChoice} (h : c.isAes = true) :
    c.neededNonce .ctr = 16 ∧ c.neededNonce .gcm = 12 := by
  cases c <;> first | exact ⟨rfl, rfl⟩ | cases h

theorem ScanConfig.Valid.usesOptions {config : ScanConfig} (h : config.Valid)
    (hne : config.ciphers ≠ []) (haad : ¬ config.StrayAad) : config.UsesOptions := by
  have hkind : ∀ c ∈ config.ciphers, ∀ d ∈ config.ciphers, c.isStreamCipher = d.isStreamCipher :=
    fun c hc d hd => h.same_kind hc hd
  obtain ⟨first, hfirst⟩ := List.exists_mem_of_ne_nil _ hne
  cases h with
  | stream nonce hsome hall hiv hnonce hxchacha hchacha htag hmode =>
      constructor
      case aad =>
        intro ha
        by_contra ht
        exact haad ⟨hsome, ha, by simpa using ht⟩
      case tag => exact fun tag ht => ⟨htag tag ht, fun c hc => .inr (hall c hc)⟩
      case fixedIv => simp [hiv]
      case nonce => exact iff_of_true (by rw [hnonce]; rfl) (.inr hall)
      case nonceLen =>
        intro n hn c hc
        obtain rfl := Option.some.inj (hnonce.symm.trans hn)
        rcases CipherChoice.stream_cases (hall c hc) with rfl | rfl
        · exact hchacha hc
        · exact hxchacha hc
      case oneKind => exact hkind
  | block hnone hmode hnonce htag hnoaad =>
      constructor
      case aad => simp [hnoaad]
      case tag => simp [htag]
      case fixedIv => exact fun _ => ⟨hmode, hnone⟩
      case nonce =>
        rw [hnonce]
        refine iff_of_false (by simp) ?_
        rintro (hnot | hall)
        · exact hnot hmode
        · have := hall first hfirst
          rw [hnone first hfirst] at this
          cases this
      case nonceLen => simp [hnonce]
      case oneKind => exact hkind
  | ctr nonce haes hmode hiv hnonce hlen htag hnoaad =>
      constructor
      case aad => simp [hnoaad]
      case tag => simp [htag]
      case fixedIv => simp [hiv]
      case nonce => simp [hnonce, hmode]
      case nonceLen =>
        intro n hn c hc
        obtain rfl := Option.some.inj (hnonce.symm.trans hn)
        rw [hmode, (CipherChoice.neededNonce_of_aes (haes c hc)).1, hlen]
      case oneKind => exact hkind
  | gcm nonce haes hmode hiv hnonce hlen htag hnoaad =>
      constructor
      case aad =>
        intro ha
        by_contra ht
        rw [hnoaad (by simpa using ht)] at ha
        cases ha
      case tag => exact fun tag ht => ⟨htag tag ht, fun c hc => .inl ⟨haes c hc, hmode⟩⟩
      case fixedIv => simp [hiv]
      case nonce => simp [hnonce, hmode]
      case nonceLen =>
        intro n hn c hc
        obtain rfl := Option.some.inj (hnonce.symm.trans hn)
        rw [hmode, (CipherChoice.neededNonce_of_aes (haes c hc)).2, hlen]
      case oneKind => exact hkind

/-- The options of an accepted configuration are all used, and none that is needed is missing,
except where associated data is given to stream ciphers without a tag. -/
theorem accepted_options_used_iff (config : ScanConfig) (hne : config.ciphers ≠ [])
    (hok : validateConfig config = .ok ()) : config.UsesOptions ↔ ¬ config.StrayAad := by
  constructor
  · rintro huses ⟨_, haad, htag⟩
    have := huses.aad haad
    rw [htag] at this
    cases this
  · exact fun haad => (validateConfig_ok hok).usesOptions hne haad

/-- ChaCha20 with a nonce and associated data, but no tag. -/
def untaggedConfig : ScanConfig :=
  { (default : ScanConfig) with
    ciphers := [.chaCha20], nonce := some (List.replicate 12 0), aad := some [0x61] }

theorem accepted_options_used_sample :
    { untaggedConfig with tag := some (List.replicate 16 0) }.UsesOptions :=
  (accepted_options_used_iff _ (by decide) (by decide)).mpr (by rintro ⟨_, _, h⟩; cases h)

theorem untagged_aad_accepted : untaggedConfig.ciphers ≠ [] ∧
    validateConfig untaggedConfig = .ok () ∧ untaggedConfig.aad.isSome = true ∧
    untaggedConfig.tag.isSome = false ∧ ¬ untaggedConfig.UsesOptions := by
  refine ⟨by decide, by decide, rfl, rfl, fun huses => ?_⟩
  cases huses.aad rfl

end Memhunt
