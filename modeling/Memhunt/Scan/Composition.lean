import Memhunt.Spec.Scan
import Memhunt.Spec.Vectors

/-! How scans of one dump with different cipher lists and limits relate. -/
namespace Memhunt
open Rust

section Composition
variable {crates : Crates} {dump ciphertext : Bytes} {oracles : List Oracle} {config : ScanConfig}

/-- Validation is monotone: a part of an accepted list is accepted. -/
theorem ScanConfig.Valid.restrict (h : config.Valid) {L : List CipherChoice} (hne : L ≠ [])
    (hsub : ∀ c ∈ L, c ∈ config.ciphers) : ScanConfig.Valid { config with ciphers := L } := by
  cases h with
  | stream nonce hsome hall hiv hnonce hxchacha hchacha htag hmode =>
      obtain ⟨c, hc⟩ := List.exists_mem_of_ne_nil L hne
      exact .stream nonce ⟨c, hc, hall c (hsub c hc)⟩ (fun c hc => hall c (hsub c hc)) hiv hnonce
        (fun hx => hxchacha (hsub _ hx)) (fun hx => hchacha (hsub _ hx)) htag hmode
  | block hnone hmode hnonce htag haad =>
      exact .block (fun c hc => hnone c (hsub c hc)) hmode hnonce htag haad
  | ctr nonce haes hmode hiv hnonce hlen htag haad =>
      exact .ctr nonce (fun c hc => haes c (hsub c hc)) hmode hiv hnonce hlen htag haad
  | gcm nonce haes hmode hiv hnonce hlen htag haad =>
      exact .gcm nonce (fun c hc => haes c (hsub c hc)) hmode hiv hnonce hlen htag haad

theorem Admitted.restrict (h : Admitted oracles config) {L : List CipherChoice} (hne : L ≠ [])
    (hsub : ∀ c ∈ L, c ∈ config.ciphers) : Admitted oracles { config with ciphers := L } :=
  ⟨validateConfig_of_valid (h.valid.restrict hne hsub), h.2⟩

theorem scan_single {r : ScanResult} (hmax : config.maxHits = 0)
    (h : scan crates dump ciphertext oracles config = .ok r) {c : CipherChoice}
    (hc : c ∈ config.ciphers) :
    ∃ rc, scan crates dump ciphertext oracles { config with ciphers := [c] } = .ok rc ∧
      rc.hits = cipherHits crates dump ciphertext oracles config c := by
  have hadm : Admitted oracles { config with ciphers := [c] } :=
    (admitted_of_scan h).restrict (List.cons_ne_nil c []) (by simpa using hc)
  have hparts : ∀ d ∈ [c], ∃ part, cipherPart crates dump ciphertext oracles
      { config with ciphers := [c] } d = .ok part := by
    intro d hd
    obtain rfl := List.mem_singleton.mp hd
    exact parts_of_scan hmax h d hc
  obtain ⟨rc, hrc, hhits⟩ := scan_of_parts hadm hmax hparts
  refine ⟨rc, hrc, ?_⟩
  rw [hhits]
  exact List.flatMap_singleton _ c

theorem scan_limit {r : ScanResult} (hmax : config.maxHits = 0)
    (h : scan crates dump ciphertext oracles config = .ok r) {n : Nat} (hn : 0 < n) :
    ∃ rn, scan crates dump ciphertext oracles { config with maxHits := n } = .ok rn ∧
      rn.hits = r.hits.take n := by
  have hcollect := collect_of_scan h
  rw [hmax] at hcollect
  have hadm := admitted_of_scan h
  have hadm' : Admitted oracles { config with maxHits := n } := ⟨hadm.1, hadm.2⟩
  exact scan_of_collect hadm' (Collect.collect_limit hn (by simpa using hn) hcollect)

theorem nodup_hits {L : List CipherChoice} (h : L.Nodup) :
    ((L.flatMap (cipherHits crates dump ciphertext oracles config)).map
      fun hit => (hit.algo, hit.keyOffset)).Nodup := by
  rw [List.map_flatMap, List.nodup_flatMap]
  refine ⟨fun c _ => ?_, h.imp ?_⟩
  · have hoffsets : ((cipherHits crates dump ciphertext oracles config c).map
        Hit.keyOffset).Nodup := (cipherHits_increasing c).imp Nat.ne_of_lt
    apply List.Nodup.of_map Prod.snd
    rw [List.map_map]
    exact hoffsets
  · intro c d hcd x hx hy
    obtain ⟨a, ha, rfl⟩ := List.mem_map.mp hx
    obtain ⟨b, hb, he⟩ := List.mem_map.mp hy
    have hlabel : d.label = c.label := by
      rw [← algo_of_mem_cipherHits ha, ← algo_of_mem_cipherHits hb]
      exact congrArg Prod.fst he
    exact hcd (CipherChoice.label_inj hlabel).symm

end Composition

/-- Multi-cipher scans compose from the scans with one cipher each, and a limit takes a prefix. -/
theorem scan_composes (crates : Crates) (dump ciphertext : Bytes) (oracles : List Oracle)
    (config : ScanConfig) (r : ScanResult) (hmax : config.maxHits = 0)
    (hscan : scan crates dump ciphertext oracles config = .ok r) :
    (∃ parts : List (List Hit), r.hits = parts.flatten ∧
      List.Forall₂ (fun c part =>
        (∃ rc, scan crates dump ciphertext oracles { config with ciphers := [c] } = .ok rc ∧
          rc.hits = part) ∧
        (part.map Hit.keyOffset).Pairwise (· < ·)) config.ciphers parts) ∧
    (config.ciphers.Nodup → (r.hits.map fun hit => (hit.algo, hit.keyOffset)).Nodup) ∧
    ∀ n, 0 < n → ∃ rn,
      scan crates dump ciphertext oracles { config with maxHits := n } = .ok rn ∧
        rn.hits = r.hits.take n := by
  have hhits := hits_of_scan hmax hscan
  refine ⟨⟨config.ciphers.map (cipherHits crates dump ciphertext oracles config), ?_, ?_⟩, ?_,
    fun n hn => scan_limit hmax hscan hn⟩
  · rw [hhits, List.flatMap_def]
  · rw [List.forall₂_map_right_iff, List.forall₂_same]
    exact fun c hc => ⟨scan_single hmax hscan hc, cipherHits_increasing c⟩
  · intro hnodup
    rw [hhits]
    exact nodup_hits hnodup

theorem scan_composes_sample :
    ∃ rn, scan sampleCrates sampleKey sampleCiphertext [jsonOracle]
      { sampleConfig with ciphers := [.aes256, .aes128], maxHits := 1 } = .ok rn ∧
        rn.hits = [sampleHit] :=
  (scan_composes sampleCrates sampleKey sampleCiphertext [jsonOracle]
    { sampleConfig with ciphers := [.aes256, .aes128] }
    sampleResult rfl (by decide +kernel)).2.2 1 Nat.one_pos

/-- A cipher that was not in the first list does not get in the way of the others: its key does not
fit into the dump, or it can use the request. -/
def Harmless (crates : Crates) (dump ciphertext : Bytes) (config : ScanConfig)
    (c : CipherChoice) : Prop :=
  Reaches dump c → Fits ciphertext config c ∧
    (c.isStreamCipher = true → ciphertext.length ≤ c.keystreamLimit crates)

instance (crates : Crates) (dump ciphertext : Bytes) (config : ScanConfig) (c : CipherChoice) :
    Decidable (Harmless crates dump ciphertext config c) :=
  inferInstanceAs (Decidable (Reaches dump c → Fits ciphertext config c ∧
    (c.isStreamCipher = true → ciphertext.length ≤ c.keystreamLimit crates)))

/-- Whatever the scan with the first list reports, the scan with the second one reports too. -/
def KeepsHits (crates : Crates) (dump ciphertext : Bytes) (oracles : List Oracle)
    (config : ScanConfig) (L₁ L₂ : List CipherChoice) : Prop :=
  ∀ r₁, scan crates dump ciphertext oracles { config with ciphers := L₁ } = .ok r₁ →
    ∃ r₂, scan crates dump ciphertext oracles { config with ciphers := L₂ } = .ok r₂ ∧
      ∀ hit ∈ r₁.hits, hit ∈ r₂.hits

/-- Adding ciphers that can use the request never loses a hit. -/
theorem scan_more_ciphers (crates : Crates) (dump ciphertext : Bytes) (oracles : List Oracle)
    (config : ScanConfig) (L₁ L₂ : List CipherChoice) (hmax : config.maxHits = 0)
    (hsub : ∀ c ∈ L₁, c ∈ L₂) (hvalid : validateConfig { config with ciphers := L₂ } = .ok ())
    (hadded : ∀ c ∈ L₂, c ∉ L₁ → Harmless crates dump ciphertext config c) :
    KeepsHits crates dump ciphertext oracles config L₁ L₂ := by
  intro r₁ hscan
  have hadm : Admitted oracles { config with ciphers := L₂ } := ⟨hvalid, (admitted_of_scan hscan).2⟩
  have hmax₁ : ({ config with ciphers := L₁ } : ScanConfig).maxHits = 0 := hmax
  have hmax₂ : ({ config with ciphers := L₂ } : ScanConfig).maxHits = 0 := hmax
  have hparts : ∀ c ∈ L₂, ∃ part, cipherPart crates dump ciphertext oracles
      { config with ciphers := L₂ } c = .ok part := by
    intro c hc
    by_cases hold : c ∈ L₁
    · exact parts_of_scan hmax₁ hscan c hold
    · have hout := @cipherPart_outcome crates dump ciphertext oracles
        { config with ciphers := L₂ } hadm.valid c hc
      have hharmless := hadded c hc hold
      generalize hr : cipherPart crates dump ciphertext oracles { config with ciphers := L₂ } c = r
        at hout
      cases hout with
      | skipped => exact ⟨_, rfl⟩
      | found => exact ⟨_, rfl⟩
      | rejected hreach hfits => exact absurd (hharmless hreach).1 hfits
      | exhausted _ hstream hlimit =>
          have := (hharmless (.inl hstream)).2 hstream
          omega
  obtain ⟨r₂, hr₂, hhits₂⟩ := scan_of_parts hadm hmax₂ hparts
  refine ⟨r₂, hr₂, ?_⟩
  intro hit hmem
  rw [hits_of_scan hmax₁ hscan] at hmem
  obtain ⟨c, hc, hin⟩ := List.mem_flatMap.mp hmem
  rw [hhits₂]
  exact List.mem_flatMap.mpr ⟨c, hsub c hc, hin⟩

theorem scan_more_ciphers_sample :
    KeepsHits sampleCrates sampleKey sampleCiphertext [jsonOracle] sampleConfig [.aes128]
      [.sm4, .aes128] :=
  scan_more_ciphers _ _ _ _ _ _ _ rfl (by decide) (by decide) (by decide)

def fixedIvConfig : ScanConfig :=
  { sampleConfig with fixedIv := some (List.replicate 16 0) }

/-- Next to AES-128, DES rejects the IV of 16 bytes, and the hit of AES-128 is lost with it. -/
theorem scan_more_ciphers_loses_hit :
    validateConfig { fixedIvConfig with ciphers := [.aes128] } = .ok () ∧
    validateConfig { fixedIvConfig with ciphers := [.aes128, .des] } = .ok () ∧
    ¬ KeepsHits sampleCrates sampleKey sampleCiphertext [jsonOracle] fixedIvConfig [.aes128]
      [.aes128, .des] := by
  refine ⟨by decide, by decide, ?_⟩
  intro h
  have hfirst : scan sampleCrates sampleKey sampleCiphertext [jsonOracle]
      { fixedIvConfig with ciphers := [.aes128] } =
      .ok sampleResult := by decide +kernel
  obtain ⟨r₂, hr₂, _⟩ := h _ hfirst
  have hcode : exitCode (scan sampleCrates sampleKey sampleCiphertext [jsonOracle]
      { fixedIvConfig with ciphers := [.aes128, .des] }) = 2 := by decide +kernel
  rw [hr₂, exitCode] at hcode
  split at hcode <;> cases hcode

end Memhunt
