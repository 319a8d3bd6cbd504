import Memhunt.Spec.Scan
import Memhunt.Spec.Vectors

/-! Keys planted in a dump: what a block-mode scan reports at their offset. -/
namespace Memhunt
open Rust

/-- The scan succeeds and one of its hits is as described. -/
def Finds (out : Run ScanResult) (p : Hit → Prop) : Prop :=
  ∃ r, out = .ok r ∧ ∃ h ∈ r.hits, p h

/-- A key of a listed block cipher stands at offset `o` of the dump. -/
structure Planted (crates : Crates) (dump : Bytes) (config : ScanConfig) (c : CipherChoice)
    (cipher : BlockCipher) (o : Nat) : Prop where
  listed : c ∈ config.ciphers
  adapter : c.adapter crates = .ok cipher
  inside : o + cipher.keyLen ≤ dump.length

/-- An accepted request without limit that no other listed cipher turns down. -/
structure Unhindered (dump ciphertext : Bytes) (config : ScanConfig) (c : CipherChoice) : Prop where
  valid : validateConfig config = .ok ()
  unlimited : config.maxHits = 0
  others : ∀ d ∈ config.ciphers, d ≠ c → Reaches dump d → Fits ciphertext config d

theorem not_finds_of_hits {α : Type} {out : Run ScanResult} {f : Hit → α} {xs : List α}
    {p : Hit → Prop} (hout : out.map (fun r => r.hits.map f) = .ok xs)
    (hnone : ∀ h, f h ∈ xs → ¬ p h) : ¬ Finds out p := by
  rintro ⟨r, rfl, h, hmem, hp⟩
  have hxs : r.hits.map f = xs := Except.ok.inj hout
  exact hnone h (hxs ▸ List.mem_map_of_mem hmem) hp

theorem exists_hit_of_hits {α : Type} {out : Run ScanResult} {f : Hit → α} {x : α} {xs : List α}
    (hout : out.map (fun r => r.hits.map f) = .ok xs) (hx : x ∈ xs) :
    ∃ r, out = .ok r ∧ ∃ h ∈ r.hits, f h = x := by
  cases out with
  | error s => cases hout
  | ok r =>
      have hxs : r.hits.map f = xs := Except.ok.inj hout
      rw [← hxs, List.mem_map] at hx
      exact ⟨r, rfl, hx⟩

theorem masking_xor (n : Nat) : Modes.Masking (fun b : Bytes => b.length = n) Bytes.xor where
  closed ha hb := by rw [Bytes.length_xor, ha, hb, Nat.min_self]
  cancel ha hb := Bytes.xor_cancel (ha.trans hb.symm)

section Planted
variable {crates : Crates} {dump ciphertext : Bytes} {oracles : List Oracle} {config : ScanConfig}
  {c : CipherChoice} {cipher : BlockCipher} {o : Nat}

theorem Planted.lawful (hp : Planted crates dump config c cipher o) : cipher.Lawful :=
  CipherChoice.adapter_lawful hp.adapter

theorem Planted.length_key (hp : Planted crates dump config c cipher o) :
    (Bytes.slice dump o cipher.keyLen).length = cipher.keyLen := Bytes.length_slice hp.inside

theorem Planted.inverse (hp : Planted crates dump config c cipher o) :
    Modes.Inverse (fun b : Bytes => b.length = cipher.blockLen)
      (cipher.encryption (Bytes.slice dump o cipher.keyLen))
      (cipher.decryption (Bytes.slice dump o cipher.keyLen)) where
  maps hb := (hp.lawful.encrypts hp.length_key hb).2
  left hb := hp.lawful.decrypt_encrypt hp.length_key hb

theorem Planted.fits (hp : Planted crates dump config c cipher o) {r : ScanResult}
    (hmax : config.maxHits = 0) (hscan : scan crates dump ciphertext oracles config = .ok r) :
    Fits ciphertext config c := by
  have hkey := (CipherChoice.lengths_of_adapter hp.adapter).1
  have hinside := hp.inside
  have hreach : Reaches dump c := .inr (by omega)
  obtain ⟨part, hpart⟩ := parts_of_scan hmax hscan c hp.listed
  have hout := @cipherPart_outcome crates dump ciphertext oracles config
    (admitted_of_scan hscan).valid c hp.listed
  rw [hpart] at hout
  cases hout with
  | skipped hskip => exact absurd hreach hskip
  | found _ hfits => exact hfits

theorem Planted.hits_at (hp : Planted crates dump config c cipher o) {r : ScanResult}
    (hmax : config.maxHits = 0) (hscan : scan crates dump ciphertext oracles config = .ok r)
    (p : Hit → Prop) :
    (∃ h ∈ r.hits, h.algo = c.label ∧ h.keyOffset = o ∧ p h) ↔
      ∃ h, windowHit crates dump ciphertext oracles config c
        (Bytes.slice dump o cipher.keyLen, o) = some h ∧ p h := by
  have hkey := (CipherChoice.lengths_of_adapter hp.adapter).1
  rw [hits_of_scan hmax hscan]
  constructor
  · rintro ⟨h, hmem, halgo, hoffset, hph⟩
    obtain ⟨d, _, hd⟩ := List.mem_flatMap.mp hmem
    obtain rfl : d = c := CipherChoice.label_inj ((algo_of_mem_cipherHits hd).symm.trans halgo)
    obtain ⟨q, _, hq⟩ := Windows.mem_search.mp hd
    obtain rfl : q = o := (foundAt_windowHit hq).offset.symm.trans hoffset
    exact ⟨h, hkey ▸ hq, hph⟩
  · rintro ⟨h, hw, hph⟩
    have hfound := foundAt_windowHit hw
    refine ⟨h, List.mem_flatMap.mpr ⟨c, hp.listed, ?_⟩, hfound.algo, hfound.offset, hph⟩
    exact Windows.mem_search.mpr ⟨o, hkey ▸ hp.inside, hkey ▸ hw⟩

theorem Planted.windowHit_blocks (hp : Planted crates dump config c cipher o)
    (hmode : config.mode = .block) {cs : List Bytes} (hne : cs ≠ [])
    (hwhole : ∀ b ∈ cs, b.length = cipher.blockLen)
    (hiv : ∀ iv ∈ config.fixedIv, iv.length = cipher.blockLen) :
    Fits cs.flatten config c ∧
      ∃ R : BlockRequest cipher.blockLen, R.blocks = cs ∧ R.fixedIv = config.fixedIv ∧
        windowHit crates dump cs.flatten oracles config c =
          blockWindow R cipher dump oracles config c.label := by
  have hblock := (CipherChoice.lengths_of_adapter hp.adapter).2
  have hlen := Bytes.length_flatten_of_forall hwhole
  have hflat : cs.flatten ≠ [] := by
    obtain ⟨b, bs, rfl⟩ := List.exists_cons_of_ne_nil hne
    have hb := hwhole b List.mem_cons_self
    have hpos := hp.lawful.blockPos
    intro he
    rw [List.flatten_cons, List.append_eq_nil_iff] at he
    rw [he.1, List.length_nil] at hb
    omega
  have hfits : Fits cs.flatten config c :=
    ⟨hflat, fun _ _ => ⟨⟨cs.length, by rw [hlen, hblock, Nat.mul_comm]⟩, hblock ▸ hiv⟩⟩
  obtain ⟨R, hR, hblocks, hfixed⟩ := BlockRequest.of_fits hfits
    (CipherChoice.not_stream_of_adapter hp.adapter) hmode hblock hp.lawful.blockPos
  refine ⟨hfits, R, ?_, hfixed, windowHit_block hp.adapter hmode hR⟩
  rw [hblocks, Bytes.chunksExact_flatten hp.lawful.blockPos hwhole]

theorem Planted.scan_ok (hp : Planted crates dump config c cipher o)
    (hfree : Unhindered dump ciphertext config c) (hfits : Fits ciphertext config c)
    (horacles : oracles ≠ []) : ∃ r, scan crates dump ciphertext oracles config = .ok r := by
  have hadm : Admitted oracles config := ⟨hfree.valid, fun h => horacles h.2⟩
  have hparts : ∀ d ∈ config.ciphers,
      ∃ part, cipherPart crates dump ciphertext oracles config d = .ok part := by
    intro d hd
    have hout := @cipherPart_outcome crates dump ciphertext oracles config hadm.valid d hd
    generalize cipherPart crates dump ciphertext oracles config d = part at hout
    cases hout with
    | skipped => exact ⟨_, rfl⟩
    | found => exact ⟨_, rfl⟩
    | rejected hreach hunfit =>
        by_cases hdc : d = c
        · exact absurd (hdc ▸ hfits) hunfit
        · exact absurd (hfree.others d hd hdc hreach) hunfit
    | exhausted _ hstream =>
        rw [hadm.valid.same_kind hd hp.listed,
          CipherChoice.not_stream_of_adapter hp.adapter] at hstream
        cases hstream
  obtain ⟨r, hr, _⟩ := scan_of_parts hadm hfree.unlimited hparts
  exact ⟨r, hr⟩

/-- What an unhindered block-mode scan finds at the offset is the verdict on its window. -/
theorem Planted.finds_iff (hp : Planted crates dump config c cipher o)
    (hmode : config.mode = .block) {cs : List Bytes} (hne : cs ≠ [])
    (hwhole : ∀ b ∈ cs, b.length = cipher.blockLen)
    (hiv : ∀ iv ∈ config.fixedIv, iv.length = cipher.blockLen)
    (hfree : Unhindered dump cs.flatten config c) (horacles : oracles ≠ []) :
    ∃ R : BlockRequest cipher.blockLen, R.blocks = cs ∧ R.fixedIv = config.fixedIv ∧
      ∀ p : Hit → Prop, Finds (scan crates dump cs.flatten oracles config)
          (fun h => h.algo = c.label ∧ h.keyOffset = o ∧ p h) ↔
        ∃ h, blockWindow R cipher dump oracles config c.label
          (Bytes.slice dump o cipher.keyLen, o) = some h ∧ p h := by
  obtain ⟨hfits, R, hblocks, hfixed, hwindow⟩ :=
    @Planted.windowHit_blocks crates dump oracles config c cipher o hp hmode cs hne hwhole hiv
  obtain ⟨r, hr⟩ := hp.scan_ok hfree hfits horacles
  refine ⟨R, hblocks, hfixed, fun p => ?_⟩
  rw [← hwindow, ← hp.hits_at hfree.unlimited hr p]
  constructor
  · rintro ⟨r', hr', hfound⟩
    obtain rfl : r = r' := Except.ok.inj (hr.symm.trans hr')
    exact hfound
  · exact fun hfound => ⟨r, hr, hfound⟩

end Planted

end Memhunt
