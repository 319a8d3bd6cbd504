import Memhunt.Scan.Completeness
import Memhunt.Scan.IvRanking

/-! A known fragment in the blocks behind the first one: every part of the dump is then an IV that
the oracles accept. -/
namespace Memhunt
open Rust
open Bytes (slice)

section Request
variable (cipher : BlockCipher) (key ciphertext : Bytes)

/-- The decrypted blocks 1 and 2, which need no IV. -/
def decryptedTail : Bytes :=
  ((Modes.cbcTail (cipher.decryption key) Bytes.xor
    (Bytes.chunksExact cipher.blockLen ciphertext)).take 2).flatten

/-- The best IV candidate is what the hit names as its IV and decrypts the first block with, and
there are as many as can be. -/
def RecoversIv (dump : Bytes) (h : Hit) : Prop :=
  h.ivCandidates.length = min 8 (dump.length - cipher.blockLen + 1) ∧
  ∃ best rest, h.ivCandidates = best :: rest ∧ h.ivHex = some best.ivHex ∧
    h.ivOffset = some best.ivOffset ∧ best.ivOffset + cipher.blockLen ≤ dump.length ∧
    best.ivHex = Hex.encode (slice dump best.ivOffset cipher.blockLen) ∧
    h.Reports (Modes.cbcDecrypt (cipher.decryption key) Bytes.xor
      (slice dump best.ivOffset cipher.blockLen)
      (Bytes.chunksExact cipher.blockLen ciphertext)).flatten

end Request

theorem knownPlaintextOracle_verify {fragment text : Bytes} (hne : fragment ≠ [])
    (h : fragment <:+: text) : (knownPlaintextOracle fragment).verify text = true := by
  obtain ⟨before, after, htext⟩ := h
  have hpos := List.length_pos_iff.mpr hne
  have hsize : max fragment.length 1 = fragment.length := by omega
  have hlen := congrArg List.length htext
  simp only [List.length_append] at hlen
  have hslice : slice text before.length fragment.length = fragment := by
    rw [slice, ← htext, List.append_assoc, List.drop_left, List.take_left]
  simp only [knownPlaintextOracle, hsize, Windows.windows, List.any_map, List.any_eq_true,
    List.mem_range, Function.comp_apply, beq_iff_eq]
  exact ⟨before.length, by omega, hslice⟩

section Candidates
variable {dump dec0 tail fragment : Bytes} {block : Nat} {oracles : List Oracle}

theorem plausibleAt_of_known (hknown : knownPlaintextOracle fragment ∈ oracles)
    (hne : fragment ≠ []) (hoccurs : fragment <:+: tail) {o : Nat} :
    PlausibleAt dump dec0 tail block oracles o ↔ o + block ≤ dump.length :=
  and_iff_left ⟨_, hknown, knownPlaintextOracle_verify hne
    (hoccurs.trans (List.suffix_append _ tail).isInfix)⟩

theorem ncard_inside {n : Nat} (h : block ≤ n) : {o | o + block ≤ n}.ncard = n - block + 1 := by
  have hset : {o | o + block ≤ n} = ↑(Finset.range (n - block + 1)) := by
    ext o
    simp only [Set.mem_ofPred_eq, Finset.coe_range, Set.mem_Iio]
    omega
  rw [hset, Set.ncard_coe_finset, Finset.card_range]

/-- With the fragment in the tail every offset of the dump is a candidate. -/
theorem length_ivHits_of_known (hknown : knownPlaintextOracle fragment ∈ oracles)
    (hne : fragment ≠ []) (hoccurs : fragment <:+: tail) (hdec : dec0.length = block)
    (hdump : block ≤ dump.length) :
    (ivHits dump dec0 tail block oracles).length = min 8 (dump.length - block + 1) := by
  have htop := topEight_ivHits dump dec0 tail block oracles
  rw [List.take_of_length_le hdec.le] at htop
  have hall : {o | PlausibleAt dump dec0 tail block oracles o} = {o | o + block ≤ dump.length} :=
    Set.ext fun o => plausibleAt_of_known hknown hne hoccurs
  rw [htop.count, hall, ncard_inside hdump]

end Candidates

theorem BlockRequest.cbcHit_recoversIv {cipher : BlockCipher} {key ciphertext dump : Bytes}
    {oracles : List Oracle} {config : ScanConfig} (R : BlockRequest cipher.blockLen)
    (hblocks : R.blocks = Bytes.chunksExact cipher.blockLen ciphertext) (hfixed : R.fixedIv = none)
    (hscanIv : config.scanIv = true) (hdump : cipher.blockLen ≤ dump.length)
    (hcount : (ivHits dump (cipher.decryption key R.first) (decryptedTail cipher key ciphertext)
      cipher.blockLen oracles).length = min 8 (dump.length - cipher.blockLen + 1))
    (algo : String) (offset : Nat) (name : String) (conf : Confidence) :
    RecoversIv cipher key ciphertext dump
      (R.cbcHit (cipher.decryption key) dump oracles config algo (key, offset) name conf) := by
  have htail : ((R.cbcTail (cipher.decryption key)).take verifyBlocks).flatten =
      decryptedTail cipher key ciphertext := by
    rw [BlockRequest.cbcTail, hblocks]
    rfl
  have hblock0 : R.block0 (cipher.decryption key) dump oracles config =
      .scanned cipher.blockLen (ivHits dump (cipher.decryption key R.first)
        (decryptedTail cipher key ciphertext) cipher.blockLen oracles) := by
    simp only [BlockRequest.block0, hfixed, hscanIv, hdump, htail, decide_true, Bool.and_self,
      if_true]
  obtain ⟨best, rest, hhits⟩ := List.exists_cons_of_length_pos (l := ivHits dump
    (cipher.decryption key R.first) (decryptedTail cipher key ciphertext) cipher.blockLen oracles)
    (by omega)
  obtain ⟨⟨hinside, hiv⟩, hfirst⟩ := mem_ivHits (hhits ▸ List.mem_cons_self : best ∈ _)
  rw [hhits] at hcount hblock0
  obtain ⟨b, bs, hcons⟩ := List.exists_cons_of_ne_nil R.nonempty
  have htext : (Modes.cbcDecrypt (cipher.decryption key) Bytes.xor
      (slice dump best.offset cipher.blockLen) R.blocks).flatten =
      best.first ++ (R.cbcTail (cipher.decryption key)).flatten := by
    rw [hfirst, hiv, BlockRequest.first, BlockRequest.cbcTail, hcons]
    rfl
  rw [RecoversIv, ← hblocks]
  simp only [BlockRequest.cbcHit, hblock0, Block0.scanned, blockHit, List.length_map]
  refine ⟨hcount, best.candidate, rest.map IvHit.candidate, rfl, rfl, rfl, hinside, ?_, ?_⟩
  · exact congrArg Hex.encode hiv
  · rw [show best.candidate.ivOffset = best.offset from rfl, htext]
    exact ⟨rfl, rfl, rfl⟩

/-- A CBC hit on a window whose blocks 1 and 2 hold a known fragment recovers the IV as far as the
dump can tell: as many candidates as are kept, and a first block decrypted with the best one. -/
theorem known_fragment_recovers_iv (crates : Crates) (dump ciphertext : Bytes)
    (oracles : List Oracle) (config : ScanConfig) (c : CipherChoice) (cipher : BlockCipher) (o : Nat)
    (hplanted : Planted crates dump config c cipher o) (hdump : cipher.blockLen ≤ dump.length)
    (hmode : config.mode = .block) (hscanIv : config.scanIv = true)
    (hnoIv : config.fixedIv = none) (hmax : config.maxHits = 0)
    (fragment : Bytes) (hknown : knownPlaintextOracle fragment ∈ oracles) (hne : fragment ≠ [])
    (hoccurs : fragment <:+: decryptedTail cipher (slice dump o cipher.keyLen) ciphertext)
    (r : ScanResult) (hscan : scan crates dump ciphertext oracles config = .ok r) (h : Hit)
    (hmem : h ∈ r.hits) (halgo : h.algo = c.label) (hoffset : h.keyOffset = o)
    (hcbc : h.mode = .cbc) :
    RecoversIv cipher (slice dump o cipher.keyLen) ciphertext dump h := by
  have hblock := (CipherChoice.lengths_of_adapter hplanted.adapter).2
  obtain ⟨R, hR, hblocks, hfixed⟩ := BlockRequest.of_fits (hplanted.fits hmax hscan)
    (CipherChoice.not_stream_of_adapter hplanted.adapter) hmode hblock hplanted.lawful.blockPos
  obtain ⟨_, hwindow, rfl⟩ := (hplanted.hits_at hmax hscan (· = h)).mp
    ⟨h, hmem, halgo, hoffset, rfl⟩
  rw [windowHit_block hplanted.adapter hmode hR, blockWindow, Option.or_eq_some_iff] at hwindow
  rcases hwindow with hecb | ⟨_, hcbcHit⟩
  · obtain ⟨name, conf, _, rfl⟩ := judge_eq_some.mp hecb
    cases hcbc
  · obtain ⟨head, _, hjudge⟩ := Option.bind_eq_some_iff.mp hcbcHit
    obtain ⟨name, conf, _, rfl⟩ := judge_eq_some.mp hjudge
    have hfirst := length_decryption hplanted.lawful hplanted.length_key R.length_first
    exact R.cbcHit_recoversIv hblocks (hfixed.trans hnoIv) hscanIv hdump
      (length_ivHits_of_known hknown hne hoccurs hfirst hdump) c.label o name conf

def roleCiphertext : Bytes := (cbcBlocks (aes128 cbcCrates) sampleKey 0 zeroIv sampleBlocks).flatten

theorem known_fragment_recovers_iv_sample :
    ∃ r, scan cbcCrates sampleKey roleCiphertext [knownPlaintextOracle (ascii "role")]
        sampleConfig = .ok r ∧
      ∃ h ∈ r.hits, RecoversIv (aes128 cbcCrates) sampleKey roleCiphertext sampleKey h := by
  have hhits : (scan cbcCrates sampleKey roleCiphertext [knownPlaintextOracle (ascii "role")]
      sampleConfig).map (fun r => r.hits.map fun h => (h.algo, h.keyOffset, h.mode)) =
      .ok [("aes-128", 0, .cbc)] := by decide +kernel
  have hoccurs : ascii "role" <:+:
      decryptedTail (aes128 cbcCrates) (slice sampleKey 0 16) roleCiphertext :=
    ⟨ascii "\"", ascii "\":\"admin\" \x7d", by decide +kernel⟩
  obtain ⟨r, hr, h, hmem, hfields⟩ := exists_hit_of_hits hhits (List.mem_singleton_self _)
  rw [Prod.mk.injEq, Prod.mk.injEq] at hfields
  exact ⟨r, hr, h, hmem, known_fragment_recovers_iv cbcCrates sampleKey roleCiphertext _
    sampleConfig .aes128 (aes128 cbcCrates) 0 ⟨by decide, rfl, by decide⟩ (by decide) rfl rfl rfl rfl
    _ (List.mem_singleton_self _) (by decide) hoccurs r hr h hmem hfields.1
    hfields.2.1 hfields.2.2⟩

/-- The empty fragment occurs anywhere, but its oracle accepts nothing: a CBC hit that another
oracle took has no candidate. -/
theorem empty_fragment_recovers_nothing :
    Planted cbcCrates sampleKey sampleConfig .aes128 (aes128 cbcCrates) 0 ∧
    [] <:+: decryptedTail (aes128 cbcCrates) sampleKey roleCiphertext ∧
    ∃ r, scan cbcCrates sampleKey roleCiphertext [utf8Oracle, knownPlaintextOracle []]
        sampleConfig = .ok r ∧
      ∃ h ∈ r.hits, h.algo = "aes-128" ∧ h.keyOffset = 0 ∧ h.mode = .cbc ∧ h.ivCandidates = [] ∧
        ¬ RecoversIv (aes128 cbcCrates) sampleKey roleCiphertext sampleKey h := by
  refine ⟨⟨by decide, rfl, by decide⟩, List.nil_infix, ?_⟩
  have hhits : (scan cbcCrates sampleKey roleCiphertext [utf8Oracle, knownPlaintextOracle []]
      sampleConfig).map (fun r => r.hits.map fun h =>
        (h.algo, h.keyOffset, h.mode, h.ivCandidates.length)) =
      .ok [("aes-128", 0, .cbc, 0)] := by decide +kernel
  obtain ⟨r, hr, h, hmem, hfields⟩ := exists_hit_of_hits hhits (List.mem_singleton_self _)
  simp only [Prod.mk.injEq] at hfields
  obtain ⟨halgo, hoffset, hmode, hcands⟩ := hfields
  rw [List.length_eq_zero_iff] at hcands
  refine ⟨r, hr, h, hmem, halgo, hoffset, hmode, hcands, ?_⟩
  rintro ⟨_, best, rest, hsome, _⟩
  rw [hcands] at hsome
  cases hsome

end Memhunt
