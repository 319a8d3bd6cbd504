import Memhunt.Lib.Ranking
import Memhunt.Scan.Completeness
import Memhunt.Scan.IvRanking

/-! CBC messages whose key and IV are both in the dump: when the IV is among the candidates, and
when the whole message comes back. -/
namespace Memhunt
open Rust

section Ranks
variable {dump dec0 tail : Bytes} {block : Nat} {oracles : List Oracle}

/-- The windows of the dump that rank before this one as an IV. -/
def Ahead (dump dec0 tail : Bytes) (block : Nat) (oracles : List Oracle) (x : IvHit) :
    Set IvHit :=
  {y | IvEntry dump dec0 tail block oracles y ∧ y.RanksBefore x}

theorem IvHit.RanksBefore.asymm (x y : IvHit) (h : x.RanksBefore y) : ¬ y.RanksBefore x := by
  unfold IvHit.RanksBefore at *
  omega

/-- Everything the ranking orders, before the best eight are kept. -/
def rankedHits (dump dec0 tail : Bytes) (block : Nat) (oracles : List Oracle) : List IvHit :=
  (ranked dump dec0 tail block oracles).map IvRawCandidate.hit

theorem rankedHits_sorted :
    (rankedHits dump dec0 tail block oracles).Pairwise IvHit.RanksBefore :=
  List.pairwise_map.mpr ranked_pairwise

theorem mem_rankedHits {x : IvHit} :
    x ∈ rankedHits dump dec0 tail block oracles ↔ IvEntry dump dec0 tail block oracles x := by
  rw [rankedHits, List.mem_map]
  constructor
  · rintro ⟨c, hc, rfl⟩
    exact (mem_ranked.mp hc).1
  · intro hx
    let c : IvRawCandidate :=
      { offset := x.offset, iv := x.iv, b0 := x.first, name := x.name, confidence := x.confidence,
        plaus := plausibility x.first }
    exact ⟨c, mem_ranked.mpr ⟨hx, rfl⟩, rfl⟩

theorem ivHits_eq_take (hdec : dec0.length = block) :
    ivHits dump dec0 tail block oracles = (rankedHits dump dec0 tail block oracles).take 8 := by
  have htake : dec0.take block = dec0 := List.take_of_length_le hdec.le
  rw [rankedHits, ← List.map_take, ranked, rawCandidates, htake]
  rfl

theorem mem_ivHits_iff (hdec : dec0.length = block) {x : IvHit} :
    x ∈ ivHits dump dec0 tail block oracles ↔
      IvEntry dump dec0 tail block oracles x ∧ (Ahead dump dec0 tail block oracles x).ncard < 8 := by
  rw [ivHits_eq_take hdec]
  have hahead : Ahead dump dec0 tail block oracles x =
      {y | y ∈ rankedHits dump dec0 tail block oracles ∧ y.RanksBefore x} :=
    Set.ext fun y => and_congr_left' mem_rankedHits.symm
  rw [hahead, ← mem_rankedHits]
  constructor
  · intro h
    have hmem := List.mem_of_mem_take h
    exact ⟨hmem, (Ranking.mem_take_iff IvHit.RanksBefore.asymm rankedHits_sorted hmem 8).mp h⟩
  · rintro ⟨hmem, hfew⟩
    exact (Ranking.mem_take_iff IvHit.RanksBefore.asymm rankedHits_sorted hmem 8).mpr hfew

theorem head_ivHits_iff (hdec : dec0.length = block) {x : IvHit} :
    (ivHits dump dec0 tail block oracles).head? = some x ↔
      IvEntry dump dec0 tail block oracles x ∧ Ahead dump dec0 tail block oracles x = ∅ := by
  rw [ivHits_eq_take hdec, List.head?_take, if_neg (by decide),
    Ranking.head?_eq_some_iff IvHit.RanksBefore.asymm rankedHits_sorted, mem_rankedHits,
    Set.eq_empty_iff_forall_notMem]
  refine and_congr_right fun _ => forall_congr' fun y => ?_
  rw [mem_rankedHits]
  exact not_and.symm

end Ranks

section Window
variable {dump : Bytes} {oracles : List Oracle} {config : ScanConfig} {cipher : BlockCipher}
  {algo : String} {w : Bytes × Nat} (R : BlockRequest cipher.blockLen)

theorem blockWindow_cbc_iff (htwo : 2 ≤ R.blocks.length) (p : Hit → Prop) :
    (∃ h, blockWindow R cipher dump oracles config algo w = some h ∧ h.mode = .cbc ∧ p h) ↔
      ¬ Accepts oracles (R.ecbHead (cipher.decryption w.1)) ∧
      ∃ name conf, bestMatch oracles ((R.cbcTail (cipher.decryption w.1)).take 2).flatten =
          some (name, conf) ∧
        p (R.cbcHit (cipher.decryption w.1) dump oracles config algo w name conf) := by
  by_cases hecb : Accepts oracles (R.ecbHead (cipher.decryption w.1))
  · simp only [hecb, not_true_eq_false, false_and, iff_false]
    rintro ⟨h, hh, hmode, _⟩
    obtain ⟨name, conf, hhit⟩ := @blockWindow_ecb dump oracles config cipher algo w R hecb
    obtain rfl := Option.some.inj (hhit.symm.trans hh)
    cases hmode
  · rw [blockWindow_cbc R hecb, cbcHead_many R _ htwo, Option.bind_some, and_iff_right hecb]
    constructor
    · rintro ⟨h, hh, _, hp⟩
      obtain ⟨name, conf, hbest, rfl⟩ := judge_eq_some.mp hh
      exact ⟨name, conf, hbest, hp⟩
    · rintro ⟨name, conf, hbest, hp⟩
      exact ⟨_, judge_eq_some.mpr ⟨name, conf, hbest, rfl⟩, rfl, hp⟩

variable {R}

theorem block0_searched {D : Bytes → Bytes} (hfixed : R.fixedIv = none)
    (hscanIv : config.scanIv = true) (hdump : cipher.blockLen ≤ dump.length) :
    R.block0 D dump oracles config = .scanned cipher.blockLen
      (ivHits dump (D R.first) ((R.cbcTail D).take 2).flatten cipher.blockLen oracles) := by
  simp only [BlockRequest.block0, hfixed, hscanIv, hdump, decide_true, Bool.and_self, if_true]
  rfl

end Window

theorem scanned_candidates (block : Nat) (cands : List IvHit) :
    (Block0.scanned block cands).ivCandidates = cands.map IvHit.candidate := by
  cases cands with
  | nil => rfl
  | cons best rest => rfl

theorem scanned_named_iff {block : Nat} {cands : List IvHit} {iv : Bytes} :
    (Block0.scanned block cands).ivHex = some (Hex.encode iv) ↔
      ∃ x, cands.head? = some x ∧ x.iv = iv := by
  cases cands with
  | nil => simp [Block0.scanned, Block0.unknown]
  | cons best rest =>
      simp [Block0.scanned, Hex.encode_inj]

theorem CipherChoice.blockLen_le_keyLen (c : CipherChoice) : c.blockLen ≤ c.keyLen := by
  cases c <;> simp [blockLen, keyLen]

section Message
variable {crates : Crates} {dump : Bytes} {oracles : List Oracle} {config : ScanConfig}
  {c : CipherChoice} {cipher : BlockCipher} {o : Nat} {iv : Bytes} {ps : List Bytes}

/-- An occurrence of the IV in the dump that the oracles find plausible for the message. -/
structure IvSeen (dump : Bytes) (oracles : List Oracle) (block : Nat) (iv : Bytes)
    (ps : List Bytes) (x : IvHit) : Prop where
  entry : IvEntry dump (Bytes.xor (ps.headD []) iv) ((ps.drop 1).take 2).flatten block oracles x
  holds : x.iv = iv

/-- What the ranking puts before it. -/
def rivals (dump : Bytes) (oracles : List Oracle) (block : Nat) (iv : Bytes) (ps : List Bytes)
    (x : IvHit) : Set IvHit :=
  Ahead dump (Bytes.xor (ps.headD []) iv) ((ps.drop 1).take 2).flatten block oracles x

/-- No oracle takes the ECB reading, and one accepts the blocks that need no IV. -/
def ReadAsCbc (cipher : BlockCipher) (dump : Bytes) (oracles : List Oracle) (o : Nat) (iv : Bytes)
    (ps : List Bytes) : Prop :=
  ¬ Accepts oracles ((ecbReading cipher dump o iv ps).take 2).flatten ∧
    Accepts oracles ((ps.drop 1).take 2).flatten

theorem Planted.decryption_first (hp : Planted crates dump config c cipher o)
    (hiv : iv.length = cipher.blockLen) (hps : ∀ p ∈ ps, p.length = cipher.blockLen)
    (hne : ps ≠ []) {R : BlockRequest cipher.blockLen} (hR : R.blocks = cbcBlocks cipher dump o iv ps) :
    cipher.decryption (Bytes.slice dump o cipher.keyLen) R.first = Bytes.xor (ps.headD []) iv := by
  have hread := (hp.cbc_readings hiv hps hR).1
  obtain ⟨b, bs, hb⟩ := List.exists_cons_of_ne_nil R.nonempty
  obtain ⟨p, rest, rfl⟩ := List.exists_cons_of_ne_nil hne
  rw [hb, ecbReading, List.zipWith_cons_cons] at hread
  rw [BlockRequest.first, hb]
  exact (List.cons.inj hread).1

theorem length_masked (hlen : (ps.headD []).length = iv.length) :
    (Bytes.xor (ps.headD []) iv).length = iv.length := by
  rw [Bytes.length_xor, hlen, Nat.min_self]

theorem IvSeen.first {x : IvHit} (h : IvSeen dump oracles iv.length iv ps x)
    (hlen : (ps.headD []).length = iv.length) : x.first = ps.headD [] := by
  rw [h.entry.first, h.holds, List.take_of_length_le (length_masked hlen).le,
    Bytes.xor_cancel hlen]

/-- What the search makes of block 0 of the message. -/
def searchedBlock0 (dump : Bytes) (oracles : List Oracle) (block : Nat) (iv : Bytes)
    (ps : List Bytes) : Block0 :=
  .scanned block (ivHits dump (Bytes.xor (ps.headD []) iv) ((ps.drop 1).take 2).flatten block
    oracles)

def messageHit (dump : Bytes) (oracles : List Oracle) (algo : String) (block : Nat)
    (w : Bytes × Nat) (iv : Bytes) (ps : List Bytes) (name : String) (conf : Confidence) : Hit :=
  let b0 := searchedBlock0 dump oracles block iv ps
  blockHit algo .cbc w.1 w.2 b0.ivHex b0.ivOffset b0.ivCandidates
    (b0.headBlock ++ (ps.drop 1).flatten) name conf

/-- The hit is read off the search for the IV, and does not depend on the oracle it goes to. -/
theorem Planted.searched_iff (hp : Planted crates dump config c cipher o)
    (hdump : cipher.blockLen ≤ dump.length) (hscanIv : config.scanIv = true)
    (hiv : iv.length = cipher.blockLen) (hps : ∀ p ∈ ps, p.length = cipher.blockLen)
    (htwo : 2 ≤ ps.length) {R : BlockRequest cipher.blockLen}
    (hR : R.blocks = cbcBlocks cipher dump o iv ps) (hfixed : R.fixedIv = none) {p : Hit → Prop}
    {q : Prop} (hpq : ∀ name conf, p (messageHit dump oracles c.label cipher.blockLen
      (Bytes.slice dump o cipher.keyLen, o) iv ps name conf) ↔ q) :
    (∃ h, blockWindow R cipher dump oracles config c.label
        (Bytes.slice dump o cipher.keyLen, o) = some h ∧ h.mode = .cbc ∧ p h) ↔
      ReadAsCbc cipher dump oracles o iv ps ∧ q := by
  have hne : ps ≠ [] := List.ne_nil_of_length_pos (by omega)
  have hblocks : R.blocks.length = ps.length := by
    rw [hR]
    exact Modes.length_cbcEncrypt iv ps
  obtain ⟨hecb, htail⟩ := hp.cbc_readings hiv hps hR
  have hhead : R.ecbHead (cipher.decryption (Bytes.slice dump o cipher.keyLen)) =
      ((ecbReading cipher dump o iv ps).take 2).flatten := by
    rw [BlockRequest.ecbHead, hecb]
    rfl
  have hhit : ∀ name conf, R.cbcHit (cipher.decryption (Bytes.slice dump o cipher.keyLen)) dump
      oracles config c.label (Bytes.slice dump o cipher.keyLen, o) name conf =
      messageHit dump oracles c.label cipher.blockLen (Bytes.slice dump o cipher.keyLen, o) iv ps
        name conf := by
    intro name conf
    rw [BlockRequest.cbcHit, block0_searched hfixed hscanIv hdump, htail,
      hp.decryption_first hiv hps hne hR]
    rfl
  rw [blockWindow_cbc_iff R (by omega), hhead, htail, ReadAsCbc, and_assoc]
  refine and_congr_right fun _ => ?_
  constructor
  · rintro ⟨name, conf, hbest, hfound⟩
    rw [hhit, hpq] at hfound
    exact ⟨accepts_iff_bestMatch.mpr ⟨name, conf, hbest⟩, hfound⟩
  · rintro ⟨hacc, hq⟩
    obtain ⟨name, conf, hbest⟩ := accepts_iff_bestMatch.mp hacc
    refine ⟨name, conf, hbest, ?_⟩
    rw [hhit]
    exact (hpq name conf).mpr hq

theorem messageHit_candidates_iff (hlen : (ps.headD []).length = iv.length) {algo : String}
    {w : Bytes × Nat} {name : String} {conf : Confidence} :
    (∃ cand ∈ (messageHit dump oracles algo iv.length w iv ps name conf).ivCandidates,
        cand.ivHex = Hex.encode iv ∧ cand.block0Hex = Hex.encode (ps.headD [])) ↔
      ∃ x, IvSeen dump oracles iv.length iv ps x ∧
        (rivals dump oracles iv.length iv ps x).ncard < 8 := by
  have hdec := length_masked hlen
  have hcands : (messageHit dump oracles algo iv.length w iv ps name conf).ivCandidates =
      (ivHits dump (Bytes.xor (ps.headD []) iv) ((ps.drop 1).take 2).flatten iv.length
        oracles).map IvHit.candidate := scanned_candidates _ _
  rw [hcands]
  constructor
  · rintro ⟨cand, hcand, hhex, _⟩
    obtain ⟨x, hx, rfl⟩ := List.mem_map.mp hcand
    obtain ⟨hentry, hfew⟩ := (mem_ivHits_iff hdec).mp hx
    exact ⟨x, ⟨hentry, Hex.encode_inj.mp hhex⟩, hfew⟩
  · rintro ⟨x, hseen, hfew⟩
    refine ⟨x.candidate, List.mem_map_of_mem ((mem_ivHits_iff hdec).mpr ⟨hseen.entry, hfew⟩), ?_, ?_⟩
    · exact congrArg Hex.encode hseen.holds
    · exact congrArg Hex.encode (hseen.first hlen)

theorem messageHit_whole_iff (hlen : (ps.headD []).length = iv.length) (hne : ps ≠ [])
    {algo : String} {w : Bytes × Nat} {name : String} {conf : Confidence} :
    ((messageHit dump oracles algo iv.length w iv ps name conf).ivHex = some (Hex.encode iv) ∧
        (messageHit dump oracles algo iv.length w iv ps name conf).Reports ps.flatten) ↔
      ∃ x, IvSeen dump oracles iv.length iv ps x ∧ rivals dump oracles iv.length iv ps x = ∅ := by
  have hdec := length_masked hlen
  constructor
  · rintro ⟨hnamed, _⟩
    obtain ⟨x, hx, hiv⟩ := scanned_named_iff.mp hnamed
    obtain ⟨hentry, hnone⟩ := (head_ivHits_iff hdec).mp hx
    exact ⟨x, ⟨hentry, hiv⟩, hnone⟩
  · rintro ⟨x, hseen, hnone⟩
    have hhead := (head_ivHits_iff hdec).mpr ⟨hseen.entry, hnone⟩
    refine ⟨scanned_named_iff.mpr ⟨x, hhead, hseen.holds⟩, ?_⟩
    have hblock0 : (searchedBlock0 dump oracles iv.length iv ps).headBlock = ps.headD [] := by
      obtain ⟨rest, hrest⟩ := List.head?_eq_some_iff.mp hhead
      rw [searchedBlock0, hrest]
      exact hseen.first hlen
    have htext : (searchedBlock0 dump oracles iv.length iv ps).headBlock ++ (ps.drop 1).flatten =
        ps.flatten := by
      obtain ⟨p, rest, rfl⟩ := List.exists_cons_of_ne_nil hne
      rw [hblock0]
      rfl
    rw [← htext]
    exact ⟨rfl, rfl, rfl⟩

end Message

/-- A CBC message whose key is in the dump is reported with its IV among the candidates exactly when
fewer than eight windows rank before one that holds the IV, and with the IV and the whole plaintext
exactly when none does. -/
theorem cbc_iv_recovered_iff (crates : Crates) (dump : Bytes) (oracles : List Oracle)
    (config : ScanConfig) (c : CipherChoice) (cipher : BlockCipher) (o : Nat) (iv : Bytes)
    (ps : List Bytes) (hplanted : Planted crates dump config c cipher o)
    (hfree : Unhindered dump (cbcBlocks cipher dump o iv ps).flatten config c)
    (horacles : oracles ≠ []) (hmode : config.mode = .block) (hnoIv : config.fixedIv = none)
    (hscanIv : config.scanIv = true) (hiv : iv.length = cipher.blockLen)
    (hps : ∀ p ∈ ps, p.length = cipher.blockLen) (htwo : 2 ≤ ps.length) :
    (Finds (scan crates dump (cbcBlocks cipher dump o iv ps).flatten oracles config) (fun h =>
        h.algo = c.label ∧ h.keyOffset = o ∧ h.mode = .cbc ∧ ∃ cand ∈ h.ivCandidates,
          cand.ivHex = Hex.encode iv ∧ cand.block0Hex = Hex.encode (ps.headD [])) ↔
      ReadAsCbc cipher dump oracles o iv ps ∧ ∃ x, IvSeen dump oracles cipher.blockLen iv ps x ∧
        (rivals dump oracles cipher.blockLen iv ps x).ncard < 8) ∧
    (Finds (scan crates dump (cbcBlocks cipher dump o iv ps).flatten oracles config) (fun h =>
        h.algo = c.label ∧ h.keyOffset = o ∧ h.mode = .cbc ∧
          h.ivHex = some (Hex.encode iv) ∧ h.Reports ps.flatten) ↔
      ReadAsCbc cipher dump oracles o iv ps ∧ ∃ x, IvSeen dump oracles cipher.blockLen iv ps x ∧
        rivals dump oracles cipher.blockLen iv ps x = ∅) := by
  have hwhole := hplanted.cbcBlocks_whole hiv hps
  have hlen : (cbcBlocks cipher dump o iv ps).length = ps.length := Modes.length_cbcEncrypt iv ps
  have hne : ps ≠ [] := List.ne_nil_of_length_pos (by omega)
  have hfirst : (ps.headD []).length = iv.length := by
    obtain ⟨p, rest, rfl⟩ := List.exists_cons_of_ne_nil hne
    rw [hiv]
    exact hps p List.mem_cons_self
  have hdump : cipher.blockLen ≤ dump.length := by
    obtain ⟨hkey, hblock⟩ := CipherChoice.lengths_of_adapter hplanted.adapter
    have hfits := c.blockLen_le_keyLen
    have hinside := hplanted.inside
    omega
  obtain ⟨R, hblocks, hfixed, hfinds⟩ := hplanted.finds_iff hmode
    (List.ne_nil_of_length_pos (by omega)) hwhole (by simp [hnoIv]) hfree horacles
  rw [hnoIv] at hfixed
  rw [hfinds, hfinds]
  constructor
  · apply hplanted.searched_iff hdump hscanIv hiv hps htwo hblocks hfixed
    intro name conf
    rw [← hiv]
    exact messageHit_candidates_iff hfirst
  · apply hplanted.searched_iff hdump hscanIv hiv hps htwo hblocks hfixed
    intro name conf
    rw [← hiv]
    exact messageHit_whole_iff hfirst hne

/-- The dump holds the IV and, right behind it, the key. -/
def ivAndKeyDump : Bytes := countingIv ++ sampleKey

theorem cbc_iv_recovered_iff_sample :
    Finds (scan cbcCrates ivAndKeyDump
        (cbcBlocks (aes128 cbcCrates) ivAndKeyDump 16 countingIv sampleBlocks).flatten [utf8Oracle]
        sampleConfig) (fun h =>
      h.algo = "aes-128" ∧ h.keyOffset = 16 ∧ h.mode = .cbc ∧
        h.ivHex = some (Hex.encode countingIv) ∧ h.Reports sampleBlocks.flatten) := by
  have hecb : ¬ Accepts [utf8Oracle]
      ((ecbReading (aes128 cbcCrates) ivAndKeyDump 16 countingIv sampleBlocks).take 2).flatten := by
    rintro ⟨oracle, hmem, hv⟩
    obtain rfl := List.mem_singleton.mp hmem
    revert hv
    decide +kernel
  have hdec0 : Bytes.xor (sampleBlocks.headD []) countingIv =
      [0x7b, 0x23, 0x77, 0x70, 0x61, 0x77, 0x24, 0x3d, 0x2a, 0x68, 0x6e, 0x66, 0x65, 0x63, 0x2c,
        0x23] := by decide +kernel
  have htail : ((sampleBlocks.drop 1).take 2).flatten =
      [0x22, 0x72, 0x6f, 0x6c, 0x65, 0x22, 0x3a, 0x22, 0x61, 0x64, 0x6d, 0x69, 0x6e, 0x22, 0x20,
        0x7d] := by decide +kernel
  have hbest : (ivHits ivAndKeyDump (Bytes.xor (sampleBlocks.headD []) countingIv)
      ((sampleBlocks.drop 1).take 2).flatten 16 [utf8Oracle]).head?.map IvHit.offset =
      some 0 := by
    rw [hdec0, htail]
    decide +kernel
  obtain ⟨x, hx, hoffset⟩ := Option.map_eq_some_iff.mp hbest
  obtain ⟨hentry, hnone⟩ := (head_ivHits_iff (by rw [hdec0]; rfl)).mp hx
  have hholds : x.iv = countingIv := by
    rw [hentry.iv, hoffset]
    decide
  exact (cbc_iv_recovered_iff cbcCrates ivAndKeyDump [utf8Oracle] sampleConfig .aes128
    (aes128 cbcCrates) 16 countingIv sampleBlocks ⟨by decide, rfl, by decide⟩
    ⟨by decide, rfl, by decide⟩ (by decide) rfl rfl rfl (by decide) (by decide) (by decide)).2.mpr
    ⟨⟨hecb, _, List.mem_singleton_self _, by decide +kernel⟩, x, ⟨hentry, hholds⟩, hnone⟩

end Memhunt
