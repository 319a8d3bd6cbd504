import Memhunt.Engine.Hunt

/-! What the block-mode hunt decides about one key window, as plain functions over the two readings
of a ciphertext, and the code's agreement with them. -/
namespace Memhunt
open Rust

def BlockCipher.decryption (cipher : BlockCipher) (key b : Bytes) : Bytes :=
  (cipher.decryptWithKey key b).2

def BlockCipher.encryption (cipher : BlockCipher) (key b : Bytes) : Bytes :=
  (cipher.encryptWithKey key b).2

/-- A ciphertext in whole blocks, and an IV of one block if there is one. -/
structure BlockRequest (block : Nat) where
  blocks : List Bytes
  fixedIv : Option Bytes
  nonempty : blocks ≠ []
  whole : ∀ b ∈ blocks, b.length = block
  ivWhole : ∀ iv, fixedIv = some iv → iv.length = block

namespace BlockRequest

variable {block : Nat} (R : BlockRequest block) (D : Bytes → Bytes)

def ofCiphertext {ciphertext : Bytes} (fixedIv : Option Bytes) (hblock : 0 < block)
    (hne : ciphertext ≠ []) (hdvd : block ∣ ciphertext.length)
    (hiv : ∀ iv, fixedIv = some iv → iv.length = block) : BlockRequest block where
  blocks := Bytes.chunksExact block ciphertext
  fixedIv := fixedIv
  nonempty h := hne (by rw [← Bytes.flatten_chunksExact hblock hdvd, h, List.flatten_nil])
  whole _ hb := Bytes.length_of_mem_chunksExact hb
  ivWhole := hiv

def first : Bytes := R.blocks.headD []

/-- The ECB reading of the ciphertext, and the part of it the oracles judge. -/
def ecbPlain : Bytes := (Modes.ecbDecrypt D R.blocks).flatten

def ecbHead : Bytes := ((Modes.ecbDecrypt D R.blocks).take verifyBlocks).flatten

def cbcTail : List Bytes := Modes.cbcTail D Bytes.xor R.blocks

/-- The part of the CBC reading the oracles judge: blocks 1 and 2, or block 0 where it is alone and
the IV is known. -/
def cbcHead : Option Bytes :=
  if R.blocks.tail.isEmpty then R.fixedIv.map fun iv => Bytes.xor (D R.first) iv
  else some ((R.cbcTail D).take verifyBlocks).flatten

end BlockRequest

/-- A dump window as an IV: judged by the plaintext it gives in front of the verified tail. -/
def ivWindow (dec0 tail : Bytes) (oracles : List Oracle) (w : Bytes × Nat) :
    Option IvRawCandidate :=
  let b0 := Bytes.xor dec0 w.1
  judge oracles (b0 ++ tail) fun name confidence =>
    { offset := w.2, iv := w.1, b0, name, confidence, plaus := plausibility b0 }

def ivHits (dump dec0 tail : Bytes) (block : Nat) (oracles : List Oracle) : List IvHit :=
  (((Windows.search (ivWindow dec0 tail oracles) block dump).insertionSort
    IvRawCandidate.before).take ivCandidatesMax).map IvRawCandidate.hit

def Block0.unknown (block : Nat) : Block0 :=
  { ivHex := none, ivOffset := none, headBlock := unknownBlock0 block, ivCandidates := [] }

def Block0.fixed (b0 iv : Bytes) : Block0 :=
  { ivHex := some (Hex.encode iv), ivOffset := none, headBlock := b0, ivCandidates := [] }

def Block0.scanned (block : Nat) (cands : List IvHit) : Block0 :=
  match cands with
  | [] => .unknown block
  | best :: _ =>
      { ivHex := some (Hex.encode best.iv), ivOffset := some best.offset, headBlock := best.first,
        ivCandidates := cands.map IvHit.candidate }

def BlockRequest.block0 {block : Nat} (R : BlockRequest block) (D : Bytes → Bytes) (dump : Bytes)
    (oracles : List Oracle) (config : ScanConfig) : Block0 :=
  match R.fixedIv with
  | some iv => .fixed (Bytes.xor (D R.first) iv) iv
  | none =>
      if config.scanIv && block ≤ dump.length then
        .scanned block
          (ivHits dump (D R.first) ((R.cbcTail D).take verifyBlocks).flatten block oracles)
      else .unknown block

def BlockRequest.cbcHit {block : Nat} (R : BlockRequest block) (D : Bytes → Bytes) (dump : Bytes)
    (oracles : List Oracle) (config : ScanConfig) (algo : String) (w : Bytes × Nat)
    (name : String) (conf : Confidence) : Hit :=
  let b0 := R.block0 D dump oracles config
  blockHit algo .cbc w.1 w.2 b0.ivHex b0.ivOffset b0.ivCandidates
    (b0.headBlock ++ (R.cbcTail D).flatten) name conf

/-- The ECB reading is judged first; the CBC reading only when no oracle took it. -/
def blockWindow {block : Nat} (R : BlockRequest block) (cipher : BlockCipher) (dump : Bytes)
    (oracles : List Oracle) (config : ScanConfig) (algo : String) (w : Bytes × Nat) :
    Option Hit :=
  let D := cipher.decryption w.1
  (judge oracles (R.ecbHead D)
    (blockHit algo .ecb w.1 w.2 none none [] (R.ecbPlain D))).or
  ((R.cbcHead D).bind fun head =>
    judge oracles head (R.cbcHit D dump oracles config algo w))

theorem decryptBlocks_ok {cipher : BlockCipher} (hc : cipher.Lawful) {key : Bytes}
    (hkey : key.length = cipher.keyLen) {bs : List Bytes}
    (hbs : ∀ b ∈ bs, b.length = cipher.blockLen) :
    decryptBlocks cipher key bs = some (bs.map (cipher.decryption key)) := by
  apply mapM_some
  intro b hb
  have hflag : cipher.decryptWithKey key b = (true, cipher.decryption key b) :=
    Prod.ext (hc.decrypts hkey (hbs b hb)).1 rfl
  rw [hflag]

theorem length_decryption {cipher : BlockCipher} (hc : cipher.Lawful) {key b : Bytes}
    (hkey : key.length = cipher.keyLen) (hb : b.length = cipher.blockLen) :
    (cipher.decryption key b).length = cipher.blockLen := (hc.decrypts hkey hb).2

theorem xorPrevious_ok {blocks tail : List Bytes} {block : Nat}
    (hblocks : ∀ b ∈ blocks, b.length = block) (htail : ∀ b ∈ tail, b.length = block)
    (hlen : tail.length ≤ blocks.length) :
    xorPrevious blocks block tail = .ok (List.zipWith Bytes.xor tail blocks) := by
  have hround : ∀ bi ∈ tail.zipIdx, (do
      let prev ← index blocks bi.2
      Bytes.xorInPlace bi.1 prev block) = .ok (Bytes.xor bi.1 (blocks.getD bi.2 [])) := by
    intro (b, i) hmem
    obtain ⟨hi, hb⟩ := List.mk_mem_zipIdx_iff_getElem?.mp hmem |> List.getElem?_eq_some_iff.mp
    have hget : blocks[i]? = some blocks[i] := List.getElem?_eq_getElem (by omega)
    have hprev : blocks[i].length = block := hblocks _ (List.getElem_mem _)
    have hb' : b.length = block := htail b (hb ▸ List.getElem_mem hi)
    simp only [index_ok hget, ok_bind, Bytes.xorInPlace_ok hb' hprev,
      List.getD_eq_getElem?_getD, hget, Option.getD_some]
  rw [xorPrevious, mapM_ok hround]
  congr 1
  apply List.ext_getElem
  · simp only [List.length_map, List.length_zipIdx, List.length_zipWith]
    omega
  · intro i hi _
    have hi' : i < blocks.length := by
      simp only [List.length_map, List.length_zipIdx] at hi
      omega
    simp [List.getD_eq_getElem?_getD, hi']

theorem findIv_ok {dec0 : Bytes} {block : Nat} (hblock : 0 < block) (hdec : block ≤ dec0.length)
    (dump tail : Bytes) (oracles : List Oracle) :
    findIv dump dec0 tail block oracles =
      .ok (ivHits dump (dec0.take block) tail block oracles) := by
  have hwindow : ∀ o, o + block ≤ dump.length →
      findIvWindow dec0 tail block oracles (Bytes.slice dump o block) o =
        .ok (ivWindow (dec0.take block) tail oracles (Bytes.slice dump o block, o)) := by
    intro o _
    simp only [findIvWindow, sliceTo_ok hdec, ok_bind, ivWindow, judge, block0Plausibility_ok]
    cases bestMatch oracles _ with
    | none => rfl
    | some m => rfl
  simp only [findIv, Windows.visit_ok hblock hwindow, ok_bind, pure_eq, ivHits]

theorem mem_ivHits {dump dec0 tail : Bytes} {block : Nat} {oracles : List Oracle} {x : IvHit}
    (hx : x ∈ ivHits dump dec0 tail block oracles) :
    (x.offset + block ≤ dump.length ∧ x.iv = Bytes.slice dump x.offset block) ∧
      x.first = Bytes.xor dec0 x.iv := by
  obtain ⟨y, hy, rfl⟩ := List.mem_map.mp hx
  have hsorted := List.mem_of_mem_take hy
  rw [List.mem_insertionSort] at hsorted
  obtain ⟨o, ho, hwindow⟩ := Windows.mem_search.mp hsorted
  rw [ivWindow] at hwindow
  obtain ⟨name, conf, _, rfl⟩ := judge_eq_some.mp hwindow
  exact ⟨⟨ho, rfl⟩, rfl⟩

theorem BlockRequest.length_headBlock {block : Nat} (R : BlockRequest block) {D : Bytes → Bytes}
    (hD : (D R.first).length = block) (dump : Bytes) (oracles : List Oracle)
    (config : ScanConfig) : (R.block0 D dump oracles config).headBlock.length = block := by
  unfold BlockRequest.block0
  cases hfixed : R.fixedIv with
  | some iv =>
      have hiv := R.ivWhole iv hfixed
      simp only [Block0.fixed, Bytes.length_xor]
      omega
  | none =>
      cases config.scanIv && decide (block ≤ dump.length) with
      | false => exact List.length_replicate
      | true =>
          simp only [if_true]
          generalize hcands : ivHits dump (D R.first) _ block oracles = cands
          cases cands with
          | nil => exact List.length_replicate
          | cons best rest =>
              obtain ⟨⟨hoffset, hiv⟩, hfirst⟩ := mem_ivHits (hcands ▸ List.mem_cons_self)
              have hlen := Bytes.length_slice hoffset
              simp only [Block0.scanned, hfirst, hiv, Bytes.length_xor]
              omega

theorem BlockRequest.index_first {block : Nat} (R : BlockRequest block) :
    index R.blocks 0 = .ok R.first := by
  obtain ⟨b, bs, hb⟩ := List.exists_cons_of_ne_nil R.nonempty
  rw [BlockRequest.first, hb, List.headD_cons]
  rfl

theorem BlockRequest.length_first {block : Nat} (R : BlockRequest block) :
    R.first.length = block := by
  obtain ⟨b, bs, hb⟩ := List.exists_cons_of_ne_nil R.nonempty
  rw [BlockRequest.first, hb, List.headD_cons]
  exact R.whole b (hb ▸ List.mem_cons_self)

section Window
variable {cipher : BlockCipher} (hc : cipher.Lawful) {key : Bytes}
  (hkey : key.length = cipher.keyLen) (R : BlockRequest cipher.blockLen)

include hc hkey

theorem length_of_mem_decrypted (bs : List Bytes) (hbs : ∀ b ∈ bs, b.length = cipher.blockLen) :
    ∀ b ∈ bs.map (cipher.decryption key), b.length = cipher.blockLen := by
  intro b hb
  obtain ⟨c, hcmem, rfl⟩ := List.mem_map.mp hb
  exact length_decryption hc hkey (hbs c hcmem)

theorem xorPrevious_tail :
    xorPrevious R.blocks cipher.blockLen (decryptBlocksUnchecked cipher key (R.blocks.drop 1)) =
      .ok (R.cbcTail (cipher.decryption key)) := by
  have htail := length_of_mem_decrypted hc hkey (R.blocks.drop 1)
    (fun b hb => R.whole b (List.mem_of_mem_drop hb))
  have hlen : ((R.blocks.drop 1).map (cipher.decryption key)).length ≤ R.blocks.length := by
    simp
  rw [BlockRequest.cbcTail, Modes.cbcTail_eq_zipWith, ← List.drop_one]
  exact xorPrevious_ok R.whole htail hlen

theorem cbcHead_ok :
    cbcHead cipher key R.blocks cipher.blockLen R.fixedIv =
      .ok (R.cbcHead (cipher.decryption key)) := by
  have hwhole : ∀ b ∈ (R.blocks.drop 1).take verifyBlocks, b.length = cipher.blockLen :=
    fun b hb => R.whole b (List.mem_of_mem_drop (List.mem_of_mem_take hb))
  have hlen : (((R.blocks.drop 1).take verifyBlocks).map (cipher.decryption key)).length ≤
      R.blocks.length := by
    simp only [List.length_map, List.length_take, List.length_drop]
    omega
  have hempty : ((R.blocks.drop 1).take verifyBlocks).isEmpty = R.blocks.tail.isEmpty := by
    rw [List.drop_one]
    cases R.blocks.tail with
    | nil => rfl
    | cons b bs => rfl
  have hxor := xorPrevious_ok R.whole
    (length_of_mem_decrypted hc hkey _ hwhole) hlen
  rw [List.drop_one] at hwhole
  rw [List.drop_one, Modes.cbcTail_take] at hxor
  unfold cbcHead BlockRequest.cbcHead
  simp only [hempty]
  cases htail : R.blocks.tail.isEmpty with
  | false =>
      simp only [Bool.not_false, if_true, decryptBlocks_ok hc hkey hwhole, List.drop_one, hxor,
        ok_bind, pure_eq, Bool.false_eq_true, if_false]
      rfl
  | true =>
      simp only [Bool.not_true, Bool.false_eq_true, if_false, if_true]
      cases hiv : R.fixedIv with
      | none => rfl
      | some iv =>
          have hdec := hc.decrypts hkey R.length_first
          have hflag : cipher.decryptWithKey key R.first =
              (true, cipher.decryption key R.first) := Prod.ext hdec.1 rfl
          have hb0 := Bytes.xorInPlace_ok (length_decryption hc hkey R.length_first)
            (R.ivWhole iv hiv)
          simp only [R.index_first, ok_bind, hflag, hb0, pure_eq, Option.map_some]

theorem resolveBlock0_ok (dump : Bytes) (oracles : List Oracle) (config : ScanConfig) :
    resolveBlock0 dump cipher key R.blocks cipher.blockLen oracles config R.fixedIv
        ((R.cbcTail (cipher.decryption key)).take verifyBlocks).flatten =
      .ok (R.block0 (cipher.decryption key) dump oracles config) := by
  have hfirst := length_decryption hc hkey R.length_first
  unfold resolveBlock0 BlockRequest.block0
  cases hiv : R.fixedIv with
  | some iv =>
      have hb0 : Bytes.xorInPlace (cipher.decryptWithKey key R.first).2 iv cipher.blockLen =
          .ok (Bytes.xor (cipher.decryption key R.first) iv) :=
        Bytes.xorInPlace_ok hfirst (R.ivWhole iv hiv)
      simp only [R.index_first, ok_bind, hb0, pure_eq]
      rfl
  | none =>
      have hfind : findIv dump (cipher.decryptWithKey key R.first).2
          ((R.cbcTail (cipher.decryption key)).take verifyBlocks).flatten cipher.blockLen oracles =
          .ok (ivHits dump (cipher.decryption key R.first)
            ((R.cbcTail (cipher.decryption key)).take verifyBlocks).flatten cipher.blockLen
            oracles) := by
        have htake : (cipher.decryption key R.first).take cipher.blockLen =
            cipher.decryption key R.first := List.take_of_length_le hfirst.le
        have hok := findIv_ok hc.blockPos hfirst.ge dump
          ((R.cbcTail (cipher.decryption key)).take verifyBlocks).flatten oracles
        rwa [htake] at hok
      cases hscan : config.scanIv && decide (cipher.blockLen ≤ dump.length) with
      | false => rfl
      | true =>
          simp only [if_true, R.index_first, ok_bind, hfind, pure_eq]
          cases ivHits dump _ _ _ _ with
          | nil => rfl
          | cons best rest => rfl

/-- On a key of the right length the code decides as specified. -/
theorem huntWindow_ok (dump : Bytes) (oracles : List Oracle) (config : ScanConfig)
    (algo : String) (offset : Nat) :
    huntWindow dump R.blocks cipher.blockLen cipher oracles config algo R.fixedIv key offset =
      .ok (blockWindow R cipher dump oracles config algo (key, offset)) := by
  have hwhole : ∀ b ∈ R.blocks.take verifyBlocks, b.length = cipher.blockLen :=
    fun b hb => R.whole b (List.mem_of_mem_take hb)
  have hhead : ((R.blocks.take verifyBlocks).map (cipher.decryption key)).flatten =
      R.ecbHead (cipher.decryption key) := by
    rw [BlockRequest.ecbHead, Modes.ecbDecrypt, List.map_take]
  unfold huntWindow blockWindow
  simp only [decryptBlocks_ok hc hkey hwhole, hhead, judge]
  cases bestMatch oracles (R.ecbHead (cipher.decryption key)) with
  | some m =>
      simp only [finalizeHit_ok, ok_bind, pure_eq]
      rfl
  | none =>
      simp only [cbcHead_ok hc hkey R, ok_bind]
      cases R.cbcHead (cipher.decryption key) with
      | none => rfl
      | some head =>
          simp only [Option.map_none, Option.none_or, Option.bind_some]
          cases bestMatch oracles head with
          | none => rfl
          | some m =>
              simp only [xorPrevious_tail hc hkey R, resolveBlock0_ok hc hkey R, finalizeHit_ok,
                ok_bind, pure_eq]
              rfl

end Window

theorem hunt_ok {cipher : BlockCipher} (hc : cipher.Lawful) (R : BlockRequest cipher.blockLen)
    (dump : Bytes) (oracles : List Oracle) (config : ScanConfig) (algo : String) :
    hunt dump R.blocks cipher.blockLen cipher oracles config algo R.fixedIv false =
      .ok (Windows.search (blockWindow R cipher dump oracles config algo) cipher.keyLen dump,
        dump.length + 1 - cipher.keyLen) :=
  Windows.visit_ok hc.keyPos fun o ho =>
    huntWindow_ok hc (Bytes.length_slice ho) R dump oracles config algo o

end Memhunt
