import Memhunt.Lib.Workers
import Memhunt.Spec.Scan
import Memhunt.Spec.Vectors

/-! The scan as it really runs: the windows of a hunt shared among workers that count in one
counter, and inside a window the search for the IV shared once more. -/
namespace Memhunt
open Rust
open Workers (Follows RoundsReturn rounds Counts roundsReturn_iff exists_map_iff)

section Window
variable (dump : Bytes) (blocks : List Bytes) (block : Nat) (cipher : BlockCipher)
  (oracles : List Oracle) (config : ScanConfig) (algo : String) (fixedIv : Option Bytes)

/-- The IV search by workers that share the windows of the dump. -/
def FindIvReturns (dec0 tail : Bytes) (r : Run (List IvHit)) : Prop :=
  ∃ found, Workers.Visits false block dump
      (fun iv offset r => r = findIvWindow dec0 tail block oracles iv offset) 0 found ∧
    r = found.map fun v =>
      ((v.1.insertionSort IvRawCandidate.before).take ivCandidatesMax).map IvRawCandidate.hit

/-- `resolveBlock0` around whatever the IV search answers. -/
def resolveBlock0With (find : (dec0 tail : Bytes) → Run (List IvHit)) (key verifiedTail : Bytes) :
    Run Block0 :=
  match fixedIv with
  | some iv => do
      let b0 ← index blocks 0
      let b0 ← Bytes.xorInPlace (cipher.decryptWithKey key b0).2 iv block
      return { ivHex := some (Hex.encode iv), ivOffset := none, headBlock := b0,
               ivCandidates := [] }
  | none =>
      if config.scanIv && block ≤ dump.length then do
        let b0 ← index blocks 0
        let cands ← find (cipher.decryptWithKey key b0).2 verifiedTail
        let ivCandidates := cands.map IvHit.candidate
        match cands with
        | best :: _ =>
            return { ivHex := some (Hex.encode best.iv), ivOffset := some best.offset,
                     headBlock := best.first, ivCandidates }
        | [] =>
            return { ivHex := none, ivOffset := none, headBlock := unknownBlock0 block,
                     ivCandidates }
      else
        return { ivHex := none, ivOffset := none, headBlock := unknownBlock0 block,
                 ivCandidates := [] }

/-- `huntWindow` around whatever the IV search answers. -/
def huntWindowWith (find : (dec0 tail : Bytes) → Run (List IvHit)) (key : Bytes) (offset : Nat) :
    Run (Option Hit) := do
  match decryptBlocks cipher key (blocks.take verifyBlocks) with
  | none => return none
  | some head =>
      match bestMatch oracles head.flatten with
      | some (name, conf) =>
          let pt := (decryptBlocksUnchecked cipher key blocks).flatten
          let hit ← finalizeHit algo .ecb key offset none none [] pt name conf
          return some hit
      | none =>
          match ← cbcHead cipher key blocks block fixedIv with
          | none => return none
          | some cbcHead =>
              match bestMatch oracles cbcHead with
              | none => return none
              | some (name, conf) =>
                  let tail ← xorPrevious blocks block
                    (decryptBlocksUnchecked cipher key (blocks.drop 1))
                  let verifiedTail := (tail.take verifyBlocks).flatten
                  let b0 ← resolveBlock0With dump blocks block cipher config fixedIv find key
                    verifiedTail
                  let pt := b0.headBlock ++ tail.flatten
                  let hit ← finalizeHit algo .cbc key offset b0.ivHex b0.ivOffset
                    b0.ivCandidates pt name conf
                  return some hit

theorem huntWindowWith_findIv :
    huntWindowWith dump blocks block cipher oracles config algo fixedIv
        (fun dec0 tail => findIv dump dec0 tail block oracles) =
      huntWindow dump blocks block cipher oracles config algo fixedIv := rfl

/-- One key window of a hunt, with its own workers for the IV search. -/
def HuntWindowReturns (key : Bytes) (offset : Nat) (r : Run (Option Hit)) : Prop :=
  ∃ find, (∀ dec0 tail, FindIvReturns dump block oracles dec0 tail (find dec0 tail)) ∧
    r = huntWindowWith dump blocks block cipher oracles config algo fixedIv find key offset

def HuntReturns (stop : Bool) (tried : Nat) (r : Run (List Hit × Nat)) : Prop :=
  Workers.Visits stop cipher.keyLen dump
    (HuntWindowReturns dump blocks block cipher oracles config algo fixedIv) tried r

end Window

theorem findIvWindow_same {dec0 tail : Bytes} {block : Nat} {oracles : List Oracle}
    {iv iv' : Bytes} {o o' : Nat} {s t : Stop}
    (hs : findIvWindow dec0 tail block oracles iv o = .error s)
    (ht : findIvWindow dec0 tail block oracles iv' o' = .error t) : s = t := by
  by_cases hdec : block ≤ dec0.length
  · simp only [findIvWindow, sliceTo_ok hdec, ok_bind, block0Plausibility_ok] at hs
    split at hs <;> cases hs
  · have hslice : sliceTo dec0 block = crash .sliceLength := if_neg hdec
    simp only [findIvWindow, hslice, crash_bind] at hs ht
    exact Except.error.inj (hs.symm.trans ht)

/-- Whatever the workers do, they find the candidates of the plain search. -/
theorem findIvReturns_iff (dump dec0 tail : Bytes) (block : Nat) (oracles : List Oracle)
    (r : Run (List IvHit)) :
    FindIvReturns dump block oracles dec0 tail r ↔ r = findIv dump dec0 tail block oracles := by
  have hfind : findIv dump dec0 tail block oracles =
      (Windows.visit false block dump (findIvWindow dec0 tail block oracles)).map fun v =>
        ((v.1.insertionSort IvRawCandidate.before).take ivCandidatesMax).map
          IvRawCandidate.hit := by
    unfold findIv
    cases Windows.visit false block dump (findIvWindow dec0 tail block oracles) <;> rfl
  have hvisits : ∀ found, Workers.Visits false block dump
      (fun iv offset r => r = findIvWindow dec0 tail block oracles iv offset) 0 found ↔
        found = Windows.visit false block dump (findIvWindow dec0 tail block oracles) := by
    intro found
    rcases Nat.eq_zero_or_pos block with rfl | hpos
    · exact Iff.rfl
    · rw [Workers.visits_eq_iff hpos fun _ _ _ _ _ _ hs ht => findIvWindow_same hs ht]
      cases Windows.visit false block dump (findIvWindow dec0 tail block oracles) with
      | error s => exact Iff.rfl
      | ok v => simp [Except.map]
  rw [hfind, FindIvReturns]
  constructor
  · rintro ⟨found, hfound, rfl⟩
    rw [(hvisits found).mp hfound]
  · rintro rfl
    exact ⟨_, (hvisits _).mpr rfl, rfl⟩

theorem huntWindowReturns_iff (dump : Bytes) (blocks : List Bytes) (block : Nat)
    (cipher : BlockCipher) (oracles : List Oracle) (config : ScanConfig) (algo : String)
    (fixedIv : Option Bytes) (key : Bytes) (offset : Nat) (r : Run (Option Hit)) :
    HuntWindowReturns dump blocks block cipher oracles config algo fixedIv key offset r ↔
      r = huntWindow dump blocks block cipher oracles config algo fixedIv key offset := by
  rw [← huntWindowWith_findIv]
  constructor
  · rintro ⟨find, hfind, rfl⟩
    have heq : find = fun dec0 tail => findIv dump dec0 tail block oracles := by
      funext dec0 tail
      exact (findIvReturns_iff dump dec0 tail block oracles _).mp (hfind dec0 tail)
    rw [heq]
  · rintro rfl
    exact ⟨_, fun dec0 tail => (findIvReturns_iff dump dec0 tail block oracles _).mpr rfl, rfl⟩

section Hunts
variable {crates : Crates} {dump ciphertext : Bytes} {oracles : List Oracle} {config : ScanConfig}

/-- What a counter moves on by when `n` more windows are tried. -/
def countedFrom (tried : Nat) (found : Run (List Hit × Nat)) : Run (List Hit × Nat) :=
  found.map fun v => (v.1, tried + v.2)

theorem huntReturns_iff (dump : Bytes) (oracles : List Oracle) (config : ScanConfig)
    {cipher : BlockCipher} (hc : cipher.Lawful) (R : BlockRequest cipher.blockLen) (algo : String)
    (tried : Nat) (r : Run (List Hit × Nat)) :
    HuntReturns dump R.blocks cipher.blockLen cipher oracles config algo R.fixedIv false tried r ↔
      r = countedFrom tried (hunt dump R.blocks cipher.blockLen cipher oracles config algo
        R.fixedIv false) := by
  apply Workers.visits_iff hc.keyPos
  · intro key offset
    exact ⟨_, (huntWindowReturns_iff ..).mpr rfl⟩
  · intro o _ r
    exact huntWindowReturns_iff ..
  · intro o _ ho _ s _ hs _
    rw [huntWindow_ok hc (Bytes.length_slice ho) R] at hs
    cases hs

/-- Wherever the workers of a hunt are, the counter has counted no window twice, they come to an end
within two moves a window, and every end is the one result of the hunt. -/
theorem hunt_workers_finish {cipher : BlockCipher} (hc : cipher.Lawful)
    (R : BlockRequest cipher.blockLen) (dump : Bytes) (oracles : List Oracle) (config : ScanConfig)
    (algo : String) (tried : Nat)
    {p : Workers.Pool (Bytes × Nat) Unit (Bytes × Nat) Hit}
    (hreach : Workers.Reach (Workers.visitStart false)
      (Workers.visitBody (HuntWindowReturns dump R.blocks cipher.blockLen cipher oracles config algo
        R.fixedIv))
      (.initial (Windows.windows cipher.keyLen dump).zipIdx tried) p) :
    let step := Workers.Step (Workers.visitStart false)
      (Workers.visitBody (HuntWindowReturns dump R.blocks cipher.blockLen cipher oracles config algo
        R.fixedIv))
    let windows := dump.length + 1 - cipher.keyLen
    let result := Windows.search (blockWindow R cipher dump oracles config algo) cipher.keyLen dump
    (tried ≤ p.counter ∧ p.counter ≤ tried + windows) ∧
      (∀ qs, (p :: qs).IsChain step → qs.length ≤ 2 * windows) ∧
      (∃ q, Relation.ReflTransGen step p q ∧ Workers.Outcome q (.ok (result, tried + windows))) ∧
      ∀ q r, Relation.ReflTransGen step p q → Workers.Outcome q r →
        r = .ok (result, tried + windows) := by
  refine Workers.visits_run hc.keyPos ?_ ?_ (hunt_ok hc R dump oracles config algo) hreach
  · intro key offset
    exact ⟨_, (huntWindowReturns_iff ..).mpr rfl⟩
  · intro o _ r
    exact huntWindowReturns_iff ..

/-- The sample ciphertext as a request without an IV. -/
def sampleRequest : BlockRequest 16 :=
  @BlockRequest.ofCiphertext 16 sampleCiphertext none (by omega) (by decide) (by decide)
    (fun _ h => nomatch h)

section Midway
variable {α σ γ β : Type}

/-- Three tasks after three moves: the last has looked at its only item, the first is taken, and the
one between them is waiting. -/
def midway (a b c : α) (s s' : σ) (w : γ) (r : Option β) : Workers.Pool α σ γ β where
  tasks := [(a, .running s [] 0 [w]), (b, .waiting), (c, .running s' r.toList 1 [])]
  counter := 1

theorem reach_midway {start : α → Run (σ × List γ)} {body : σ → γ → Run (σ × Option β) → Prop}
    {a b c : α} {s s' s'' : σ} {w w' : γ} {r : Option β} (ha : start a = .ok (s, [w]))
    (hc : start c = .ok (s', [w'])) (hlook : body s' w' (.ok (s'', r))) :
    Workers.Reach start body (.initial [a, b, c] 0) (midway a b c s s'' w r) := by
  have htakes : Workers.Move start body c .waiting 0 (.running s' [] 0 [w']) := .take hc
  have hlooks : Workers.Move start body c (.running s' [] 0 [w']) 1 (.running s'' r.toList 1 []) :=
    .look hlook
  have htakes' : Workers.Move start body a .waiting 0 (.running s [] 0 [w]) := .take ha
  have htake := @Workers.Step.move _ _ _ _ _ _ [(a, .waiting), (b, .waiting)] [] _ _ _ _ 0 htakes
  have hlooked := @Workers.Step.move _ _ _ _ _ _ [(a, .waiting), (b, .waiting)] [] _ _ _ _ 0 hlooks
  have htake' := @Workers.Step.move _ _ _ _ _ _ []
    [(b, .waiting), (c, .running s'' r.toList 1 [])] _ _ _ _ 1 htakes'
  exact ((Relation.ReflTransGen.single htake).tail hlooked).tail htake'

end Midway

/-- Three windows, of which the first is the key. -/
def threeWindows : Bytes := sampleKey ++ [1, 2]

def keyWindow (o : Nat) : Bytes × Nat := (Bytes.slice threeWindows o 16, o)

/-- From the middle of a hunt, with one window looked at, one taken and one waiting. -/
theorem hunt_workers_finish_sample :
    let step := Workers.Step (Workers.visitStart false)
      (Workers.visitBody (HuntWindowReturns threeWindows sampleRequest.blocks 16
        (aes128 sampleCrates) [jsonOracle] sampleConfig "aes-128" sampleRequest.fixedIv))
    ∃ found, let pool := midway (keyWindow 0) (keyWindow 1) (keyWindow 2) () () (keyWindow 0) found
      (∀ qs, (pool :: qs).IsChain step → qs.length ≤ 6) ∧
      ∃ q, Relation.ReflTransGen step pool q ∧
        Workers.Outcome q (.ok (Windows.search (blockWindow sampleRequest (aes128 sampleCrates)
          threeWindows [jsonOracle] sampleConfig "aes-128") 16 threeWindows, 3)) := by
  have hlawful := @CipherChoice.adapter_lawful sampleCrates .aes128 _ rfl
  have hkey : (keyWindow 2).1.length = (aes128 sampleCrates).keyLen := by decide
  have hlook : Workers.visitBody (HuntWindowReturns threeWindows sampleRequest.blocks
      (aes128 sampleCrates).blockLen (aes128 sampleCrates) [jsonOracle] sampleConfig "aes-128"
      sampleRequest.fixedIv) () (keyWindow 2) (.ok ((), blockWindow sampleRequest
        (aes128 sampleCrates) threeWindows [jsonOracle] sampleConfig "aes-128" (keyWindow 2))) :=
    ⟨_, (huntWindowReturns_iff ..).mpr (huntWindow_ok hlawful hkey sampleRequest ..).symm, rfl⟩
  have hwindows : (Windows.windows 16 threeWindows).zipIdx =
      [keyWindow 0, keyWindow 1, keyWindow 2] := by decide
  have hreach := @reach_midway _ _ _ _ (Workers.visitStart false) _ (keyWindow 0) (keyWindow 1)
    (keyWindow 2) _ _ _ _ _ _ rfl rfl hlook
  rw [← hwindows] at hreach
  obtain ⟨_, hlength, hend, _⟩ := hunt_workers_finish hlawful sampleRequest threeWindows [jsonOracle]
    sampleConfig "aes-128" 0 hreach
  exact ⟨_, hlength, hend⟩

variable (crates ciphertext) in
def HuntStreamReturns (dump : Bytes) (block : Nat) (cipher : BlockCipher) (oracles : List Oracle)
    (config : ScanConfig) (algo : String) (stop : Bool) (tried : Nat)
    (r : Run (List Hit × Nat)) : Prop :=
  match config.mode with
  | .ctr =>
      Workers.Visits stop cipher.keyLen dump (fun key offset r =>
        r = huntStreamWindow crates ciphertext block cipher oracles config algo .ctr key offset)
        tried r
  | .gcm =>
      Workers.Visits stop cipher.keyLen dump (fun key offset r =>
        r = huntStreamWindow crates ciphertext block cipher oracles config algo .gcm key offset)
        tried r
  | .block => r = .ok ([], tried)

variable (crates ciphertext) in
def HuntStreamCipherReturns (dump : Bytes) (adapter : StreamCipherAdapter) (oracles : List Oracle)
    (config : ScanConfig) (algo : String) (stop : Bool) (tried : Nat)
    (r : Run (List Hit × Nat)) : Prop :=
  Workers.Visits stop adapter.keyLen dump (fun key offset r =>
    r = huntStreamCipherWindow crates ciphertext adapter oracles config algo key offset) tried r

theorem huntStreamReturns_iff {cipher : BlockCipher} (hc : cipher.Lawful)
    (hblock : cipher.blockLen = 16) (hready : CounterReady config) (algo : String) (tried : Nat)
    (r : Run (List Hit × Nat)) :
    HuntStreamReturns crates ciphertext dump cipher.blockLen cipher oracles config algo false tried
        r ↔
      r = countedFrom tried (huntStream crates dump ciphertext cipher.blockLen cipher oracles config
        algo false) := by
  have hwindow : ∀ o, o + cipher.keyLen ≤ dump.length → ∀ s,
      huntStreamWindow crates ciphertext cipher.blockLen cipher oracles config algo
        (hitMode config.mode) (Bytes.slice dump o cipher.keyLen) o ≠ .error s := by
    intro o ho s hs
    rw [huntStreamWindow_ok hc hblock hready _ _ algo (Bytes.length_slice ho)] at hs
    cases hs
  unfold HuntStreamReturns huntStream
  cases hmode : config.mode with
  | block => exact Iff.rfl
  | ctr =>
      rw [hmode] at hwindow
      exact Workers.visits_eq_iff hc.keyPos (fun o _ ho _ s _ hs _ => absurd hs (hwindow o ho s))
        tried r
  | gcm =>
      rw [hmode] at hwindow
      exact Workers.visits_eq_iff hc.keyPos (fun o _ ho _ s _ hs _ => absurd hs (hwindow o ho s))
        tried r

theorem huntStreamCipherReturns_iff {c : CipherChoice} {adapter : StreamCipherAdapter}
    (hadapter : c.streamAdapter crates = .ok adapter) (hready : StreamReady config c)
    (tried : Nat) (r : Run (List Hit × Nat)) :
    HuntStreamCipherReturns crates ciphertext dump adapter oracles config c.label false tried r ↔
      r = countedFrom tried (huntStreamCipher crates dump ciphertext adapter oracles config c.label
        false) := by
  have hlen := CipherChoice.keyLen_of_streamAdapter hadapter
  -- the only failure is one and the same: the keystream has run out
  have hwindow : ∀ o, o + adapter.keyLen ≤ dump.length → ∀ s,
      huntStreamCipherWindow crates ciphertext adapter oracles config c.label
        (Bytes.slice dump o adapter.keyLen) o = .error s → s = .panic .streamExhausted := by
    intro o ho s hs
    have hkey : (Bytes.slice dump o adapter.keyLen).length = c.keyLen :=
      (Bytes.length_slice ho).trans hlen
    rcases huntStreamCipherWindow_ok_or_crash hadapter hready ciphertext oracles hkey o with
      hok | ⟨_, hcrash⟩
    · rw [hok] at hs
      cases hs
    · rw [hcrash] at hs
      exact (Except.error.inj hs).symm
  refine Workers.visits_eq_iff (hlen ▸ c.keyLen_pos) ?_ tried r
  intro o o' ho ho' s t hs ht
  rw [hwindow o ho s hs, hwindow o' ho' t ht]

end Hunts

section Scan
variable (crates : Crates) (dump ciphertext : Bytes) (oracles : List Oracle) (config : ScanConfig)

/-- `scanCipher` from the value that the counter has when it is called. -/
def ScanCipherReturns (choice : CipherChoice) (tried : Nat)
    (r : Run (Option (List Hit × Nat))) : Prop :=
  let algo := choice.label
  let stop := false
  if choice.isStreamCipher then
    if ciphertext.isEmpty then r = fail "ciphertext is empty"
    else
      Follows (choice.streamAdapter crates) (fun adapter r =>
        ∃ found, HuntStreamCipherReturns crates ciphertext dump adapter oracles config algo stop
          tried found ∧ r = found.map some) r
  else
    Follows (choice.adapter crates) (fun cipher r =>
      let block := cipher.blockLen
      if dump.length < cipher.keyLen then r = .ok none
      else if config.mode = .block then
        Follows (splitBlocks ciphertext block) (fun blocks r =>
          Follows (matchIv config.fixedIv algo block) (fun iv r =>
            ∃ found, HuntReturns dump blocks block cipher oracles config algo iv stop tried found ∧
              r = found.map some) r) r
      else if ciphertext.isEmpty then r = fail "ciphertext is empty"
      else
        ∃ found, HuntStreamReturns crates ciphertext dump block cipher oracles config algo stop
          tried found ∧ r = found.map some) r

def ScanLoopReturns : List CipherChoice → List Hit → Nat → Run (List Hit × Nat) → Prop :=
  RoundsReturn config.maxHits (ScanCipherReturns crates dump ciphertext oracles config)

/-- The scan with its workers returns `r`, in some order of their moves. -/
def ScanReturns (r : Run ScanResult) : Prop :=
  Follows (validateConfig config) (fun _ r =>
    if (config.mode != .gcm || config.tag.isNone) && oracles.isEmpty then
      r = fail "no oracle specified"
    else
      ∃ looped, ScanLoopReturns crates dump ciphertext oracles config config.ciphers [] 0 looped ∧
        r = looped.map fun (allHits, tried) =>
          { hits := allHits, stats := { dumpSize := dump.length, candidatesTried := tried } }) r

variable {crates dump ciphertext oracles config}

theorem map_some_countedFrom (tried : Nat) (found : Run (List Hit × Nat)) :
    (countedFrom tried found).map some =
      (found >>= fun found => (.ok (some found) : Run (Option (List Hit × Nat)))).map
        (Option.map fun v => (v.1, tried + v.2)) := by
  cases found <;> rfl

theorem scanCipher_counts (hvalid : config.Valid) {c : CipherChoice} (hc : c ∈ config.ciphers) :
    Counts (ScanCipherReturns crates dump ciphertext oracles config c)
      (scanCipher crates dump ciphertext oracles config c) := by
  intro tried r
  unfold ScanCipherReturns scanCipher
  cases hstream : c.isStreamCipher with
  | true =>
      obtain ⟨adapter, hadapter⟩ := CipherChoice.streamAdapter_ok crates hstream
      simp only [if_true, hadapter, Follows, ok_bind]
      cases ciphertext.isEmpty with
      | true => exact Iff.rfl
      | false =>
          simp only [Bool.false_eq_true, if_false, pure_eq]
          rw [exists_map_iff fun found =>
            huntStreamCipherReturns_iff hadapter (hvalid.streamReady hc hstream) tried found,
            map_some_countedFrom]
  | false =>
      obtain ⟨cipher, hadapter⟩ := CipherChoice.adapter_ok crates hstream
      have hlawful := CipherChoice.adapter_lawful hadapter
      simp only [Bool.false_eq_true, if_false, hadapter, Follows, ok_bind, pure_eq]
      by_cases hshort : dump.length < cipher.keyLen
      · simp only [if_pos hshort]
        exact Iff.rfl
      · simp only [if_neg hshort]
        by_cases hmode : config.mode = .block
        · simp only [if_pos hmode]
          by_cases hsplit : ciphertext ≠ [] ∧ cipher.blockLen ∣ ciphertext.length
          · rw [splitBlocks_ok hsplit.1 hsplit.2]
            simp only [ok_bind]
            by_cases hiv : ∀ iv ∈ config.fixedIv, iv.length = cipher.blockLen
            · rw [matchIv_ok hiv]
              simp only [ok_bind]
              have hreturns := fun found => huntReturns_iff dump oracles config hlawful
                (.ofCiphertext config.fixedIv hlawful.blockPos hsplit.1 hsplit.2 hiv)
                c.label tried found
              refine (exists_map_iff hreturns r).trans ?_
              rw [map_some_countedFrom]
              exact Iff.rfl
            · obtain ⟨m, hm⟩ := @matchIv_errs config.fixedIv c.label cipher.blockLen hiv
              rw [hm]
              exact Iff.rfl
          · obtain ⟨m, hm⟩ := splitBlocks_errs hsplit
            rw [hm]
            exact Iff.rfl
        · simp only [if_neg hmode]
          cases ciphertext.isEmpty with
          | true => exact Iff.rfl
          | false =>
              have haes := hvalid.isAes hmode hc hstream
              have hblock : cipher.blockLen = 16 := by
                rw [(CipherChoice.lengths_of_adapter hadapter).2, CipherChoice.blockLen_of_aes haes]
              simp only [Bool.false_eq_true, if_false]
              rw [exists_map_iff fun found => huntStreamReturns_iff hlawful hblock
                (hvalid.counterReady hmode hc hstream) c.label tried found, map_some_countedFrom]

theorem scanLoop_eq_rounds (cs : List CipherChoice) (allHits : List Hit) (tried : Nat) :
    scanLoop crates dump ciphertext oracles config cs allHits tried =
      rounds config.maxHits (scanCipher crates dump ciphertext oracles config) cs allHits
        tried := by
  induction cs generalizing allHits tried with
  | nil => rfl
  | cons c cs ih =>
      unfold scanLoop rounds
      cases scanCipher crates dump ciphertext oracles config c with
      | error s => rfl
      | ok found =>
          cases found with
          | none => exact ih allHits tried
          | some found => simp only [ok_bind, ih]

/-- In every order in which the workers move the scan returns the one result of the plain loop: the
same hits in the same order, each once, and every window counted. -/
theorem scan_whatever_the_schedule (crates : Crates) (dump ciphertext : Bytes)
    (oracles : List Oracle) (config : ScanConfig) (r : Run ScanResult) :
    ScanReturns crates dump ciphertext oracles config r ↔
      r = scan crates dump ciphertext oracles config := by
  unfold ScanReturns scan
  cases hvalid : validateConfig config with
  | error s => exact Iff.rfl
  | ok u =>
      simp only [Follows, ok_bind]
      split
      · exact Iff.rfl
      · rw [scanLoop_eq_rounds]
        refine (exists_map_iff (roundsReturn_iff config.maxHits
          (fun c hc => scanCipher_counts (validateConfig_ok hvalid) hc) [] 0) r).trans ?_
        cases rounds config.maxHits (scanCipher crates dump ciphertext oracles config)
          config.ciphers [] 0 <;> exact Iff.rfl

end Scan

end Memhunt
