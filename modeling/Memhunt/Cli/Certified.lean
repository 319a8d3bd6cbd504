import Memhunt.Cli.Command
import Memhunt.Hash.ZeroLength
import Memhunt.KeySchedule.Sm4
import Memhunt.Lib.JsonSorted
import Memhunt.Mcp.Decoders
import Memhunt.Spec.Scan
import Memhunt.Spec.Vectors

/-! What the output of a command tells of the search behind it. -/
namespace Memhunt
open Rust
open Json (Value)

section Scan
variable {crates : Crates} {dump ciphertext : Bytes} {oracles : List Oracle} {config : ScanConfig}

theorem block0_sized (hdump : dump.length < 2 ^ 64) {block : Nat} (R : BlockRequest block)
    (D : Bytes → Bytes) :
    (∀ o ∈ (R.block0 D dump oracles config).ivOffset, o < 2 ^ 64) ∧
      ∀ c ∈ (R.block0 D dump oracles config).ivCandidates, c.Sized := by
  unfold BlockRequest.block0
  cases R.fixedIv with
  | some iv => simp [Block0.fixed]
  | none =>
      cases config.scanIv && decide (block ≤ dump.length) with
      | false => simp [Block0.unknown]
      | true =>
          simp only [if_true]
          generalize hcands : ivHits dump (D R.first) _ block oracles = cands
          have hsized : ∀ x ∈ cands, x.offset < 2 ^ 64 := by
            intro x hx
            rw [← hcands] at hx
            have := (mem_ivHits hx).1.1
            omega
          cases cands with
          | nil => simp [Block0.scanned, Block0.unknown]
          | cons best rest =>
              refine ⟨?_, ?_⟩
              · rintro o ⟨⟩
                exact hsized best List.mem_cons_self
              · intro c hc
                obtain ⟨x, hx, rfl⟩ := List.mem_map.mp hc
                exact hsized x hx

theorem sized_of_windowHit (hdump : dump.length < 2 ^ 64) {c : CipherChoice} {s : Bytes} {o : Nat}
    (ho : o ≤ dump.length) {hit : Hit}
    (h : windowHit crates dump ciphertext oracles config c (s, o) = some hit) : hit.Sized := by
  have hkey : hit.keyOffset < 2 ^ 64 := by
    rw [(foundAt_windowHit h).offset]
    omega
  have hstream : ∀ {mode : Mode} {nonce plaintext : Bytes} {name : String} {conf : Confidence},
      finalizeStreamHit c.label mode s o nonce plaintext name conf = hit → hit.Sized := by
    rintro mode nonce plaintext name conf rfl
    exact ⟨hkey, fun _ hnone => absurd hnone.symm (Option.some_ne_none _),
      fun _ hnil => absurd hnil List.not_mem_nil⟩
  unfold windowHit at h
  split at h
  · unfold streamWindow at h
    cases htag : config.tag with
    | none =>
        simp only [htag] at h
        obtain ⟨name, conf, _, heq⟩ := judge_eq_some.mp h
        exact hstream heq
    | some tag =>
        simp only [htag] at h
        obtain ⟨plaintext, _, heq⟩ := Option.map_eq_some_iff.mp h
        exact hstream heq
  · split at h
    · obtain ⟨R, _, hR⟩ := Option.bind_eq_some_iff.mp h
      rw [blockWindow, Option.or_eq_some_iff] at hR
      rcases hR with hecb | ⟨_, hcbc⟩
      · obtain ⟨name, conf, _, rfl⟩ := judge_eq_some.mp hecb
        exact ⟨hkey, fun _ hnone => absurd hnone.symm (Option.some_ne_none _),
          fun _ hnil => absurd hnil List.not_mem_nil⟩
      · obtain ⟨head, _, hjudge⟩ := Option.bind_eq_some_iff.mp hcbc
        obtain ⟨name, conf, _, rfl⟩ := judge_eq_some.mp hjudge
        obtain ⟨hiv, hcands⟩ := @block0_sized dump oracles config hdump _ R _
        exact ⟨hkey, hiv, hcands⟩
    · unfold counterWindow at h
      cases htag : config.gcmTag with
      | none =>
          simp only [htag] at h
          obtain ⟨name, conf, _, heq⟩ := judge_eq_some.mp h
          exact hstream heq
      | some tag =>
          simp only [htag] at h
          obtain ⟨plaintext, _, heq⟩ := Option.map_eq_some_iff.mp h
          exact hstream heq

/-- Every offset in a result lies in the dump. -/
theorem sized_of_scan (hdump : dump.length < 2 ^ 64) {r : ScanResult}
    (h : scan crates dump ciphertext oracles config = .ok r) : ∀ hit ∈ r.hits, hit.Sized := by
  intro hit hmem
  obtain ⟨c, _, _, _, o, ho, hwindow⟩ := hit_of_scan h hmem
  exact sized_of_windowHit hdump (Nat.le_of_add_right_le ho) hwindow

end Scan

theorem sized_of_scanKeySchedules {dump : Bytes} (hdump : dump.length < 2 ^ 64)
    {r : KeyScheduleResult} (h : scanKeySchedules dump = .ok r) : ∀ hit ∈ r.hits, hit.Sized := by
  obtain ⟨r', hr', hhits⟩ := scanKeySchedules_ok dump
  obtain rfl := Except.ok.inj (h.symm.trans hr')
  have hhead : ∀ nk algo, nk ≤ 8 → ∀ hit ∈ headHits dump nk algo, hit.Sized := by
    intro nk algo hnk hit hmem
    obtain ⟨o, hat, rfl⟩ := mem_headHits.mp hmem
    have hoffset : o < 2 ^ 64 := by
      have := hat.1
      omega
    have hwords : 4 + nk < 2 ^ 64 := by omega
    exact ⟨hoffset, hwords⟩
  intro hit hmem
  simp only [hhits, List.mem_append] at hmem
  rcases hmem with ((h128 | h192) | h256) | hsm4
  · exact hhead 4 "aes-128" (by decide) hit h128
  · exact hhead 6 "aes-192" (by decide) hit h192
  · exact hhead 8 "aes-256" (by decide) hit h256
  · obtain ⟨o, hat, rfl⟩ := mem_sm4Hits.mp hsm4
    have hoffset : o < 2 ^ 64 := by
      have := hat.1
      omega
    exact ⟨hoffset, Nat.one_lt_two_pow (by decide)⟩

section Hash
variable {crates : HashCrates} {dump target message : Bytes} {config : HashScanConfig}

theorem sized_of_searchHits (hdump : dump.length < 2 ^ 64) {value : Bytes → Bytes}
    {algo kind : String} {lengths : List Nat} :
    ∀ hit ∈ searchHits value target algo kind dump lengths, hit.Sized := by
  intro hit hmem
  obtain ⟨len, _, o, ho, _, rfl⟩ := mem_searchHits.mp hmem
  have hoffset : o < 2 ^ 64 := by omega
  have hlength : len < 2 ^ 64 := by omega
  exact ⟨hoffset, hlength⟩

theorem sized_of_scanPreimages (hdump : dump.length < 2 ^ 64) {algos : List HashAlgoSpec}
    {r : HashScanResult} (h : scanPreimages crates dump target algos config = .ok r) :
    ∀ hit ∈ r.hits, hit.Sized := by
  intro hit hmem
  rcases Collect.mem_collect (collect_of_scanPreimages h) hmem with hnil | ⟨algo, _, hcontr⟩
  · cases hnil
  obtain ⟨found, hfound, hin⟩ := Collect.mem_contribution.mp hcontr
  by_cases hlen : target.length = algo.outputLen
  · by_cases hmin : 1 ≤ config.lengths.min
    · rw [preimagePart_ok hmin hlen] at hfound
      obtain rfl := Option.some.inj (Except.ok.inj hfound)
      exact sized_of_searchHits hdump hit hin
    · obtain ⟨site, hsite⟩ := @preimagesOf_zero crates dump target config algo (by omega) hlen
      rw [preimagePart, hsite] at hfound
      cases hfound
  · obtain ⟨m, hm⟩ := @preimagesOf_errs crates dump target config algo hlen
    rw [preimagePart, hm] at hfound
    cases hfound

theorem sized_of_scanHmacKeys (hdump : dump.length < 2 ^ 64) {algo : HashAlgoSpec}
    {r : HashScanResult} (h : scanHmacKeys crates dump algo message target config = .ok r) :
    ∀ hit ∈ r.hits, hit.Sized := by
  by_cases hlen : target.length = algo.outputLen
  · by_cases hmin : 1 ≤ config.lengths.min
    · have hroom := room_of_scanHmacKeys h
      obtain ⟨r', hr', hhits⟩ :=
        @scanHmacKeys_ok crates dump target message config algo hmin hroom hlen
      obtain rfl := Except.ok.inj (h.symm.trans hr')
      rw [hhits]
      exact sized_of_searchHits hdump
    · have hpanics := @scanHmacKeys_zero crates dump target message config algo (by omega) hlen
      rw [h] at hpanics
      exact absurd hpanics (not_panics_ok r)
  · obtain ⟨m, hm⟩ := @scanHmacKeys_errs crates dump target message config algo hlen
    rw [h] at hm
    cases hm

end Hash

section Commands
variable {files : Files} {dump : Bytes}

theorem scan_of_runScan {crates : Crates} {base64 : Base64Crate} {args : ScanArgs} {r : ScanResult}
    (h : runScan crates base64 files args = .ok r) :
    ∃ dump ciphertext oracles config, files args.dumpPath = .ok dump ∧
      scan crates dump ciphertext oracles config = .ok r := by
  obtain ⟨ciphertext, _, h⟩ := bind_ok h
  obtain ⟨oracles, _, h⟩ := bind_ok h
  obtain ⟨selection, _, h⟩ := bind_ok h
  obtain ⟨fixedIv, _, h⟩ := bind_ok h
  obtain ⟨nonce, _, h⟩ := bind_ok h
  obtain ⟨tag, _, h⟩ := bind_ok h
  obtain ⟨aad, _, h⟩ := bind_ok h
  obtain ⟨dump, hdump, h⟩ := bind_ok h
  exact ⟨dump, ciphertext, oracles, _, file_of_readDump hdump, h⟩

theorem sized_of_runHash {crates : HashCrates} {args : HashArgs} {r : HashScanResult}
    (hsize : ∀ path dump, files path = .ok dump → dump.length < 2 ^ 64)
    (h : runHash crates files args = .ok r) : ∀ hit ∈ r.hits, hit.Sized := by
  obtain ⟨digest, _, h⟩ := bind_ok h
  obtain ⟨dump, hdump, h⟩ := bind_ok h
  have hlen := hsize args.dumpPath dump (file_of_readDump hdump)
  split at h
  · obtain ⟨algos, _, h⟩ := bind_ok h
    exact sized_of_scanPreimages hlen h
  · split at h
    · obtain ⟨algos, _, h⟩ := bind_ok h
      split at h
      · cases h
      · split at h
        · cases h
        · exact sized_of_scanHmacKeys hlen h
    · cases h

end Commands

/-- The three commands as seen by a consumer that reads JSON lines and looks at the exit code, with
any amount of room for the output. -/
theorem output_certifies (crates : Crates) (hashes : HashCrates) (base64 : Base64Crate)
    (serde : JsonCrate) (floats : UInt64 → Json.Numeral) (files : Files) (room : Nat)
    (broken : String) (args : ScanArgs) (hashArgs : HashArgs) (dumpPath : String)
    (hrecords : serde.WritesRecords floats)
    (hsize : ∀ path dump, files path = .ok dump → dump.length < 2 ^ 64) :
    Certifies serde room Hit.toJson Hit.ofJson
      ((runScan crates base64 files args).map ScanResult.hits)
      (scanCommand serde room broken true crates base64 files args)
      (scanCommand serde room broken false crates base64 files args) ∧
    Certifies serde room KeyScheduleHit.toJson KeyScheduleHit.ofJson
      ((runKeySchedules files dumpPath).map KeyScheduleResult.hits)
      (keySchedulesCommand serde room broken true files dumpPath)
      (keySchedulesCommand serde room broken false files dumpPath) ∧
    Certifies serde room HashHit.toJson HashHit.ofJson
      ((runHash hashes files hashArgs).map HashScanResult.hits)
      (hashCommand serde room broken true hashes files hashArgs)
      (hashCommand serde room broken false hashes files hashArgs) := by
  refine ⟨certifies_outputOf hrecords Hit.integral_toJson ?_,
    certifies_outputOf hrecords KeyScheduleHit.integral_toJson ?_,
    certifies_outputOf hrecords HashHit.integral_toJson ?_⟩
  · intro hits h hit hmem
    obtain ⟨r, hr, rfl⟩ := ok_of_map h
    obtain ⟨dump, _, _, _, hdump, hscan⟩ := scan_of_runScan hr
    exact Hit.ofJson_toJson (sized_of_scan (hsize _ dump hdump) hscan hit hmem)
  · intro hits h hit hmem
    obtain ⟨r, hr, rfl⟩ := ok_of_map h
    obtain ⟨dump, hdump, hscan⟩ := bind_ok hr
    have hlen := hsize _ dump (file_of_readDump hdump)
    exact KeyScheduleHit.ofJson_toJson (sized_of_scanKeySchedules hlen hscan hit hmem)
  · intro hits h hit hmem
    obtain ⟨r, hr, rfl⟩ := ok_of_map h
    exact HashHit.ofJson_toJson (sized_of_runHash hsize hr hit hmem)

def oneFile : Files := fun path =>
  if path = "dump.bin" then .ok sampleKey else .error "No such file or directory (os error 2)"

def sampleArgs : ScanArgs :=
  { dumpPath := "dump.bin", target := "96954985d2cef8806f381d31e67555b4", encoding := "hex",
    oracle := "json", cipher := "aes-128", maxHits := 0, iv := none, nonce := none, tag := none,
    aad := none, noIvScan := false }

theorem length_oneFile : ∀ path dump, oneFile path = .ok dump → dump.length < 2 ^ 64 := by
  intro path dump h
  unfold oneFile at h
  split at h
  · cases h
    decide
  · cases h

/-- A crate that reads the compact texts it writes. -/
def compactJson : JsonCrate where
  fromStr text :=
    match Json.read text.toList with
    | some v => .ok v
    | none => .error "expected value at line 1 column 1"
  toText v := String.ofList (v.sorted.compact fun _ => .ofInt 0)
  toWriter v := String.ofList (v.compact fun _ => .ofInt 0)
  toText_oneLine v := by
    rw [String.toList_ofList]
    exact Json.newline_not_mem_compact _ v.sorted

def sampleHashArgs : HashArgs :=
  { dumpPath := "dump.bin", mode := "preimage", digest := "", algos := "md5", message := none,
    minLen := 8, maxLen := 128 }

theorem output_certifies_sample : ∃ hits,
    readJsonLines Hit.ofJson
      (scanCommand compactJson 4096 "No space left on device (os error 28)" true sampleCrates
        standardBase64 oneFile sampleArgs).stdout = some hits := by
  obtain ⟨hits, _, hread⟩ := (output_certifies sampleCrates sampleHashes standardBase64 compactJson
    (fun _ => .ofInt 0) oneFile 4096 "No space left on device (os error 28)" sampleArgs
    sampleHashArgs "dump.bin" (fun _ => String.toList_ofList) length_oneFile).1.readBack
    (by decide +kernel)
  exact ⟨hits, hread⟩

end Memhunt
