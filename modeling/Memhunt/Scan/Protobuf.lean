import Memhunt.Lib.Protobuf
import Memhunt.Scan.Completeness
import Memhunt.Scan.Keystreams
import Memhunt.Scan.Varint

/-! Protobuf messages: which of them the protobuf oracle recognises by their head, and so which keys
it finds. -/
namespace Memhunt
open Rust
open Protobuf (Field)

/-- The first field is a payload of its own length, under a number below 16, and ends within the
first `n` bytes. -/
def Recognisable (n : Nat) (f : Field) : Prop :=
  f.number ≤ 15 ∧ ∃ bytes fits, f.payload = .delimited bytes fits ∧ bytes ≠ [] ∧
    bytes.length + 2 ≤ n

section Heads

theorem tag_accepted_iff {k : Nat} (hk : k < 256) :
    (UInt8.ofNat k &&& 0x07 != 0x02 || UInt8.ofNat k >>> 3 == 0 ||
      UInt8.ofNat k >>> 3 > 15) = false ↔ k % 8 = 2 ∧ 8 ≤ k ∧ k < 128 := by
  have table : ∀ k < 256, ((UInt8.ofNat k &&& 0x07 != 0x02 || UInt8.ofNat k >>> 3 == 0 ||
      UInt8.ofNat k >>> 3 > 15) = false ↔ k % 8 = 2 ∧ 8 ≤ k ∧ k < 128) := by decide +kernel
  exact table k hk

theorem tag_of_verify {k : Nat} (hk : k < 256) {rest : Bytes}
    (h : protobufOracle.verify (UInt8.ofNat k :: rest) = true) : k % 8 = 2 ∧ 8 ≤ k ∧ k < 128 := by
  rw [← tag_accepted_iff hk]
  by_contra hbad
  rw [Bool.not_eq_false] at hbad
  simp only [protobufOracle, hbad, if_true] at h
  cases h

theorem verify_delimited_iff {k : Nat} (hk : k % 8 = 2 ∧ 8 ≤ k ∧ k < 128) {len : Nat}
    (hlen : len < 2 ^ 64) (text : Bytes) :
    protobufOracle.verify (UInt8.ofNat k :: (Varint.encode len ++ text)) = true ↔
      0 < len ∧ len ≤ text.length := by
  have hgood := (tag_accepted_iff (by omega)).mpr hk
  have hten : (Varint.encode len).length ≤ 9 + 1 :=
    Varint.length_encode_le (hlen.trans (by norm_num))
  obtain ⟨v, hread, hv⟩ := readVarint_encoding (Varint.encoding_encode len) hten text
  rw [Varint.value_encode, Nat.mod_eq_of_lt hlen] at hv
  have havailable : (UInt8.ofNat k :: (Varint.encode len ++ text)).length -
      (1 + (Varint.encode len).length) = text.length := by
    rw [List.length_cons, List.length_append]
    omega
  simp only [protobufOracle, hgood, hread, havailable, hv]
  exact decide_eq_true_iff

/-- The length and what of the payload is left in a head. -/
theorem fits_head_iff {n : Nat} (hn : 11 ≤ n) (hsmall : n ≤ 128) {bytes : Bytes}
    (fits : bytes.length < 2 ^ 64) (rest : Bytes) :
    ∃ text, (Varint.encode bytes.length ++ (bytes ++ rest)).take (n - 1) =
        Varint.encode bytes.length ++ text ∧
      (bytes.length ≤ text.length ↔ bytes.length + 2 ≤ n) := by
  have hten : (Varint.encode bytes.length).length ≤ 9 + 1 :=
    Varint.length_encode_le (fits.trans (by norm_num))
  refine ⟨(bytes ++ rest).take (n - 1 - (Varint.encode bytes.length).length), ?_, ?_⟩
  · rw [List.take_append, List.take_of_length_le (by omega)]
  · obtain ⟨k, bs, henc, _, hone, hmore⟩ := Protobuf.varint_first bytes.length
    rw [List.length_take, List.length_append, henc, List.length_cons]
    by_cases hlt : bytes.length < 128
    · rw [(hone hlt).2, List.length_nil]
      omega
    · have hpos := List.length_pos_iff.mpr (hmore (by omega)).2
      omega

theorem protobufOracle_head_iff (f : Field) (rest : Bytes) {n : Nat} (hn : 11 ≤ n)
    (hsmall : n ≤ 128) :
    protobufOracle.verify ((f.encode ++ rest).take n) = true ↔ Recognisable n f := by
  obtain ⟨k, bs, henc, hk, hone, hmore⟩ := Protobuf.varint_first f.key
  have hhead : (f.encode ++ rest).take n =
      UInt8.ofNat k :: (bs ++ (f.payload.encode ++ rest)).take (n - 1) := by
    obtain ⟨m, rfl⟩ := Nat.exists_eq_add_of_le' (show 1 ≤ n by omega)
    rw [Field.encode, henc, List.append_assoc, List.cons_append, List.take_succ_cons,
      Nat.add_sub_cancel]
  rw [hhead]
  by_cases hkey : f.key < 128
  · obtain ⟨rfl, rfl⟩ := hone hkey
    have hnumber := f.key_lt_iff.mp hkey
    rw [List.nil_append]
    constructor
    · intro hverify
      obtain ⟨htag, hrange⟩ := tag_of_verify hk hverify
      obtain ⟨bytes, fits, hpayload⟩ :=
        Protobuf.Payload.delimited_of_wireType (f.key_mod.symm.trans htag)
      obtain ⟨text, htext, hfits⟩ := fits_head_iff hn hsmall fits rest
      rw [hpayload, Protobuf.Payload.encode, List.append_assoc, htext,
        verify_delimited_iff ⟨htag, hrange⟩ fits, hfits] at hverify
      exact ⟨hnumber, bytes, fits, hpayload, List.length_pos_iff.mp hverify.1, hverify.2⟩
    · rintro ⟨_, bytes, fits, hpayload, hne, hlen⟩
      have htag : f.key % 8 = 2 := by
        rw [f.key_mod, hpayload]
        rfl
      have hlow : 8 ≤ f.key := by
        have := f.positive
        rw [Field.key]
        omega
      obtain ⟨text, htext, hfits⟩ := fits_head_iff hn hsmall fits rest
      rw [hpayload, Protobuf.Payload.encode, List.append_assoc, htext,
        verify_delimited_iff ⟨htag, hlow, hkey⟩ fits, hfits]
      exact ⟨List.length_pos_iff.mpr hne, hlen⟩
  · constructor
    · intro hverify
      have hrange := (tag_of_verify hk hverify).2.2
      have := (hmore (by omega)).1
      omega
    · rintro ⟨hnumber, _⟩
      exact absurd (f.key_lt_iff.mpr hnumber) hkey

theorem accepts_protobuf_iff (f : Field) (rest : Bytes) {n : Nat} (hn : 11 ≤ n)
    (hsmall : n ≤ 128) :
    Accepts [protobufOracle] ((f.encode ++ rest).take n) ↔ Recognisable n f := by
  rw [← protobufOracle_head_iff f rest hn hsmall]
  constructor
  · rintro ⟨oracle, hmem, hverify⟩
    obtain rfl := List.mem_singleton.mp hmem
    exact hverify
  · exact fun hverify => ⟨_, List.mem_singleton_self _, hverify⟩

end Heads

section Scans
variable {crates : Crates} {dump ciphertext : Bytes} {oracles : List Oracle} {config : ScanConfig}
  {c : CipherChoice} {r : ScanResult} {o : Nat}

theorem recovers_masked_iff {key nonce : Bytes} (htag : config.tag = none)
    (hnonce : config.nonce = some nonce) :
    Recovers crates ciphertext oracles config c key
        (c.unmask crates config.mode key nonce ciphertext) ↔
      Accepts oracles ((c.unmask crates config.mode key nonce ciphertext).take 32) := by
  constructor
  · generalize htext : c.unmask crates config.mode key nonce ciphertext = text
    intro h
    cases h with
    | sealed _ hsome =>
        rw [htag] at hsome
        cases hsome
    | masked hnonce' _ haccepts =>
        obtain rfl := Option.some.inj (hnonce.symm.trans hnonce')
        exact haccepts
  · exact .masked hnonce htag

/-- An ECB message is reported where the oracles accept its first two blocks, and only there. -/
theorem Planted.ecb_hit_iff {cipher : BlockCipher} (hp : Planted crates dump config c cipher o)
    (hmax : config.maxHits = 0) (hmode : config.mode = .block) {ps : List Bytes} (hne : ps ≠ [])
    (hwhole : ∀ p ∈ ps, p.length = cipher.blockLen)
    (hscan : scan crates dump (Modes.ecbEncrypt
      (cipher.encryption (Bytes.slice dump o cipher.keyLen)) ps).flatten oracles config = .ok r) :
    (∃ h ∈ r.hits, h.algo = c.label ∧ h.keyOffset = o ∧ h.mode = .ecb ∧ h.Reports ps.flatten) ↔
      Accepts oracles (ps.flatten.take (2 * cipher.blockLen)) := by
  have hcs : ∀ b ∈ Modes.ecbEncrypt
      (cipher.encryption (Bytes.slice dump o cipher.keyLen)) ps, b.length = cipher.blockLen := by
    intro b hb
    obtain ⟨p, hmem, rfl⟩ := List.mem_map.mp hb
    exact hp.inverse.maps (hwhole p hmem)
  have hiv : ∀ iv ∈ config.fixedIv, iv.length = cipher.blockLen := by
    rw [(CipherChoice.lengths_of_adapter hp.adapter).2]
    exact ((hp.fits hmax hscan).2 (CipherChoice.not_stream_of_adapter hp.adapter) hmode).2
  obtain ⟨_, R, hblocks, _, hwindow⟩ := @Planted.windowHit_blocks crates dump oracles config c
    cipher o hp hmode _ (by simpa [Modes.ecbEncrypt] using hne) hcs hiv
  have hback := Modes.ecbDecrypt_ecbEncrypt hp.inverse hwhole
  have hplain : R.ecbPlain (cipher.decryption (Bytes.slice dump o cipher.keyLen)) = ps.flatten := by
    rw [BlockRequest.ecbPlain, hblocks, hback]
  have hhead : R.ecbHead (cipher.decryption (Bytes.slice dump o cipher.keyLen)) =
      ps.flatten.take (2 * cipher.blockLen) := by
    rw [BlockRequest.ecbHead, hblocks, hback, Bytes.flatten_take hwhole]
    rfl
  have hverdict := @blockWindow_ecb_iff dump oracles config cipher c.label
    (Bytes.slice dump o cipher.keyLen, o) R
  rw [hplain, hhead] at hverdict
  rw [hp.hits_at hmax hscan, hwindow]
  exact hverdict

end Scans

/-- With the protobuf oracle alone, a message is found by keystream or as ECB exactly when its first
field is recognisable within the head that the oracle is given. -/
theorem protobuf_message_found_iff (crates : Crates) (dump ciphertext : Bytes)
    (config : ScanConfig) (c : CipherChoice) (o : Nat) (first : Field) (fields : List Field)
    (padding : Bytes) (r : ScanResult) (hc : c ∈ config.ciphers)
    (hinside : o + c.keyLen ≤ dump.length) (hmax : config.maxHits = 0)
    (hscan : scan crates dump ciphertext [protobufOracle] config = .ok r) :
    (∀ nonce, c.isStreamCipher = true ∨ config.mode ≠ .block → config.tag = none →
      config.nonce = some nonce →
      c.unmask crates config.mode (Bytes.slice dump o c.keyLen) nonce ciphertext =
        Protobuf.encode (first :: fields) ++ padding →
      ((∃ h ∈ r.hits, h.algo = c.label ∧ h.keyOffset = o ∧
          h.Shows (Protobuf.encode (first :: fields) ++ padding)) ↔ Recognisable 32 first)) ∧
    ∀ cipher ps, c.adapter crates = .ok cipher → config.mode = .block →
      (∀ p ∈ ps, p.length = cipher.blockLen) →
      ps.flatten = Protobuf.encode (first :: fields) ++ padding →
      ciphertext = (Modes.ecbEncrypt
        (cipher.encryption (Bytes.slice dump o cipher.keyLen)) ps).flatten →
      ((∃ h ∈ r.hits, h.algo = c.label ∧ h.keyOffset = o ∧ h.mode = .ecb ∧
          h.Reports (Protobuf.encode (first :: fields) ++ padding)) ↔
        Recognisable (2 * cipher.blockLen) first) := by
  have hvalid := (admitted_of_scan hscan).valid
  have htext : Protobuf.encode (first :: fields) ++ padding =
      first.encode ++ (Protobuf.encode fields ++ padding) := List.append_assoc ..
  constructor
  · intro nonce hneeds htag hnonce hmessage
    rw [hits_at hmax hscan hc, and_iff_right hinside,
      windowHit_recovers hvalid hc hneeds (Bytes.length_slice hinside), ← hmessage,
      recovers_masked_iff htag hnonce, hmessage, htext]
    exact accepts_protobuf_iff first _ (by omega) (by omega)
  · intro cipher ps hadapter hmode hwhole hflat hcipher
    obtain ⟨hkey, hblock⟩ := CipherChoice.lengths_of_adapter hadapter
    have hplanted : Planted crates dump config c cipher o := ⟨hc, hadapter, hkey ▸ hinside⟩
    have hne : ps ≠ [] := by
      rintro rfl
      obtain ⟨k, bs, henc, _⟩ := Protobuf.varint_first first.key
      rw [htext, Field.encode, henc] at hflat
      cases hflat
    subst hcipher
    rw [← hflat, hplanted.ecb_hit_iff hmax hmode hne hwhole hscan, hflat, htext]
    have hsizes := c.blockLen_cases
    exact accepts_protobuf_iff first _ (by omega) (by omega)

/-- One field with three bytes in it, and padding up to a block. -/
def greetingField : Field := ⟨1, .delimited (ascii "abc") (by decide), by decide⟩

def greetingBlock : Bytes := Protobuf.encode [greetingField] ++ List.replicate 11 11

theorem protobuf_message_found_iff_sample : ∃ r,
    scan sampleCrates sampleKey greetingBlock [protobufOracle] sampleConfig = .ok r ∧
    ∃ h ∈ r.hits, h.algo = "aes-128" ∧ h.keyOffset = 0 ∧ h.mode = .ecb ∧ h.Reports greetingBlock := by
  have hcount : (scan sampleCrates sampleKey greetingBlock [protobufOracle] sampleConfig).map
      (fun r => r.hits.length) = .ok 1 := by decide +kernel
  obtain ⟨r, hr, _⟩ := ok_of_map hcount
  refine ⟨r, hr, ((protobuf_message_found_iff sampleCrates sampleKey greetingBlock sampleConfig
    .aes128 0 greetingField [] (List.replicate 11 11) r (by decide) (by decide) rfl hr).2
    (aes128 sampleCrates) [greetingBlock] rfl rfl (by decide +kernel) (by decide +kernel)
    (by decide +kernel)).mpr ?_⟩
  exact ⟨by decide, ascii "abc", by decide, rfl, by decide, by decide⟩

end Memhunt
