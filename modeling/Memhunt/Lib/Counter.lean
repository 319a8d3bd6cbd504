import Memhunt.Lib.Bytes
import Memhunt.Lib.Modes

/-! Counter mode as the loop that computes it, for any way to step the counter, and the function
`GCTR` of GCM. -/
namespace Modes

variable {β γ : Type}

/-- Each piece of the text is masked with the block of its counter, and the counter stepped. -/
def counterChain (E : γ → List β) (next : γ → γ) (mask : β → β → β) : γ → List (List β) → List β
  | _, [] => []
  | c, x :: xs => List.zipWith mask x (E c) ++ counterChain E next mask (next c) xs

theorem counterChain_chunks [Inhabited β] {n : Nat} (hn : 0 < n) {E : γ → List β} {next : γ → γ}
    (mask : β → β → β) {c : γ} (hE : ∀ i, (E (next^[i] c)).length = n) (text : List β) :
    counterChain E next mask c (Bytes.chunks n text) =
      counterMode (blockStream n fun i => E (next^[i] c)) mask text := by
  induction hlen : text.length using Nat.strongRecOn generalizing text c with
  | ind m ih =>
      subst hlen
      by_cases hne : text = []
      · subst hne
        simp only [Bytes.chunks_nil hn, counterChain, counterMode, List.mapIdx_nil]
      · have hshort : (text.drop n).length < text.length := by
          have := List.length_pos_iff.mpr hne
          rw [List.length_drop]
          omega
        have hrest := ih _ hshort (fun i => hE (i + 1)) (text.drop n) rfl
        rw [Bytes.chunks_cons hn hne, counterChain, hrest, counterMode_blockStream hn hE]
        rfl

end Modes

/-! GCM by its standard, for an initial value of 96 bits. -/
namespace Gcm

theorem length_inc32 (x : Block 16) :
    (x.val.take 12 ++ Bytes.toBE 4 ((Bytes.fromBE (x.val.drop 12) + 1) % 2 ^ 32)).length = 16 := by
  simp

/-- The last 32 bits of a block, plus one. -/
def inc32 (x : Block 16) : Block 16 :=
  ⟨x.val.take 12 ++ Bytes.toBE 4 ((Bytes.fromBE (x.val.drop 12) + 1) % 2 ^ 32), length_inc32 x⟩

def j0 (iv : Block 12) : Block 16 := ⟨iv.val ++ [0, 0, 0, 1], by simp⟩

def gctr (E : Block 16 → Block 16) (icb : Block 16) (text : Bytes) : Bytes :=
  Modes.counterChain (fun cb => (E cb).val) inc32 (· ^^^ ·) icb (Bytes.chunks 16 text)

theorem inc32_append {iv : Bytes} {v : Nat} {x : Block 16} (hiv : iv.length = 12)
    (hx : x.val = iv ++ Bytes.toBE 4 v) :
    (inc32 x).val = iv ++ Bytes.toBE 4 ((v + 1) % 2 ^ 32) := by
  have hmod : (v % 256 ^ 4 + 1) % 2 ^ 32 = (v + 1) % 2 ^ 32 := by omega
  simp only [inc32, hx, List.take_left' hiv, List.drop_left' hiv, Bytes.fromBE_toBE, hmod]

/-- The counters of a message: the initial value, and a number of 32 bits that starts at 2. -/
theorem counters (iv : Block 12) (i : Nat) :
    (inc32^[i] (inc32 (j0 iv))).val = iv.val ++ Bytes.toBE 4 ((2 + i) % 2 ^ 32) := by
  induction i with
  | zero => exact inc32_append iv.length_val (v := 1) rfl
  | succ i ih =>
      have hnext : ((2 + i) % 2 ^ 32 + 1) % 2 ^ 32 = (2 + (i + 1)) % 2 ^ 32 := by omega
      rw [Function.iterate_succ_apply', inc32_append iv.length_val ih, hnext]

theorem gctr_eq (E : Block 16 → Block 16) (icb : Block 16) (text : Bytes) :
    gctr E icb text =
      Modes.counterMode (Modes.blockStream 16 fun i => (E (inc32^[i] icb)).val) (· ^^^ ·) text :=
  Modes.counterChain_chunks (E := fun cb => (E cb).val) (Nat.succ_pos 15) _
    (fun i => (E (inc32^[i] icb)).length_val) text

end Gcm
