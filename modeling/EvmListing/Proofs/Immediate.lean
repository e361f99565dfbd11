import EvmListing.Proofs.Decoder.Pass
import Mathlib.Algebra.BigOperators.Fin
import Mathlib.Tactic.Ring

/-! Immediates as numbers. A word takes the bytes of an immediate in as the number that they spell,
and an instruction gives its operand out in as many bytes as its opcode carries. -/
namespace EvmListing

/-- A byte in front stands at the highest place. -/
theorem bigEndian_cons (b : UInt8) (bs : Bytes) :
    bigEndian (b :: bs) = b.toNat * 256^bs.length + bigEndian bs := by
  induction bs using List.reverseRecOn with
  | nil => simp [bigEndian]
  | append_singleton bs c ih =>
    calc bigEndian (b :: (bs ++ [c]))
        = 256*bigEndian (b :: bs) + c.toNat := bigEndian_concat (b :: bs) c
      _ = b.toNat * (256^bs.length * 256) + (256*bigEndian bs + c.toNat) := by rw [ih]; ring
      _ = b.toNat * 256^(bs ++ [c]).length + bigEndian (bs ++ [c]) := by
        rw [bigEndian_concat, List.length_append, List.length_singleton, Nat.pow_succ]

/-- Each byte counts for its place. -/
theorem bigEndian_eq_sum (bs : Bytes) :
    bigEndian bs = ∑ i : Fin bs.length, bs[i].toNat * 256^(bs.length - 1 - i) := by
  induction bs with
  | nil => rfl
  | cons b bs ih =>
    have hplace (i : Nat) : bs.length + 1 - 1 - (i + 1) = bs.length - 1 - i := by omega
    change _ = ∑ i : Fin (bs.length + 1), (b :: bs)[i].toNat * 256^(bs.length + 1 - 1 - i)
    rw [bigEndian_cons, ih, Fin.sum_univ_succ]
    simp only [Fin.val_succ, hplace]
    rfl

/-- Immediates survive in words. Up to 32 bytes go in without the loss of a bit, any word comes out
in the width of the opcode, and bytes of this width come out as they went in, leading zeros
included. -/
theorem immediates_survive_words :
    (∀ bs : Bytes, bs.length ≤ 32 →
      (Word.ofBytes bs).toNat = ∑ i : Fin bs.length, bs[i].toNat * 256^(bs.length - 1 - i) ∧
      ∀ n < bs.length,
        (Word.ofBytes (bs.take n) <<< 8).toNat = 2^8 * (Word.ofBytes (bs.take n)).toNat) ∧
    (∀ (i : Instruction) (v : Word), i.operand = some v →
      ∃ bs, i.immediate = some bs ∧ bs.length = i.width ∧ bigEndian bs = v.toNat % 256^i.width ∧
        (i.width = 0 → bs = [])) ∧
    ∀ (i : Instruction) (bs : Bytes), bs.length = i.width → i.operand = some (Word.ofBytes bs) →
      i.immediate = some bs := by
  refine ⟨fun bs hbs => ⟨?_, fun n hn => ?_⟩, fun i v hv => ?_, fun i bs full hi => ?_⟩
  · rw [Word.toNat_ofBytes hbs, bigEndian_eq_sum]
  · apply Word.toNat_ofBytes_shift
    rw [List.length_take]
    omega
  · refine ⟨_, Instruction.immediate_eq hv, toBigEndian_length _ _, bigEndian_toBigEndian _ _, ?_⟩
    intro hw
    rw [hw, toBigEndian]
  · exact Instruction.immediate_ofBytes full hi

/-- All 256 bits in use, a word too wide for its opcode, and zeros in front. -/
theorem immediates_survive_words_edge :
    (Word.ofBytes (List.replicate 32 0xFF)).toNat = 2^256 - 1 ∧
    (Word.ofBytes (List.replicate 31 0xFF) <<< 8).toNat = 2^256 - 2^8 ∧
    (∃ bs, (⟨1, 0x61, "PUSH2", some 0x1FFFE⟩ : Instruction).immediate = some bs ∧
      bs.length = 2 ∧ bigEndian bs = 0xFFFE) ∧
    (⟨5, 0x63, "PUSH4", some (Word.ofBytes [0x00, 0x00, 0x01, 0x02])⟩ : Instruction).immediate =
      some [0x00, 0x00, 0x01, 0x02] := by
  obtain ⟨taken, given, back⟩ := immediates_survive_words
  obtain ⟨value, unshifted⟩ := taken (List.replicate 32 0xFF) (by decide)
  obtain ⟨bs, hbs, hlength, hvalue, -⟩ :=
    given ⟨1, 0x61, "PUSH2", some 0x1FFFE⟩ 0x1FFFE rfl
  refine ⟨value.trans ?_, (unshifted 31 (by decide)).trans ?_, ⟨bs, hbs, hlength, hvalue.trans ?_⟩,
    back _ _ ?_ rfl⟩
  · decide +kernel
  · decide +kernel
  · decide
  · decide

end EvmListing
