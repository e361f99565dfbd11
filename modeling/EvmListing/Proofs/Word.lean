import EvmListing.Word
import Mathlib.Data.List.Induction

/-! Numbers, words and the byte strings that spell them determine each other, as long as the width
suffices: taking bytes into a word loses none of them, leading zeros included. -/
namespace EvmListing

theorem bigEndian_lt (bs : Bytes) : bigEndian bs < 256^bs.length := by
  induction bs using List.reverseRecOn with
  | nil => simp
  | append_singleton bs b ih =>
    have hb := b.toNat_lt
    rw [bigEndian_concat, List.length_append, List.length_singleton, Nat.pow_succ]
    omega

/-- A byte string is the spelling of its number in its own width. -/
theorem toBigEndian_bigEndian (bs : Bytes) : toBigEndian bs.length (bigEndian bs) = bs := by
  induction bs using List.reverseRecOn with
  | nil => rfl
  | append_singleton bs b ih =>
    have hb := b.toNat_lt
    have hdiv : (256*bigEndian bs + b.toNat) / 256 = bigEndian bs := by omega
    have hmod : (256*bigEndian bs + b.toNat) % 256 = b.toNat := by omega
    rw [bigEndian_concat, List.length_append, List.length_singleton, toBigEndian, hdiv, hmod, ih]
    simp

theorem bigEndian_toBigEndian_of_lt {width n : Nat} (h : n < 256^width) :
    bigEndian (toBigEndian width n) = n := by
  rw [bigEndian_toBigEndian, Nat.mod_eq_of_lt h]

/-- Without its first bytes a field is the narrower field of the same number. -/
theorem drop_toBigEndian (k width n : Nat) :
    (toBigEndian (k + width) n).drop k = toBigEndian width n := by
  induction width generalizing n with
  | zero => simp [toBigEndian]
  | succ width ih =>
    rw [Nat.add_succ, toBigEndian, List.drop_append_of_le_length (by simp), ih, toBigEndian]

namespace Word

/-- A byte goes in below, and what moves out at the top is lost. -/
lemma toNat_push (w : Word) (b : UInt8) :
    (push w b).toNat = (256*w.toNat + b.toNat) % 2^256 := by
  have hb : b.toNat < 2^8 := b.toNat_lt
  have hshift : (w <<< 8).toNat = 2^8 * (w.toNat % 2^248) := by
    rw [BitVec.toNat_shiftLeft, Nat.shiftLeft_eq]
    omega
  have hset : (b.toBitVec.setWidth 256).toNat = b.toNat :=
    BitVec.toNat_setWidth_of_le (by decide)
  -- The byte goes where the shift has left zeros, so that joining is adding.
  rw [push, BitVec.toNat_or, hshift, hset, ← Nat.two_pow_add_eq_or_of_lt hb]
  omega

/-- However many bytes go in, a word keeps the last 32 of them. -/
theorem toNat_ofBytes_mod (bs : Bytes) : (ofBytes bs).toNat = bigEndian bs % 2^256 := by
  induction bs using List.reverseRecOn with
  | nil => rfl
  | append_singleton bs b ih =>
    rw [ofBytes_concat, toNat_push, ih, bigEndian_concat]
    omega

example : ofBytes (0x01 :: List.replicate 32 0x00) = 0 := by decide

/-- Up to 32 bytes the word is the number that they spell. -/
theorem toNat_ofBytes {bs : Bytes} (h : bs.length ≤ 32) : (ofBytes bs).toNat = bigEndian bs := by
  have hlt : bigEndian bs < 256^32 :=
    Nat.lt_of_lt_of_le (bigEndian_lt bs) (Nat.pow_le_pow_right (by decide) h)
  rw [toNat_ofBytes_mod, Nat.mod_eq_of_lt hlt]

/-- Up to 32 bytes no bit is moved out: before each goes in, the top byte of the word is zero. -/
lemma toNat_ofBytes_shift {bs : Bytes} (h : bs.length < 32) :
    (ofBytes bs <<< 8).toNat = 2^8 * (ofBytes bs).toNat := by
  have hlt : bigEndian bs < 256^31 :=
    Nat.lt_of_lt_of_le (bigEndian_lt bs) (Nat.pow_le_pow_right (by decide) (by omega))
  rw [BitVec.toNat_shiftLeft, Nat.shiftLeft_eq, toNat_ofBytes (Nat.le_of_lt h)]
  omega

theorem lowBytes_eq {n : Nat} (h : n ≤ 32) (w : Word) : lowBytes n w = toBigEndian n w.toNat := by
  obtain ⟨k, hk⟩ := Nat.exists_eq_add_of_le' h
  rw [lowBytes, toBytes, hk, Nat.add_sub_cancel, drop_toBigEndian]

/-- The low bytes of the word that a byte string spells are the byte string. -/
theorem lowBytes_ofBytes {bs : Bytes} (h : bs.length ≤ 32) :
    lowBytes bs.length (ofBytes bs) = bs := by
  rw [lowBytes_eq h, toNat_ofBytes h, toBigEndian_bigEndian]

/-- Byte strings of one length that fit a word spell different words. -/
theorem ofBytes_injOn {bs cs : Bytes} (h : bs.length ≤ 32) (hlen : bs.length = cs.length)
    (heq : ofBytes bs = ofBytes cs) : bs = cs := by
  rw [← lowBytes_ofBytes h, heq, hlen, lowBytes_ofBytes (hlen ▸ h)]

/-- A word that fits a field is the one that the field spells. -/
theorem ofBytes_toBigEndian {n : Nat} (hn : n ≤ 32) {w : Word} (hw : w.toNat < 256^n) :
    ofBytes (toBigEndian n w.toNat) = w := by
  apply BitVec.eq_of_toNat_eq
  rw [toNat_ofBytes (by simpa using hn), bigEndian_toBigEndian_of_lt hw]

end Word
end EvmListing
