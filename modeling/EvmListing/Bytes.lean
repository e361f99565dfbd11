import EvmListing.Power

/-! Byte strings and the numbers they spell, most significant byte first. -/
namespace EvmListing

abbrev Bytes := List UInt8

/-- The number a byte string spells, most significant byte first. -/
def bigEndian (bs : Bytes) : Nat := bs.foldl (fun n b => 256*n + b.toNat) 0

@[simp] theorem bigEndian_nil : bigEndian [] = 0 := rfl

@[simp] theorem bigEndian_concat (bs : Bytes) (b : UInt8) :
    bigEndian (bs ++ [b]) = 256*bigEndian bs + b.toNat := by simp [bigEndian]

/-- The bytes of a number in a field of the given width. What does not fit is dropped. -/
def toBigEndian : Nat → Nat → Bytes
  | 0, _ => []
  | width+1, n => toBigEndian width (n / 256) ++ [UInt8.ofNat (n % 256)]

@[simp] theorem toBigEndian_length (width n : Nat) : (toBigEndian width n).length = width := by
  induction width generalizing n with
  | zero => rfl
  | succ width ih => simp [toBigEndian, ih]

theorem bigEndian_toBigEndian (width n : Nat) :
    bigEndian (toBigEndian width n) = n % 256^width := by
  induction width generalizing n with
  | zero => simp [toBigEndian, Nat.mod_one]
  | succ width ih =>
    simp only [toBigEndian, bigEndian_concat, ih, Nat.pow_succ', Nat.mod_mul]
    simp
    omega

example : bigEndian [0x01, 0x02] = 258 := by decide
example : toBigEndian 3 258 = [0x00, 0x01, 0x02] := by decide

end EvmListing
