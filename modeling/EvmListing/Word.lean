import EvmListing.Bytes

/-! The 256-bit words of the machine, taken in and given out byte by byte. -/
namespace EvmListing

abbrev Word := BitVec 256

namespace Word

/-- Moves a word up by one byte and puts a new byte below. -/
def push (w : Word) (b : UInt8) : Word := (w <<< 8) ||| b.toBitVec.setWidth 256

/-- The word that at most 32 bytes spell, most significant byte first. -/
def ofBytes (bs : Bytes) : Word := bs.foldl push 0

@[simp] theorem ofBytes_nil : ofBytes [] = 0 := rfl

@[simp] theorem ofBytes_concat (bs : Bytes) (b : UInt8) :
    ofBytes (bs ++ [b]) = push (ofBytes bs) b := by simp [ofBytes]

/-- The 32 bytes of a word, most significant byte first. -/
def toBytes (w : Word) : Bytes := toBigEndian 32 w.toNat

@[simp] theorem toBytes_length (w : Word) : (toBytes w).length = 32 := by simp [toBytes]

/-- The last `n` of the 32 bytes. -/
def lowBytes (n : Nat) (w : Word) : Bytes := (toBytes w).drop (32 - n)

example : ofBytes [0x01, 0x02] = 258 := by decide
example : lowBytes 3 258 = [0x00, 0x01, 0x02] := by decide

end Word
end EvmListing
