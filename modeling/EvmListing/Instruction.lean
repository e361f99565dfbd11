import EvmListing.Hex
import EvmListing.Opcode
import EvmListing.Word

/-! One decoded instruction: where it ends, its opcode and name, and its immediate as a number. -/
namespace EvmListing

/-- The address is that of the byte after the instruction, immediate bytes included. -/
structure Instruction where
  address : Nat
  opcode : UInt8
  mnemonic : String
  operand : Option Word
  deriving DecidableEq, Repr

namespace Instruction

/-- The number of immediate bytes that its opcode carries. -/
def width (i : Instruction) : Nat := (Opcode.entry i.opcode).width

/-- The place of the opcode byte, or 0 if the address leaves no room for the instruction. -/
def offset (i : Instruction) : Nat := i.address - (1 + i.width)

/-- The immediate in the width of its opcode. -/
def immediate (i : Instruction) : Option Bytes := i.operand.map (Word.lowBytes i.width)

/-- The operand as hex without leading zeros. -/
def operandText (w : Word) : String := Hex.ofNat w.toNat

def text (i : Instruction) : String :=
  let head := toString i.address ++ " " ++ i.mnemonic
  match i.operand with
  | some w => head ++ " " ++ operandText w
  | none => head

/-- The bytes that the instruction was decoded from. -/
def bytes (i : Instruction) : Bytes := i.opcode :: i.immediate.getD []

end Instruction
end EvmListing
