import EvmListing.Hex

/-! What can end a decoding pass before the code does. -/
namespace EvmListing.Decoder

/-- The offset is that of the opcode byte; `available` is what the code had of the immediate. -/
inductive Fault where
  | unassigned (opcode : UInt8) (offset : Nat)
  | truncated (opcode : UInt8) (mnemonic : String) (offset expected : Nat) (available : Bytes)
  deriving DecidableEq, Repr

namespace Fault

def offset : Fault → Nat
  | unassigned _ offset => offset
  | truncated _ _ offset _ _ => offset

/-- An opcode as two hex digits with the mark. -/
def byteText (b : UInt8) : String := Hex.encode [b]

/-- Bytes as two-digit hex numbers in a bracketed list. -/
def bytesText (bs : Bytes) : String :=
  "[" ++ ", ".intercalate (bs.map fun b => String.ofList (Hex.ofByte b)) ++ "]"

def message : Fault → String
  | unassigned opcode offset =>
    "Opcode desconhecido " ++ byteText opcode ++ " no offset " ++ toString offset
  | truncated opcode mnemonic offset expected available =>
    "Operando truncado: " ++ mnemonic ++ " (" ++ byteText opcode ++ ") no offset " ++
      toString offset ++ " espera " ++ toString expected ++ " bytes, disponíveis " ++
      bytesText available

end Fault
end EvmListing.Decoder
