import EvmListing.Proofs.Decoder.Pass

/-! Decoding loses nothing: the bytes of the instructions, followed by what the fault tells of the
bytes it stopped at, are the code. -/
namespace EvmListing

/-- The bytes of all instructions of a listing, in order. -/
def Listing.decoded (l : Listing) : Bytes := l.instructions.flatMap Instruction.bytes

/-- How decoded bytes and the fault after them, if there is one, make up a code. A fault lies where
the decoded bytes end. -/
def Decoder.Accounts (code decoded : Bytes) : Option Fault → Prop
  | none => decoded = code
  | some (.truncated opcode _ offset _ available) =>
    decoded ++ opcode :: available = code ∧ offset = decoded.length
  | some (.unassigned opcode offset) =>
    decoded ++ code.drop offset = code ∧ (code.drop offset).head? = some opcode ∧
      offset = decoded.length

namespace Decoder

/-- The bytes before the place where a pass starts count as decoded. -/
lemma Pass.accounts {policy : Policy} {pc : Nat} {rest : Bytes} {l : Listing}
    (h : Pass policy pc rest l) (before : Bytes) (hb : before.length = pc) :
    Accounts (before ++ rest) (before ++ l.decoded) l.fault := by
  induction h generalizing before with
  | finished pc => simp [Accounts, Listing.decoded]
  | unassigned pc rest refused => simp [Accounts, Listing.decoded, ← hb]
  | truncated pc accepted cut => simp [Accounts, Listing.decoded, hb]
  | @instruction pc opcode immediate rest l accepted full more ih =>
    have hlen : (before ++ opcode :: immediate).length = pc + 1 + immediate.length := by
      simp only [List.length_append, List.length_cons, hb]
      omega
    simpa [Listing.decoded, full] using ih (before ++ opcode :: immediate) hlen

end Decoder

/-- Every byte of a code is in an instruction or at the fault that ended the pass. -/
theorem decodePartial_accounts (policy : Policy) (code : Bytes) :
    Decoder.Accounts code (decodePartial policy code).decoded (decodePartial policy code).fault :=
  (pass_decodePartial policy code).accounts [] rfl

example : (decodePartial .reject [0x61, 0x00, 0x01, 0x0C, 0x00]).decoded = [0x61, 0x00, 0x01] := by
  decide

end EvmListing
