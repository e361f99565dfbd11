import EvmListing.Decoder.Basic

/-! The outcome of a decoding pass over a whole code: the instructions read, and the fault that
ended the pass before the end of the code, if one did. -/
namespace EvmListing

structure Listing where
  instructions : List Instruction
  fault : Option Decoder.Fault
  deriving DecidableEq, Repr

namespace Listing

/-- The instructions before the first fault, and that fault. -/
def ofItems : List Decoder.Item → Listing
  | [] => ⟨[], none⟩
  | .error fault :: _ => ⟨[], some fault⟩
  | .ok instruction :: items =>
    let l := ofItems items
    ⟨instruction :: l.instructions, l.fault⟩

@[simp] theorem ofItems_nil : ofItems [] = ⟨[], none⟩ := rfl

@[simp] theorem ofItems_error (f : Decoder.Fault) (items : List Decoder.Item) :
    ofItems (.error f :: items) = ⟨[], some f⟩ := rfl

@[simp] theorem ofItems_ok (i : Instruction) (items : List Decoder.Item) :
    ofItems (.ok i :: items) = ⟨i :: (ofItems items).instructions, (ofItems items).fault⟩ := rfl

/-- One line for each instruction. -/
def text (instructions : List Instruction) : String :=
  String.join (instructions.map fun i => i.text ++ "\n")

end Listing

/-- Decodes as far as possible. -/
def decodePartial (policy : Policy) (code : Bytes) : Listing :=
  Listing.ofItems (Decoder.start policy code).items

/-- Decodes a whole code or fails with the first fault; unassigned bytes are no fault. -/
def decode (code : Bytes) : Except Decoder.Fault (List Instruction) :=
  Decoder.collect (Decoder.start .sentinel code).items

example : (decodePartial .sentinel [0x60, 0x01, 0x00]).instructions.map Instruction.text =
    ["2 PUSH1 0x1", "3 STOP"] := by decide

end EvmListing
