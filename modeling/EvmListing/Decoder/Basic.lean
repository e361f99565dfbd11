import EvmListing.Decoder.Fault
import EvmListing.Instruction

/-! A decoder walks a code from its first byte to its last. It yields one item per opcode, and a
fault ends the walk. -/
namespace EvmListing

/-- What becomes of a byte without an assigned opcode. -/
inductive Policy where
  /-- It is decoded as an instruction named `UNKNOWN`. -/
  | sentinel
  /-- It is a fault. -/
  | reject
  deriving DecidableEq, Repr

/-- A place in a code. After a fault nothing is left to read, wherever the place is. -/
structure Decoder where
  policy : Policy
  pc : Nat
  rest : Bytes
  deriving DecidableEq, Repr

namespace Decoder

abbrev Item := Except Fault Instruction

/-- A decoder at the start of a code. -/
def start (policy : Policy) (code : Bytes) : Decoder := ⟨policy, 0, code⟩

/-- The next item and the decoder after it. -/
def step (d : Decoder) : Option (Item × Decoder) :=
  match d.rest with
  | [] => none
  | opcode :: rest =>
    let entry := Opcode.entry opcode
    if entry.assigned = false ∧ d.policy = .reject then
      some (.error (.unassigned opcode d.pc), { d with pc := d.pc + 1, rest := [] })
    else
      let immediate := rest.take entry.width
      let after := d.pc + 1 + immediate.length
      if immediate.length < entry.width then
        some (.error (.truncated opcode entry.mnemonic d.pc entry.width immediate),
          { d with pc := after, rest := [] })
      else
        let operand := if entry.width = 0 then none else some (Word.ofBytes immediate)
        some (.ok ⟨after, opcode, entry.mnemonic, operand⟩,
          { d with pc := after, rest := rest.drop entry.width })

/-- Takes up to the given number of items. -/
def take : Nat → Decoder → List Item × Decoder
  | 0, d => ([], d)
  | n+1, d =>
    match d.step with
    | none => ([], d)
    | some (item, d) =>
      let more := d.take n
      (item :: more.1, more.2)

/-- All items that are left. Each takes at least one byte, so there are no more items than bytes. -/
def drain (d : Decoder) : List Item × Decoder := d.take d.rest.length

def items (d : Decoder) : List Item := d.drain.1

def next (d : Decoder) : Option Item × Decoder :=
  let taken := d.take 1
  (taken.1[0]?, taken.2)

/-- Skips `n` items, faults included, and gives the one after them. -/
def nth (n : Nat) (d : Decoder) : Option Item × Decoder :=
  let taken := d.take (n + 1)
  (taken.1[n]?, taken.2)

/-- The instructions among the items, or the first fault. -/
def collect : List Item → Except Fault (List Instruction)
  | [] => .ok []
  | .error fault :: _ => .error fault
  | .ok instruction :: items => (collect items).map (instruction :: ·)

@[simp] theorem step_nil (policy : Policy) (pc : Nat) : step ⟨policy, pc, []⟩ = none := rfl

@[simp] theorem take_zero (d : Decoder) : d.take 0 = ([], d) := rfl

end Decoder
end EvmListing
