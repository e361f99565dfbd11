import EvmListing.Proofs.Decoder.Accounting

/-! Decoding can stop and go on. What is listed of the front of a code stays when bytes are added,
and what comes after it is the listing of the bytes that were left, with all places moved. -/
namespace EvmListing

/-- The same instruction, further along in a code. -/
def Instruction.shift (k : Nat) (i : Instruction) : Instruction :=
  { i with address := k + i.address }

def Decoder.Fault.shift (k : Nat) : Fault → Fault
  | unassigned opcode offset => unassigned opcode (k + offset)
  | truncated opcode mnemonic offset expected available =>
    truncated opcode mnemonic (k + offset) expected available

namespace Listing

def shift (k : Nat) (l : Listing) : Listing :=
  ⟨l.instructions.map (Instruction.shift k), l.fault.map (Decoder.Fault.shift k)⟩

/-- A listing that goes on with another one, where its own fault is made up for. -/
def followedBy (l more : Listing) : Listing := ⟨l.instructions ++ more.instructions, more.fault⟩

end Listing

@[simp] theorem Instruction.shift_ofCode (k pc : Nat) (opcode : UInt8) (immediate : Bytes) :
    (ofCode pc opcode immediate).shift k = ofCode (k + pc) opcode immediate := by
  simp only [shift, ofCode, Nat.add_assoc]

namespace Decoder
variable {policy : Policy} {pc : Nat} {a b bytes : Bytes} {l more : Listing}

/-- What a pass lists depends on the bytes it reads and not on where they stand. -/
lemma Pass.shift (h : Pass policy pc bytes l) (k : Nat) :
    Pass policy (k + pc) bytes (l.shift k) := by
  induction h with
  | finished pc => exact .finished (k + pc)
  | unassigned pc rest refused => exact .unassigned (k + pc) rest refused
  | truncated pc accepted cut => exact .truncated (k + pc) accepted cut
  | @instruction pc opcode immediate rest l accepted full _ ih =>
    have hpc : k + (pc + 1 + immediate.length) = k + pc + 1 + immediate.length := by omega
    rw [hpc] at ih
    simpa [Listing.shift] using Pass.instruction accepted full ih

/-- The bytes at a fault that more bytes can turn into an instruction. -/
def unread : Option Fault → Bytes
  | some (.truncated opcode _ _ _ available) => opcode :: available
  | _ => []

/-- Unless its fault is final, a pass over the front of some bytes is the front of the pass over all
of them. The induction carries the place where the second pass starts. -/
lemma Pass.resume (h : Pass policy pc a l)
    (hopen : ∀ opcode offset, l.fault ≠ some (.unassigned opcode offset))
    (hmore : Pass policy (pc + l.decoded.length) (unread l.fault ++ b) more) :
    Pass policy pc (a ++ b) (l.followedBy more) := by
  induction h with
  | finished pc => simpa [unread, Listing.decoded, Listing.followedBy] using hmore
  | unassigned pc rest refused => exact absurd rfl (hopen _ pc)
  | truncated pc accepted cut =>
    simpa [unread, Listing.decoded, Listing.followedBy] using hmore
  | @instruction pc opcode immediate rest l accepted full _ ih =>
    have hplace : pc + (Listing.mk (.ofCode pc opcode immediate :: l.instructions)
        l.fault).decoded.length = pc + 1 + immediate.length + l.decoded.length := by
      simp only [Listing.decoded, List.flatMap_cons, Instruction.ofCode_bytes pc full,
        List.length_append, List.length_cons]
      omega
    rw [hplace] at hmore
    rw [List.cons_append, List.append_assoc]
    exact .instruction accepted full (ih hopen hmore)

/-- A refused opcode ends a pass whatever comes after it. -/
lemma Pass.append_of_unassigned (h : Pass policy pc a l) {opcode : UInt8} {offset : Nat}
    (hl : l.fault = some (.unassigned opcode offset)) (b : Bytes) : Pass policy pc (a ++ b) l := by
  induction h with
  | finished pc => cases hl
  | unassigned pc rest refused => exact .unassigned pc (rest ++ b) refused
  | truncated pc accepted cut => cases hl
  | instruction accepted full _ ih =>
    rw [List.cons_append, List.append_assoc]
    exact .instruction accepted full (ih hl)

end Decoder

open Decoder

lemma decodePartial_append_of_complete {policy : Policy} {a : Bytes}
    (h : (decodePartial policy a).fault = none) (b : Bytes) :
    decodePartial policy (a ++ b) =
      (decodePartial policy a).followedBy ((decodePartial policy b).shift a.length) := by
  have hpass := pass_decodePartial policy a
  have hall : (decodePartial policy a).decoded = a := by
    have haccounts := hpass.accounts [] rfl
    rwa [h] at haccounts
  have hmore := (pass_decodePartial policy b).shift a.length
  refine decodePartial_eq_iff.mpr (hpass.resume (by simp [h]) ?_)
  simpa [unread, h, hall] using hmore

lemma decodePartial_append_of_truncated {policy : Policy} {a : Bytes} {opcode : UInt8}
    {mnemonic : String} {offset expected : Nat} {available : Bytes}
    (h : (decodePartial policy a).fault =
      some (.truncated opcode mnemonic offset expected available)) (b : Bytes) :
    decodePartial policy (a ++ b) = (decodePartial policy a).followedBy
      ((decodePartial policy (a.drop offset ++ b)).shift offset) := by
  have hpass := pass_decodePartial policy a
  obtain ⟨hall, hoffset⟩ : (decodePartial policy a).decoded ++ opcode :: available = a ∧
      offset = (decodePartial policy a).decoded.length := by
    have haccounts := hpass.accounts [] rfl
    rwa [h] at haccounts
  have hleft : a.drop offset = opcode :: available := calc
    a.drop offset = ((decodePartial policy a).decoded ++ opcode :: available).drop
        (decodePartial policy a).decoded.length := by rw [hall, hoffset]
    _ = opcode :: available := List.drop_left
  have hmore := (pass_decodePartial policy (a.drop offset ++ b)).shift offset
  refine decodePartial_eq_iff.mpr (hpass.resume (by simp [h]) ?_)
  simpa [unread, h, hleft, ← hoffset] using hmore

/-- Decoding a code in two parts agrees with decoding it at once: after a whole front the rest is
decoded on its own, after a cut push the push is read again with the bytes that were missing, and
after a refused opcode nothing changes. No instruction of the front is ever taken back. -/
theorem decodePartial_append (policy : Policy) (a b : Bytes) :
    let front := decodePartial policy a
    (front.fault = none → decodePartial policy (a ++ b) =
      front.followedBy ((decodePartial policy b).shift a.length)) ∧
    (∀ opcode offset, front.fault = some (.unassigned opcode offset) →
      decodePartial policy (a ++ b) = front) ∧
    (∀ opcode mnemonic offset expected available,
      front.fault = some (.truncated opcode mnemonic offset expected available) →
        decodePartial policy (a ++ b) =
          front.followedBy ((decodePartial policy (a.drop offset ++ b)).shift offset)) ∧
    front.instructions <+: (decodePartial policy (a ++ b)).instructions := by
  intro front
  have refused (opcode : UInt8) (offset : Nat)
      (h : front.fault = some (.unassigned opcode offset)) :
      decodePartial policy (a ++ b) = front :=
    decodePartial_eq_iff.mpr ((pass_decodePartial policy a).append_of_unassigned h b)
  refine ⟨fun h => decodePartial_append_of_complete h b, refused,
    fun _ _ _ _ _ h => decodePartial_append_of_truncated h b, ?_⟩
  cases hfault : front.fault with
  | none =>
    rw [decodePartial_append_of_complete hfault b]
    exact List.prefix_append _ _
  | some fault =>
    cases fault with
    | unassigned opcode offset =>
      have hsame := congrArg Listing.instructions (refused opcode offset hfault)
      exact hsame ▸ List.prefix_rfl
    | truncated opcode mnemonic offset expected available =>
      rw [decodePartial_append_of_truncated hfault b]
      exact List.prefix_append _ _

example : decodePartial .sentinel ([0x01, 0x61, 0xAA] ++ [0xBB]) =
    (decodePartial .sentinel [0x01, 0x61, 0xAA]).followedBy
      ((decodePartial .sentinel [0x61, 0xAA, 0xBB]).shift 1) := by decide

end EvmListing
