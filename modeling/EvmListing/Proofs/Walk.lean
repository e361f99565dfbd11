import EvmListing.Walk
import EvmListing.Proofs.Decoder.Pass

/-! A walk sees what a lenient pass over the whole code lists, up to the first instruction that ends
execution. A fault behind that instruction goes unseen; without such an instruction the walk comes
to the end of the pass and shares its fault. -/
namespace EvmListing
open Walk

/-- Whether execution does not go on after an instruction. -/
def Instruction.Ends (i : Instruction) : Prop :=
  i.mnemonic ∈ ["STOP", "RETURN", "REVERT", "INVALID"]

instance : DecidablePred Instruction.Ends := fun _ => inferInstanceAs (Decidable (_ ∈ _))

/-- What a walk sees of a listing with the given fault. -/
def Listing.seen (fault : Option Decoder.Fault) : List Instruction → Listing
  | [] => ⟨[], fault⟩
  | i :: is =>
    if i.Ends then ⟨[i], none⟩
    else ⟨i :: (seen fault is).instructions, (seen fault is).fault⟩

namespace Listing

theorem seen_of_not_ends {fault : Option Decoder.Fault} {is : List Instruction}
    (h : ∀ i ∈ is, ¬i.Ends) : seen fault is = ⟨is, fault⟩ := by
  induction is with
  | nil => rfl
  | cons i is ih =>
    obtain ⟨hi, his⟩ := List.forall_mem_cons.mp h
    rw [seen, if_neg hi, ih his]

/-- Neither what comes after an instruction that ends execution nor the fault is seen. -/
theorem seen_append {before : List Instruction} (h : ∀ i ∈ before, ¬i.Ends) {last : Instruction}
    (hlast : last.Ends) (after : List Instruction) (fault : Option Decoder.Fault) :
    seen fault (before ++ last :: after) = ⟨before ++ [last], none⟩ := by
  induction before with
  | nil => exact if_pos hlast
  | cons i before ih =>
    obtain ⟨hi, hbefore⟩ := List.forall_mem_cons.mp h
    rw [List.cons_append, seen, if_neg hi, ih hbefore, List.cons_append]

end Listing

/-- A walk makes the steps of a lenient pass until an instruction ends execution. -/
theorem Decoder.Pass.upToEnd_eq {pc : Nat} {bytes : Bytes} {l : Listing}
    (h : Pass .sentinel pc bytes l) {bound : Nat} (hbound : bytes.length ≤ bound) :
    upToEnd bound ⟨.sentinel, pc, bytes⟩ = Listing.seen l.fault l.instructions := by
  induction h generalizing bound with
  | finished pc => cases bound <;> rfl
  | unassigned pc rest refused => exact absurd (Policy.sentinel_accepts _) refused
  | truncated pc accepted cut =>
    obtain ⟨bound, rfl⟩ := Nat.exists_eq_add_of_lt (Nat.lt_of_lt_of_le (Nat.succ_pos _) hbound)
    simp only [upToEnd, step_truncated accepted cut, Listing.seen]
  | @instruction pc opcode immediate rest l accepted full more ih =>
    obtain ⟨bound, rfl⟩ := Nat.exists_eq_add_of_lt (Nat.lt_of_lt_of_le (Nat.succ_pos _) hbound)
    have hrest : rest.length ≤ 0 + bound := by
      simp only [List.length_cons, List.length_append] at hbound
      omega
    simp only [upToEnd, step_instruction accepted full, Listing.seen, ih hrest]
    rfl

namespace Walk

theorem upToEnd_start (runtime : Bytes) :
    upToEnd runtime.length (Decoder.start .sentinel runtime) =
      Listing.seen (decodePartial .sentinel runtime).fault
        (decodePartial .sentinel runtime).instructions :=
  (pass_decodePartial .sentinel runtime).upToEnd_eq (Nat.le_refl _)

example : (run "walk" ["0x60006161"]).exit = 1 ∧ (run "walk" ["0x6000006161"]).exit = 0 := by decide

end Walk
end EvmListing
