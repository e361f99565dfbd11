import EvmListing.Proofs.Decoder.Pass
import Mathlib.Data.List.Basic
import Mathlib.Data.Set.Function

/-! Programs as lists of operations, and the code they assemble to. Decoding gives each operation
back as one instruction, and the codes that decode as a whole are exactly the assembled ones. -/
namespace EvmListing

/-- Whether an operand is one that an opcode can carry: none without immediate bytes, and else a
number that they have room for. -/
def Opcode.Carries (opcode : UInt8) : Option Word → Prop
  | none => (entry opcode).width = 0
  | some v => 0 < (entry opcode).width ∧ v.toNat < 256^(entry opcode).width

/-- An opcode with its operand. -/
@[ext]
structure Operation where
  opcode : UInt8
  operand : Option Word
  carries : Opcode.Carries opcode operand

namespace Operation

def width (o : Operation) : Nat := (Opcode.entry o.opcode).width

/-- The operand in the bytes that follow the opcode. -/
def immediate (o : Operation) : Bytes :=
  match o.operand with
  | none => []
  | some v => toBigEndian o.width v.toNat

def assemble (os : List Operation) : Bytes := os.flatMap fun o => o.opcode :: o.immediate

/-- The instructions of a program that starts at a place. Each address adds the size of its
operation to the place where that starts. -/
def instructionsFrom : Nat → List Operation → List Instruction
  | _, [] => []
  | pc, o :: os =>
    let address := pc + (1 + o.width)
    ⟨address, o.opcode, (Opcode.entry o.opcode).mnemonic, o.operand⟩ :: instructionsFrom address os

@[simp] theorem assemble_nil : assemble [] = [] := rfl

@[simp] theorem assemble_cons (o : Operation) (os : List Operation) :
    assemble (o :: os) = o.opcode :: (o.immediate ++ assemble os) := by simp [assemble]

theorem immediate_length (o : Operation) : o.immediate.length = o.width := by
  obtain ⟨opcode, operand, h⟩ := o
  cases operand with
  | none => exact h.symm
  | some v => exact toBigEndian_length _ _

/-- Decoding the bytes of an operation finds its operand. -/
theorem ofCode_immediate (pc : Nat) (o : Operation) :
    Instruction.ofCode pc o.opcode o.immediate =
      ⟨pc + (1 + o.width), o.opcode, (Opcode.entry o.opcode).mnemonic, o.operand⟩ := by
  rw [Instruction.ofCode, immediate_length, Nat.add_assoc]
  congr
  obtain ⟨opcode, operand, h⟩ := o
  cases operand with
  | none => exact if_pos h
  | some v =>
    have hw : (Opcode.entry opcode).width ≠ 0 := Nat.ne_of_gt h.1
    rw [if_neg hw, immediate, width, Word.ofBytes_toBigEndian (Opcode.width_le opcode) h.2]

/-- The operation that an opcode makes with immediate bytes in its width. -/
def ofCode (opcode : UInt8) (immediate : Bytes)
    (full : immediate.length = (Opcode.entry opcode).width) : Operation where
  opcode := opcode
  operand := if (Opcode.entry opcode).width = 0 then none else some (Word.ofBytes immediate)
  carries := by
    split
    · next h => exact h
    · next h =>
      refine ⟨Nat.pos_of_ne_zero h, ?_⟩
      rw [Word.toNat_ofBytes (full ▸ Opcode.width_le opcode), ← full]
      exact bigEndian_lt immediate

theorem immediate_ofCode {opcode : UInt8} {immediate : Bytes}
    (full : immediate.length = (Opcode.entry opcode).width) :
    (ofCode opcode immediate full).immediate = immediate := by
  by_cases h : (Opcode.entry opcode).width = 0
  · have he : immediate = [] := List.eq_nil_of_length_eq_zero (full.trans h)
    simp [Operation.immediate, ofCode, h, he]
  · have hw : immediate.length ≤ 32 := full ▸ Opcode.width_le opcode
    simp only [Operation.immediate, ofCode, width, if_neg h]
    rw [Word.toNat_ofBytes hw, ← full, toBigEndian_bigEndian]

end Operation

namespace Decoder
open Operation

/-- Assembled code is passed over operation by operation, wherever it starts. -/
lemma pass_assemble {policy : Policy} {os : List Operation}
    (h : ∀ o ∈ os, policy.Accepts o.opcode) (pc : Nat) :
    Pass policy pc (assemble os) ⟨instructionsFrom pc os, none⟩ := by
  induction os generalizing pc with
  | nil => exact .finished pc
  | cons o os ih =>
    have more := ih (fun p hp => h p (List.mem_cons_of_mem o hp)) (pc + 1 + o.immediate.length)
    have step := Pass.instruction (h o List.mem_cons_self) o.immediate_length more
    rwa [ofCode_immediate, immediate_length, Nat.add_assoc, ← assemble_cons] at step

/-- A policy accepts every opcode that a pass under it lists. -/
lemma Pass.accepts {policy : Policy} {pc : Nat} {bytes : Bytes} {l : Listing}
    (h : Pass policy pc bytes l) : ∀ i ∈ l.instructions, policy.Accepts i.opcode := by
  induction h with
  | finished | unassigned | truncated => intro i hi; cases hi
  | instruction accepted full more ih =>
    intro i hi
    cases hi with
    | head => exact accepted
    | tail _ hi => exact ih i hi

/-- A pass without a fault is over assembled code. -/
lemma Pass.exists_assemble {policy : Policy} {pc : Nat} {bytes : Bytes} {l : Listing}
    (h : Pass policy pc bytes l) (hl : l.fault = none) : ∃ os, assemble os = bytes := by
  induction h with
  | finished pc => exact ⟨[], rfl⟩
  | unassigned | truncated => cases hl
  | @instruction pc opcode immediate rest l accepted full more ih =>
    obtain ⟨os, hos⟩ := ih hl
    refine ⟨ofCode opcode immediate full :: os, ?_⟩
    rw [assemble_cons, immediate_ofCode, hos]
    rfl

end Decoder

namespace Operation

/-- Instructions name the operations that they were made of. -/
lemma map_instructionsFrom (pc : Nat) (os : List Operation) :
    (instructionsFrom pc os).map (fun i => (i.opcode, i.operand)) =
      os.map fun o => (o.opcode, o.operand) := by
  induction os generalizing pc with
  | nil => rfl
  | cons o os ih => simp [instructionsFrom, ih]

lemma instructionsFrom_injective (pc : Nat) : Function.Injective (instructionsFrom pc) := by
  intro os ps h
  have hm := map_instructionsFrom pc os
  rw [h, map_instructionsFrom] at hm
  have hinj : Function.Injective fun o : Operation => (o.opcode, o.operand) := by
    intro o p hop
    simp only [Prod.mk.injEq] at hop
    exact Operation.ext hop.1 hop.2
  exact (List.map_injective_iff.mpr hinj hm).symm

lemma decodePartial_assemble {policy : Policy} {os : List Operation} :
    decodePartial policy (assemble os) = ⟨instructionsFrom 0 os, none⟩ ↔
      ∀ o ∈ os, policy.Accepts o.opcode := by
  rw [decodePartial_eq_iff]
  constructor
  · intro h o ho
    have hm : (o.opcode, o.operand) ∈
        (instructionsFrom 0 os).map fun i => (i.opcode, i.operand) := by
      rw [map_instructionsFrom]
      exact List.mem_map_of_mem ho
    obtain ⟨i, hi, he⟩ := List.mem_map.mp hm
    have hc : i.opcode = o.opcode := congrArg Prod.fst he
    exact hc ▸ h.accepts i hi
  · intro h
    exact Decoder.pass_assemble h 0

/-- Decoding inverts assembling, and assembling reaches every code that decodes as a whole. -/
theorem decode_inverts_assemble :
    (∀ os : List Operation,
      decode (assemble os) = .ok (instructionsFrom 0 os) ∧
      decodePartial .sentinel (assemble os) = ⟨instructionsFrom 0 os, none⟩ ∧
      (decodePartial .reject (assemble os) = ⟨instructionsFrom 0 os, none⟩ ↔
        ∀ o ∈ os, (Opcode.entry o.opcode).assigned = true)) ∧
    Set.BijOn assemble Set.univ {code | ∃ is, decode code = .ok is} := by
  have sentinel (os : List Operation) :
      decodePartial .sentinel (assemble os) = ⟨instructionsFrom 0 os, none⟩ :=
    decodePartial_assemble.mpr fun o _ => Policy.sentinel_accepts o.opcode
  have whole (os : List Operation) : decode (assemble os) = .ok (instructionsFrom 0 os) :=
    decode_eq_ok_iff.mpr (sentinel os)
  refine ⟨fun os => ⟨whole os, sentinel os, ?_⟩, ?_, ?_, ?_⟩
  · rw [decodePartial_assemble]
    simp only [Policy.reject_accepts]
  · intro os _
    exact ⟨_, whole os⟩
  · intro os _ ps _ h
    have he := whole os
    rw [h, whole ps] at he
    exact (instructionsFrom_injective 0 (Except.ok.inj he)).symm
  · rintro code ⟨is, his⟩
    have hp := decodePartial_eq_iff.mp (decode_eq_ok_iff.mp his)
    obtain ⟨os, hos⟩ := hp.exists_assemble rfl
    exact ⟨os, Set.mem_univ os, hos⟩

end Operation
end EvmListing
