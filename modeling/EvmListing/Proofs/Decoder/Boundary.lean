import EvmListing.Proofs.Decoder.Pass
import Mathlib.Order.Bounds.Basic

/-! The places where the instructions of a code start, by arithmetic on its bytes alone. A pass
lists what stands at these places, in order, and stops at the first where it has to. -/
namespace EvmListing
open Opcode (isPush pushWidth)

/-- The start of a code, and the end of each instruction that starts at such a place and fits. -/
inductive Boundary (code : Bytes) : Nat → Prop
  | start : Boundary code 0
  | next {k : Nat} (boundary : Boundary code k) (inside : k < code.length)
      (fits : k + 1 + pushWidth code[k] ≤ code.length) : Boundary code (k + 1 + pushWidth code[k])

/-- The instruction that stands at a place of a code. -/
structure Instruction.StandsAt (code : Bytes) (k : Nat) (i : Instruction) : Prop where
  inside : k < code.length
  offset : i.offset = k
  opcode : i.opcode = code[k]
  mnemonic : i.mnemonic = (Opcode.entry code[k]).mnemonic
  address : i.address = k + 1 + pushWidth code[k]
  fits : i.address ≤ code.length
  operand : i.operand.map BitVec.toNat =
    if pushWidth code[k] = 0 then none
    else some (bigEndian ((code.drop (k + 1)).take (pushWidth code[k])))

namespace Decoder

/-- Why a place of a code is one at which a pass fails. -/
inductive Defect (policy : Policy) (code : Bytes) (k : Nat) : Fault → Prop
  | unassigned (inside : k < code.length) (strict : policy = .reject)
      (unknown : (Opcode.entry code[k]).assigned = false) :
      Defect policy code k (.unassigned code[k] k)
  | truncated (inside : k < code.length) (push : isPush code[k] = true)
      (short : (code.drop (k + 1)).length < pushWidth code[k]) :
      Defect policy code k (.truncated code[k] (Opcode.entry code[k]).mnemonic k
        (pushWidth code[k]) (code.drop (k + 1)))

/-- Where a pass ends, and with which fault. -/
inductive Ends (policy : Policy) (code : Bytes) : Nat → Option Fault → Prop
  | complete : Ends policy code code.length none
  | defect {k : Nat} {f : Fault} (h : Defect policy code k f) : Ends policy code k (some f)

/-- Instructions that stand one after the other from one place of a code to another. -/
inductive Trail (policy : Policy) (code : Bytes) : Nat → List Instruction → Nat → Prop
  | nil (k : Nat) : Trail policy code k [] k
  | cons {k : Nat} {i : Instruction} {is : List Instruction} {stop : Nat}
      (stands : i.StandsAt code k) (accepted : policy.Accepts i.opcode)
      (more : Trail policy code i.address is stop) : Trail policy code k (i :: is) stop

section
variable {policy : Policy} {code before rest immediate : Bytes} {opcode : UInt8}

/-- What a code with some bytes in front of an opcode has at the end of these bytes. -/
lemma at_opcode (hc : code = before ++ opcode :: rest) :
    ∃ inside : before.length < code.length,
      code[before.length] = opcode ∧ code.drop (before.length + 1) = rest := by
  subst hc
  exact ⟨by simp, by simp, by simp⟩

lemma Defect.of_refused (hc : code = before ++ opcode :: rest) (h : ¬policy.Accepts opcode) :
    Defect policy code before.length (.unassigned opcode before.length) := by
  obtain ⟨strict, unknown⟩ := Policy.not_accepts.mp h
  obtain ⟨hi, he, -⟩ := at_opcode hc
  simpa only [he] using Defect.unassigned (k := before.length) hi strict (by rwa [he])

lemma Defect.of_cut (hc : code = before ++ opcode :: rest)
    (h : rest.length < (Opcode.entry opcode).width) :
    Defect policy code before.length (.truncated opcode (Opcode.entry opcode).mnemonic before.length
      (Opcode.entry opcode).width rest) := by
  obtain ⟨hi, he, hd⟩ := at_opcode hc
  rw [Opcode.width_entry] at h ⊢
  have push : isPush opcode = true := by
    by_contra hp
    rw [pushWidth, if_neg hp] at h
    exact absurd h (Nat.not_lt_zero _)
  have hdefect : Defect policy code before.length _ := .truncated hi (by rwa [he]) (by rwa [he, hd])
  simpa only [he, hd] using hdefect

lemma standsAt_ofCode (hc : code = before ++ opcode :: (immediate ++ rest))
    (full : immediate.length = (Opcode.entry opcode).width) :
    (Instruction.ofCode before.length opcode immediate).StandsAt code before.length := by
  obtain ⟨hi, he, hd⟩ := at_opcode hc
  have hw : pushWidth opcode = immediate.length := by rw [full, Opcode.width_entry]
  refine ⟨hi, Instruction.ofCode_offset _ full, he.symm, ?_, ?_, ?_, ?_⟩
  · rw [he]
    rfl
  · rw [he, hw]
    rfl
  · simp only [Instruction.ofCode, hc, List.length_append, List.length_cons]
    omega
  · rw [he, hd, hw, List.take_left' rfl, full]
    simp only [Instruction.ofCode]
    split
    · rfl
    · rw [Option.map_some, Word.toNat_ofBytes (full ▸ Opcode.width_le opcode)]

/-- A pass leaves a trail behind, up to where it ends. -/
lemma Pass.trail {pc : Nat} {l : Listing} (h : Pass policy pc rest l)
    (hc : code = before ++ rest) (hb : before.length = pc) :
    ∃ stop, Trail policy code pc l.instructions stop ∧ Ends policy code stop l.fault := by
  induction h generalizing before with
  | finished pc =>
    refine ⟨pc, .nil pc, ?_⟩
    have hl : code.length = pc := by simp [hc, hb]
    exact hl ▸ .complete
  | unassigned pc rest refused =>
    subst hb
    exact ⟨_, .nil _, .defect (.of_refused hc refused)⟩
  | truncated pc accepted cut =>
    subst hb
    exact ⟨_, .nil _, .defect (.of_cut hc cut)⟩
  | @instruction pc opcode immediate rest l accepted full more ih =>
    subst hb
    have hnext : code = (before ++ opcode :: immediate) ++ rest := by simp [hc]
    obtain ⟨stop, trail, ends⟩ := ih hnext
      (by simp only [List.length_append, List.length_cons]; omega)
    exact ⟨stop, .cons (standsAt_ofCode hc full) accepted trail, ends⟩

end

section
variable {policy : Policy} {code : Bytes} {k stop : Nat} {is : List Instruction}

/-- The places along a trail are boundaries, the one it leads to included. -/
lemma Trail.boundary (h : Trail policy code k is stop) (hk : Boundary code k) :
    Boundary code stop ∧ ∀ i ∈ is, Boundary code i.offset := by
  induction h with
  | nil k => exact ⟨hk, nofun⟩
  | cons stands accepted more ih =>
    have fits := stands.fits
    rw [stands.address] at fits
    obtain ⟨hstop, his⟩ := ih (stands.address ▸ hk.next stands.inside fits)
    refine ⟨hstop, fun j hj => ?_⟩
    cases hj with
    | head => exact stands.offset ▸ hk
    | tail _ hj => exact his j hj

/-- A trail goes upwards. -/
lemma Trail.ascending (h : Trail policy code k is stop) :
    k ≤ stop ∧ (∀ i ∈ is, k ≤ i.offset ∧ i.offset < stop) ∧
      (is.map Instruction.offset).Pairwise (· < ·) := by
  induction h with
  | nil k => exact ⟨Nat.le_refl k, nofun, .nil⟩
  | @cons k i is stop stands accepted more ih =>
    obtain ⟨hle, hin, hlt⟩ := ih
    have ha := stands.address
    have ho := stands.offset
    refine ⟨by omega, fun j hj => ?_, ?_⟩
    · cases hj with
      | head => omega
      | tail _ hj =>
        have := hin j hj
        omega
    · refine List.pairwise_cons.mpr ⟨fun o hm => ?_, hlt⟩
      obtain ⟨j, hj, rfl⟩ := List.mem_map.mp hm
      have := hin j hj
      omega

/-- Each instruction of a trail ends where another one starts or where the trail does. -/
lemma Trail.next_mem (h : Trail policy code k is stop) (i : Instruction) (hi : i ∈ is) :
    i.address = stop ∨ ∃ j ∈ is, j.offset = i.address := by
  induction h with
  | nil k => cases hi
  | @cons k i' is stop stands accepted more ih =>
    cases hi with
    | head =>
      cases more with
      | nil => exact .inl rfl
      | @cons _ j _ _ stands' _ _ => exact .inr ⟨j, by simp, stands'.offset⟩
    | tail _ hi =>
      obtain hs | ⟨j, hj, he⟩ := ih hi
      · exact .inl hs
      · exact .inr ⟨j, List.mem_cons_of_mem _ hj, he⟩

lemma Trail.standsAt (h : Trail policy code k is stop) (i : Instruction) (hi : i ∈ is) :
    i.StandsAt code i.offset ∧ policy.Accepts i.opcode := by
  induction h with
  | nil k => cases hi
  | cons stands accepted more ih =>
    cases hi with
    | head => exact ⟨stands.offset.symm ▸ stands, accepted⟩
    | tail _ hi => exact ih hi

/-- A boundary below the place that a trail from the start leads to is on the trail. -/
lemma Trail.mem_of_boundary (h : Trail policy code 0 is stop) {k : Nat} (hk : Boundary code k) :
    stop ≤ k ∨ ∃ i ∈ is, i.offset = k := by
  induction hk with
  | start =>
    cases h with
    | nil => exact .inl (Nat.le_refl 0)
    | @cons _ i _ _ stands _ _ => exact .inr ⟨i, List.mem_cons_self, stands.offset⟩
  | @next k boundary inside fits ih =>
    obtain hle | ⟨i, hi, rfl⟩ := ih
    · left
      omega
    · have ha := (h.standsAt i hi).1.address
      obtain hs | hj := h.next_mem i hi
      · left
        omega
      · rw [← ha]
        exact .inr hj

/-- A pass does not end where an instruction stands that its policy accepts. -/
lemma Ends.not_standsAt {f : Option Fault} (h : Ends policy code k f) {i : Instruction}
    (stands : i.StandsAt code k) (accepted : policy.Accepts i.opcode) : False := by
  have inside := stands.inside
  have fits := stands.fits
  rw [stands.address] at fits
  rw [stands.opcode] at accepted
  cases h with
  | complete => exact Nat.lt_irrefl _ inside
  | defect h =>
    cases h with
    | unassigned _ strict unknown => exact Policy.not_accepts.mpr ⟨strict, unknown⟩ accepted
    | truncated _ push short =>
      rw [List.length_drop] at short
      omega

end

end Decoder

/-- A pass lists exactly the instructions at the boundaries before the first one that is the end of
the code or has a defect, and reports how it ends there. -/
theorem decodePartial_follows_boundaries (policy : Policy) (code : Bytes) :
    ∃ stop, IsLeast {k | Boundary code k ∧ ∃ f, Decoder.Ends policy code k f} stop ∧
      Decoder.Ends policy code stop (decodePartial policy code).fault ∧
      ((decodePartial policy code).instructions.map Instruction.offset).Pairwise (· < ·) ∧
      (∀ k, k ∈ (decodePartial policy code).instructions.map Instruction.offset ↔
        Boundary code k ∧ k < stop) ∧
      ∀ i ∈ (decodePartial policy code).instructions,
        i.StandsAt code i.offset ∧ Boundary code i.address := by
  have hstart : code = [] ++ code := rfl
  obtain ⟨stop, trail, ends⟩ := (pass_decodePartial policy code).trail hstart rfl
  obtain ⟨hstop, hboundary⟩ := trail.boundary .start
  obtain ⟨-, hbelow, ascending⟩ := trail.ascending
  refine ⟨stop, ⟨⟨hstop, _, ends⟩, ?_⟩, ends, ascending, fun k => ⟨?_, ?_⟩, ?_⟩
  · rintro k ⟨hk, f, hf⟩
    obtain hle | ⟨i, hi, rfl⟩ := trail.mem_of_boundary hk
    · exact hle
    · obtain ⟨stands, accepted⟩ := trail.standsAt i hi
      exact (hf.not_standsAt stands accepted).elim
  · intro hk
    obtain ⟨i, hi, rfl⟩ := List.mem_map.mp hk
    exact ⟨hboundary i hi, (hbelow i hi).2⟩
  · rintro ⟨hk, hlt⟩
    obtain hle | ⟨i, hi, rfl⟩ := trail.mem_of_boundary hk
    · exact absurd hlt (Nat.not_lt.mpr hle)
    · exact List.mem_map_of_mem hi
  · intro i hi
    have stands := (trail.standsAt i hi).1
    have fits := stands.fits
    rw [stands.address] at fits
    exact ⟨stands, stands.address ▸ (hboundary i hi).next stands.inside fits⟩

end EvmListing
