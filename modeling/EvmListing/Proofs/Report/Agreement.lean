import EvmListing.Proofs.Report.Log

/-! Different ways to decode one code agree. A strict pass is a lenient one that ends where that
meets its first unknown instruction; and whether the items of a code are collected, listed by a loop
that stops at a fault or kept in a report, the result is the same. -/
namespace EvmListing

namespace Instruction

lemma unknown_ofCode (pc : Nat) (opcode : UInt8) (immediate : Bytes) :
    (ofCode pc opcode immediate).Unknown ↔ (Opcode.entry opcode).assigned = false :=
  Opcode.mnemonic_eq_unknown_iff

end Instruction

namespace Listing

/-- The listing up to its first unknown instruction, which is made a fault. -/
def refusing (l : Listing) : Listing :=
  match l.instructions.find? (·.Unknown) with
  | none => l
  | some i => ⟨l.instructions.takeWhile (¬·.Unknown), some (.unassigned i.opcode i.offset)⟩


section
variable {i : Instruction} (is : List Instruction) (fault : Option Decoder.Fault)

theorem refusing_unknown (h : i.Unknown) :
    refusing ⟨i :: is, fault⟩ = ⟨[], some (.unassigned i.opcode i.offset)⟩ := by
  simp [refusing, h]

theorem refusing_known (h : ¬i.Unknown) : refusing ⟨i :: is, fault⟩ =
    ⟨i :: (refusing ⟨is, fault⟩).instructions, (refusing ⟨is, fault⟩).fault⟩ := by
  have hfind : (i :: is).find? (·.Unknown) = is.find? (·.Unknown) := by simp [h]
  simp only [refusing, hfind]
  cases is.find? (·.Unknown) <;> simp [h]

end

theorem refusing_of_known {l : Listing} (h : ∀ i ∈ l.instructions, ¬i.Unknown) :
    l.refusing = l := by
  have hnone : l.instructions.find? (·.Unknown) = none := by simpa using h
  rw [refusing, hnone]

/-- Only what comes before the first unknown instruction is left. -/
theorem refusing_append {before : List Instruction} (h : ∀ i ∈ before, ¬i.Unknown) {u : Instruction}
    (hu : u.Unknown) (after : List Instruction) (fault : Option Decoder.Fault) :
    refusing ⟨before ++ u :: after, fault⟩ = ⟨before, some (.unassigned u.opcode u.offset)⟩ := by
  induction before with
  | nil => exact refusing_unknown after fault hu
  | cons i before ih =>
    obtain ⟨hi, hbefore⟩ := List.forall_mem_cons.mp h
    rw [List.cons_append, refusing_known _ fault hi, ih hbefore]

end Listing

namespace Decoder

/-- As long as a lenient pass meets no unknown instruction, a strict one over the same bytes makes
the same steps. -/
lemma Pass.refusing {pc : Nat} {bytes : Bytes} {l : Listing} (h : Pass .sentinel pc bytes l) :
    Pass .reject pc bytes l.refusing := by
  induction h with
  | finished pc => exact .finished pc
  | unassigned pc rest refused => exact absurd (Policy.sentinel_accepts _) refused
  | truncated pc _ cut =>
    have hassigned := Opcode.assigned_of_width_pos (Nat.zero_lt_of_lt cut)
    exact .truncated pc ((Policy.reject_accepts _).mpr hassigned) cut
  | @instruction pc opcode immediate rest l _ full _ ih =>
    have hunknown := Instruction.unknown_ofCode pc opcode immediate
    cases hassigned : (Opcode.entry opcode).assigned with
    | true =>
      rw [Listing.refusing_known _ _ (by simp [hunknown, hassigned])]
      exact .instruction ((Policy.reject_accepts opcode).mpr hassigned) full ih
    | false =>
      have refused : ¬Policy.reject.Accepts opcode := by simp [hassigned]
      rw [Listing.refusing_unknown _ _ (hunknown.mpr hassigned), Instruction.ofCode_offset pc full]
      exact .unassigned pc (immediate ++ rest) refused

end Decoder

/-- A strict pass lists what a lenient one does if that meets no unknown instruction. Otherwise it
lists what comes before the first one and fails there, whatever comes after it. -/
theorem decodePartial_reject (code : Bytes) :
    let lenient := decodePartial .sentinel code
    (decodePartial .reject code = lenient ↔ ∀ i ∈ lenient.instructions, ¬i.Unknown) ∧
    ∀ before u after, lenient.instructions = before ++ u :: after →
      (∀ i ∈ before, ¬i.Unknown) → u.Unknown →
        decodePartial .reject code = ⟨before, some (.unassigned u.opcode u.offset)⟩ := by
  intro lenient
  have hreject : decodePartial .reject code = lenient.refusing :=
    decodePartial_eq_iff.mpr (pass_decodePartial .sentinel code).refusing
  refine ⟨⟨fun h => ?_, fun known => ?_⟩, fun before u after hsplit known unknown => ?_⟩
  · exact h ▸ (pass_decodePartial .reject code).not_unknown
  · rw [hreject, Listing.refusing_of_known known]
  · have hlenient : lenient = ⟨before ++ u :: after, lenient.fault⟩ := by rw [← hsplit]
    rw [hreject, hlenient, Listing.refusing_append known unknown]

example : decodePartial .reject [0x60, 0x0C, 0x0C, 0x61, 0x00] =
    ⟨[⟨2, 0x60, "PUSH1", some 12⟩], some (.unassigned 0x0C 2)⟩ := by decide

theorem decode_eq_error_iff {code : Bytes} {fault : Decoder.Fault} :
    decode code = .error fault ↔ ∃ is, decodePartial .sentinel code = ⟨is, some fault⟩ := by
  rw [decode, Decoder.collect_eq, ← decodePartial]
  obtain ⟨instructions, fault'⟩ := decodePartial .sentinel code
  cases fault' <;> simp

/-- What a report results in is what collecting the items of its runtime does. -/
lemma Report.result_ofRuntime (policy : Policy) (runtime : Bytes) (m : Option Metadata) :
    (ofRuntime policy runtime m).result =
      Decoder.collect (Decoder.start policy runtime).items := by
  rw [Decoder.collect_eq, ← decodePartial]
  cases hfault : (decodePartial policy runtime).fault <;> simp [result, ofRuntime, hfault]

/-- A code decodes as a whole, or fails to with a fault, if and only if a lenient pass lists all of
it or stops at this fault. The result of a report is its instructions if it is complete, and
otherwise the fault that collecting the items of the runtime comes upon. -/
theorem results_agree (code : Bytes) :
    (∀ is, decode code = .ok is ↔ (decodePartialLogged .sentinel code).value = ⟨is, none⟩) ∧
    (∀ fault, decode code = .error fault ↔
      ∃ is, (decodePartialLogged .sentinel code).value = ⟨is, some fault⟩) ∧
    ∀ settings d, disassemble settings code = .ok d → ∃ runtime m,
      settings.split code = .ok (runtime, m) ∧
      let collected := Decoder.collect (Decoder.start settings.unassigned runtime).items
      d.isComplete = true ∧ d.result = .ok d.instructions ∧ collected = .ok d.instructions ∨
        d.isComplete = false ∧ ∃ fault, d.result = .error fault ∧ collected = .error fault := by
  simp only [value_decodePartialLogged]
  refine ⟨fun is => decode_eq_ok_iff, fun fault => decode_eq_error_iff, fun settings d h => ?_⟩
  obtain ⟨runtime, m, hsplit, rfl⟩ := exists_split_of_disassemble h
  refine ⟨runtime, m, hsplit, ?_⟩
  rw [← Report.result_ofRuntime _ _ m]
  generalize Report.ofRuntime settings.unassigned runtime m = d
  rw [Report.isComplete, Report.result]
  cases d.fault with
  | none => exact .inl ⟨rfl, rfl, rfl⟩
  | some fault => exact .inr ⟨rfl, fault, rfl, rfl⟩

end EvmListing
