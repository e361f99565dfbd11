import EvmListing.Proofs.Decoder.Boundary
import EvmListing.Proofs.Mnemonic
import EvmListing.Proofs.Numeral
import EvmListing.Proofs.Report.Pipeline
import EvmListing.Proofs.Text.Lines

/-! What the printed trace of a code tells about the code: everything but the values of unassigned
opcodes. -/
namespace EvmListing
open Opcode (pushWidth)

namespace Instruction

/-- What a line shows of an operand. -/
def operandChars : Option Word → List Char
  | none => []
  | some w => ' ' :: '0' :: 'x' :: Nat.toDigits 16 w.toNat

theorem toList_text (i : Instruction) : i.text.toList =
    Nat.toDigits 10 i.address ++ ' ' :: (i.mnemonic.toList ++ operandChars i.operand) := by
  obtain ⟨address, opcode, mnemonic, operand⟩ := i
  cases operand <;>
    simp [text, operandChars, operandText, Hex.ofNat]

/-- Whether the name of an instruction is one word. -/
def Named (i : Instruction) : Prop := ∀ c ∈ i.mnemonic.toList, c.isAlphanum = true

lemma named_ofCode (pc : Nat) (opcode : UInt8) (immediate : Bytes) :
    (ofCode pc opcode immediate).Named := Opcode.isAlphanum_mnemonic opcode

lemma Named.not_mem {i : Instruction} (h : i.Named) {c : Char} (hc : c.isAlphanum = false) :
    c ∉ i.mnemonic.toList := by
  intro hmem
  rw [h c hmem] at hc
  cases hc

lemma operandChars_injective : Function.Injective operandChars := by
  intro v w h
  cases v with
  | none =>
    cases w with
    | none => rfl
    | some w => cases h
  | some v =>
    cases w with
    | none => cases h
    | some w =>
      simp only [operandChars, List.cons.injEq, true_and] at h
      rw [BitVec.eq_of_toNat_eq (Hex.toDigits_injective h)]

/-- A line shows the address, the name and the operand of an instruction, and nothing else. -/
theorem text_eq_iff {i j : Instruction} (hi : i.Named) (hj : j.Named) : i.text = j.text ↔
    i.address = j.address ∧ i.mnemonic = j.mnemonic ∧ i.operand = j.operand := by
  constructor
  · intro h
    have hspace (n : Nat) : ' ' ∉ Nat.toDigits 10 n := not_mem_decimal rfl n
    have hend (o : Option Word) : ∀ c ∈ (operandChars o).head?, ¬c.isAlphanum = true := by
      cases o <;> simp [operandChars]
    have hchars := congrArg String.toList h
    rw [toList_text, toList_text] at hchars
    obtain ⟨haddress, hrest⟩ := Text.part_unique (hspace _) (hspace _) hchars
    obtain ⟨hname, hoperand⟩ := Json.run_unique hi hj (hend _) (hend _) hrest
    exact ⟨decimal_injective haddress, String.toList_inj.mp hname, operandChars_injective hoperand⟩
  · rintro ⟨haddress, hname, hoperand⟩
    rw [text, text, haddress, hname, hoperand]

theorem onOneLine_text {i : Instruction} (h : i.Named) : Text.OnOneLine i.text.toList := by
  have haddress : '\n' ∉ Nat.toDigits 10 i.address := not_mem_decimal rfl i.address
  have hoperand : '\n' ∉ operandChars i.operand := by
    cases i.operand with
    | none => exact List.not_mem_nil
    | some w =>
      have hdigits := (Hex.spells_toDigits w.toNat).not_mem (by decide : ¬Hex.IsLowerDigit '\n')
      simpa [operandChars] using hdigits
  rw [Text.OnOneLine, toList_text]
  simp [haddress, h.not_mem, hoperand]

section
variable {opcode opcode' : UInt8} {immediate immediate' : Bytes}

/-- The line of an instruction tells its bytes up to an unassigned opcode, as its name tells how
many immediate bytes the number on it stands for. -/
theorem ofCode_text_eq_iff (pc : Nat) (full : immediate.length = (Opcode.entry opcode).width)
    (full' : immediate'.length = (Opcode.entry opcode').width) :
    (ofCode pc opcode immediate).text = (ofCode pc opcode' immediate').text ↔
      Opcode.Alike opcode opcode' ∧ immediate = immediate' := by
  rw [text_eq_iff (named_ofCode pc opcode immediate) (named_ofCode pc opcode' immediate')]
  constructor
  · rintro ⟨-, hname, hoperand⟩
    have halike : Opcode.Alike opcode opcode' := Opcode.mnemonic_eq_iff.mp hname
    have hlength : immediate.length = immediate'.length := by rw [full, full', halike.entry_eq]
    refine ⟨halike, ?_⟩
    simp only [ofCode, ← full, ← full', ← hlength] at hoperand
    split_ifs at hoperand with hzero
    · have hnil : immediate = [] := List.eq_nil_of_length_eq_zero hzero
      have hnil' : immediate' = [] := List.eq_nil_of_length_eq_zero (hlength ▸ hzero)
      rw [hnil, hnil']
    · exact Word.ofBytes_injOn (full ▸ Opcode.width_le opcode) hlength (Option.some.inj hoperand)
  · rintro ⟨halike, rfl⟩
    simp only [ofCode, halike.entry_eq, true_and]

end
end Instruction

/-- Whether an unassigned opcode is at a place of a code. -/
def UnassignedAt (code : Bytes) (k : Nat) : Prop :=
  ∃ opcode, code[k]? = some opcode ∧ (Opcode.entry opcode).assigned = false

/-- Whether two codes are the same up to unassigned opcodes where instructions start. -/
structure Indistinct (code code' : Bytes) : Prop where
  length : code.length = code'.length
  boundary : ∀ k, Boundary code k ↔ Boundary code' k
  bytes : ∀ k, code[k]? = code'[k]? ∨
    Boundary code k ∧ UnassignedAt code k ∧ UnassignedAt code' k

section
variable {opcode opcode' : UInt8} {immediate immediate' rest rest' : Bytes}

lemma getElem?_immediate (opcode : UInt8) (rest : Bytes) {j : Nat} (h : j < immediate.length) :
    (opcode :: (immediate ++ rest))[j + 1]? = immediate[j]? := by
  rw [List.getElem?_cons_succ, List.getElem?_append_left h]

lemma getElem?_past (opcode : UInt8) (immediate rest : Bytes) (k : Nat) :
    (opcode :: (immediate ++ rest))[1 + immediate.length + k]? = rest[k]? := by
  rw [Nat.add_assoc, Nat.add_comm 1, List.getElem?_cons_succ,
    List.getElem?_append_right (Nat.le_add_right _ k), Nat.add_sub_cancel_left]

/-- After its first instruction the boundaries of a code are those of the rest. -/
theorem boundary_cons (full : immediate.length = (Opcode.entry opcode).width) (j : Nat) :
    Boundary (opcode :: (immediate ++ rest)) j ↔
      j = 0 ∨ ∃ k, Boundary rest k ∧ j = 1 + immediate.length + k := by
  have hwidth : pushWidth opcode = immediate.length := by rw [full, Opcode.width_entry]
  have hat {k : Nat} (inside : 1 + immediate.length + k < (opcode :: (immediate ++ rest)).length)
      (inside' : k < rest.length) :
      (opcode :: (immediate ++ rest))[1 + immediate.length + k] = rest[k] := by
    apply Option.some.inj
    rw [← List.getElem?_eq_getElem inside, ← List.getElem?_eq_getElem inside', getElem?_past]
  have hlength : (opcode :: (immediate ++ rest)).length = 1 + immediate.length + rest.length := by
    simp only [List.length_cons, List.length_append]
    omega
  constructor
  · intro h
    induction h with
    | start => exact .inl rfl
    | @next j _ inside fits ih =>
      right
      obtain rfl | ⟨k, hk, rfl⟩ := ih
      · refine ⟨0, .start, ?_⟩
        simp only [List.getElem_cons_zero, hwidth]
        omega
      · have inside' : k < rest.length := by omega
        rw [hat inside inside'] at fits ⊢
        exact ⟨_, hk.next inside' (by omega), by omega⟩
  · rintro (rfl | ⟨k, hk, rfl⟩)
    · exact .start
    · induction hk with
      | start =>
        have hfirst : Boundary (opcode :: (immediate ++ rest)) (0 + 1 + pushWidth opcode) :=
          Boundary.start.next (by omega) (by rw [List.getElem_cons_zero]; omega)
        rwa [hwidth, Nat.zero_add] at hfirst
      | @next k _ inside fits ih =>
        have inside' : 1 + immediate.length + k < (opcode :: (immediate ++ rest)).length := by omega
        have hnext := ih.next inside' (by rw [hat inside' inside]; omega)
        rw [hat inside' inside] at hnext
        have hplace : 1 + immediate.length + (k + 1 + pushWidth rest[k]) =
            1 + immediate.length + k + 1 + pushWidth rest[k] := by omega
        rwa [hplace]

lemma boundary_past (full : immediate.length = (Opcode.entry opcode).width) (k : Nat) :
    Boundary (opcode :: (immediate ++ rest)) (1 + immediate.length + k) ↔ Boundary rest k := by
  rw [boundary_cons full]
  constructor
  · rintro (h | ⟨m, hm, h⟩)
    · omega
    · have hk : k = m := by omega
      exact hk ▸ hm
  · exact fun hk => .inr ⟨k, hk, rfl⟩

lemma not_boundary_immediate (full : immediate.length = (Opcode.entry opcode).width) {j : Nat}
    (h : j < immediate.length) : ¬Boundary (opcode :: (immediate ++ rest)) (j + 1) := by
  rw [boundary_cons full]
  rintro (h | ⟨m, -, h⟩) <;> omega

/-- Codes can be compared instruction by instruction. -/
theorem indistinct_cons_iff (full : immediate.length = (Opcode.entry opcode).width)
    (full' : immediate'.length = (Opcode.entry opcode').width) :
    Indistinct (opcode :: (immediate ++ rest)) (opcode' :: (immediate' ++ rest')) ↔
      (Opcode.Alike opcode opcode' ∧ immediate = immediate') ∧ Indistinct rest rest' := by
  constructor
  · intro h
    have halike : Opcode.Alike opcode opcode' := by
      obtain heq | ⟨-, ⟨b, hb, hassigned⟩, ⟨b', hb', hassigned'⟩⟩ := h.bytes 0
      · exact .inl (Option.some.inj heq)
      · cases hb
        cases hb'
        exact .inr ⟨hassigned, hassigned'⟩
    have hlength : immediate.length = immediate'.length := by rw [full, full', halike.entry_eq]
    have himmediate : immediate = immediate' := by
      apply List.ext_getElem?
      intro j
      by_cases hj : j < immediate.length
      · obtain heq | ⟨hboundary, -⟩ := h.bytes (j + 1)
        · rwa [getElem?_immediate _ _ hj, getElem?_immediate _ _ (hlength ▸ hj)] at heq
        · exact absurd hboundary (not_boundary_immediate full hj)
      · rw [List.getElem?_eq_none (by omega), List.getElem?_eq_none (by omega)]
    subst himmediate
    refine ⟨⟨halike, rfl⟩, ?_, fun k => ?_, fun k => ?_⟩
    · have htotal := h.length
      simp only [List.length_cons, List.length_append] at htotal
      omega
    · rw [← boundary_past full, h.boundary, boundary_past full']
    · have hk := h.bytes (1 + immediate.length + k)
      simpa only [UnassignedAt, getElem?_past, boundary_past full] using hk
  · rintro ⟨⟨halike, rfl⟩, h⟩
    refine ⟨by simp [h.length], fun j => ?_, fun j => ?_⟩
    · rw [boundary_cons full, boundary_cons full']
      simp only [h.boundary]
    · -- a place of the code is its first, one of the immediate, or one of the rest
      obtain rfl | ⟨i, rfl⟩ : j = 0 ∨ ∃ i, j = i + 1 := by cases j <;> simp
      · obtain rfl | ⟨hassigned, hassigned'⟩ := halike
        · exact .inl rfl
        · exact .inr ⟨.start, ⟨_, rfl, hassigned⟩, ⟨_, rfl, hassigned'⟩⟩
      by_cases hi : i < immediate.length
      · left
        rw [getElem?_immediate _ _ hi, getElem?_immediate _ _ hi]
      · obtain ⟨k, rfl⟩ := Nat.exists_eq_add_of_le (Nat.le_of_not_lt hi)
        have hplace : immediate.length + k + 1 = 1 + immediate.length + k := by omega
        rw [hplace]
        simpa only [UnassignedAt, getElem?_past, boundary_past full] using h.bytes k

end

/-- By induction on the first pass: the second one has to list an instruction where this does. -/
lemma Decoder.Pass.lines_eq_iff {pc : Nat} {bytes bytes' : Bytes} {l l' : Listing}
    (h : Pass .sentinel pc bytes l) (hl : l.fault = none) (h' : Pass .sentinel pc bytes' l')
    (hl' : l'.fault = none) :
    l.instructions.map Instruction.text = l'.instructions.map Instruction.text ↔
      Indistinct bytes bytes' := by
  induction h generalizing bytes' l' with
  | finished pc =>
    cases h' with
    | finished pc => exact ⟨fun _ => ⟨rfl, fun _ => Iff.rfl, fun _ => .inl rfl⟩, fun _ => rfl⟩
    | unassigned | truncated => cases hl'
    | instruction accepted full more => exact ⟨nofun, fun h => by cases h.length⟩
  | unassigned | truncated => cases hl
  | @instruction pc opcode immediate rest l accepted full more ih =>
    cases h' with
    | finished pc => exact ⟨nofun, fun h => by cases h.length⟩
    | unassigned | truncated => cases hl'
    | @instruction _ opcode' immediate' rest' l' accepted' full' more' =>
      rw [List.map_cons, List.map_cons, List.cons.injEq, Instruction.ofCode_text_eq_iff pc full full',
        indistinct_cons_iff full full']
      refine and_congr_right fun ⟨halike, himmediate⟩ => ?_
      subst himmediate
      exact ih hl more' hl'

lemma Decoder.Pass.named {policy : Policy} {pc : Nat} {bytes : Bytes} {l : Listing}
    (h : Pass policy pc bytes l) : ∀ i ∈ l.instructions, i.Named := by
  induction h with
  | finished | unassigned | truncated => exact nofun
  | @instruction pc opcode immediate rest l _ _ _ ih =>
    exact List.forall_mem_cons.mpr ⟨Instruction.named_ofCode pc opcode immediate, ih⟩

lemma named_decodePartial (policy : Policy) (code : Bytes) :
    ∀ i ∈ (decodePartial policy code).instructions, i.Named := (pass_decodePartial policy code).named

theorem Listing.text_eq_lines (is : List Instruction) :
    text is = Text.lines (is.map Instruction.text) := by
  rw [text, Text.lines, List.map_map]
  rfl

lemma onOneLine_of_named {is : List Instruction} (h : ∀ i ∈ is, i.Named) :
    ∀ line ∈ is.map Instruction.text, Text.OnOneLine line.toList := by
  intro line hline
  obtain ⟨i, hi, rfl⟩ := List.mem_map.mp hline
  exact Instruction.onOneLine_text (h i hi)

/-- Indistinct codes without unassigned opcodes are the same. -/
lemma Indistinct.eq {code code' : Bytes} (h : Indistinct code code')
    (assigned : ∀ k, Boundary code k → ¬UnassignedAt code k) : code = code' := by
  apply List.ext_getElem?
  intro k
  obtain heq | ⟨hboundary, hunassigned, -⟩ := h.bytes k
  · exact heq
  · exact absurd hunassigned (assigned k hboundary)

lemma eq_ofRuntime_of_whole {settings : Settings} (whole : settings.stripMetadata = false)
    {code : Bytes} {d : Report} (h : disassemble settings code = .ok d) :
    d = .ofRuntime settings.unassigned code none := by
  have hsplit : settings.split code = .ok (code, none) := by
    rw [Settings.split, whole]
    rfl
  rw [disassemble_of_split hsplit] at h
  exact (Except.ok.inj h).symm

/-- The traces of two codes that decode as a whole are the same if and only if the codes differ in
nothing but unassigned opcodes. So the trace of a code without such opcodes determines it. -/
theorem trace_eq_iff {settings : Settings} (whole : settings.stripMetadata = false)
    (lenient : settings.unassigned = .sentinel) {code code' : Bytes} {d d' : Report}
    (h : disassemble settings code = .ok d) (h' : disassemble settings code' = .ok d')
    (complete : d.isComplete = true) (complete' : d'.isComplete = true) :
    (d.trace = d'.trace ↔ Indistinct code code') ∧
      ((∀ k, Boundary code k → ¬UnassignedAt code k) → d.trace = d'.trace → code = code') := by
  have hd := eq_ofRuntime_of_whole whole h
  have hd' := eq_ofRuntime_of_whole whole h'
  rw [lenient] at hd hd'
  subst hd hd'
  have hlines := (pass_decodePartial .sentinel code).lines_eq_iff
    (Option.isNone_iff_eq_none.mp complete) (pass_decodePartial .sentinel code')
    (Option.isNone_iff_eq_none.mp complete')
  have htrace : (Report.ofRuntime .sentinel code none).trace =
      (Report.ofRuntime .sentinel code' none).trace ↔ Indistinct code code' := by
    rw [← hlines, Report.trace, Report.trace, Listing.text_eq_lines, Listing.text_eq_lines]
    exact ⟨Text.lines_injective (onOneLine_of_named (named_decodePartial .sentinel code))
      (onOneLine_of_named (named_decodePartial .sentinel code')), congrArg Text.lines⟩
  exact ⟨htrace, fun assigned heq => (htrace.mp heq).eq assigned⟩

/-- A byte that no opcode is assigned to can be exchanged for another one behind a push. -/
theorem trace_eq_of_unassigned :
    ∃ d d', disassemble { stripMetadata := false } [0x61, 0x00, 0x0C, 0x0C] = .ok d ∧
      disassemble { stripMetadata := false } [0x61, 0x00, 0x0C, 0x0D] = .ok d' ∧
      d.isComplete = true ∧ d'.isComplete = true ∧ d.trace = d'.trace ∧
      Indistinct [0x61, 0x00, 0x0C, 0x0C] [0x61, 0x00, 0x0C, 0x0D] := by
  have h (code : Bytes) : disassemble { stripMetadata := false } code =
      .ok (.ofRuntime .sentinel code none) := disassemble_keepingMetadata {} code
  have htrace : (Report.ofRuntime .sentinel [0x61, 0x00, 0x0C, 0x0C] none).trace =
      (Report.ofRuntime .sentinel [0x61, 0x00, 0x0C, 0x0D] none).trace := by decide
  exact ⟨_, _, h _, h _, rfl, rfl, htrace,
    (trace_eq_iff rfl rfl (h _) (h _) rfl rfl).1.mp htrace⟩

end EvmListing
