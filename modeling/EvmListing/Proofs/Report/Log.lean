import EvmListing.Proofs.Mnemonic
import EvmListing.Proofs.Report.Pipeline

/-! What a disassembly logs. The report and the size of the code tell the whole log: each warning
belongs to an instruction or to the fault, and the events come in the order of the report. -/
namespace EvmListing

/-- An event as it is written out. -/
structure Event.Entry where
  level : String
  message : String
  fields : List (String × String)
  deriving DecidableEq, Repr

def Event.entry (event : Event) : Entry := ⟨event.level, event.message, event.fields⟩

namespace Instruction

/-- Whether an instruction stands for an opcode without a name of its own. -/
def Unknown (i : Instruction) : Prop := i.mnemonic = "UNKNOWN"

instance : DecidablePred Unknown := fun i => inferInstanceAs (Decidable (i.mnemonic = "UNKNOWN"))

end Instruction

/-- The warning about a fault: only an immediate that is cut off has one. -/
def Decoder.Fault.warnings : Fault → List Event
  | .truncated opcode _ offset expected available =>
    [.truncated offset opcode expected available.length]
  | .unassigned .. => []

namespace Listing

/-- The warnings about a listing: one for each unknown instruction, then that about the fault. -/
def warnings (l : Listing) : List Event :=
  (l.instructions.filter (·.Unknown)).map (fun i => .unassigned i.offset i.opcode) ++
    l.fault.toList.flatMap Decoder.Fault.warnings

@[simp] theorem warnings_nil : warnings ⟨[], none⟩ = [] := rfl

@[simp] theorem warnings_fault (fault : Decoder.Fault) :
    warnings ⟨[], some fault⟩ = fault.warnings := by
  simp [warnings]

@[simp] theorem warnings_cons (i : Instruction) (is : List Instruction)
    (fault : Option Decoder.Fault) : warnings ⟨i :: is, fault⟩ =
      (if i.Unknown then [.unassigned i.offset i.opcode] else []) ++ warnings ⟨is, fault⟩ := by
  by_cases h : i.Unknown <;> simp [warnings, h]

end Listing

lemma Event.ofItem_error (fault : Decoder.Fault) : ofItem (.error fault) = fault.warnings := by
  cases fault <;> rfl

lemma Event.ofItem_ok {i : Instruction}
    (named : i.mnemonic = (Opcode.entry i.opcode).mnemonic) :
    ofItem (.ok i) = if i.Unknown then [.unassigned i.offset i.opcode] else [] := by
  have hunknown : i.Unknown ↔ (Opcode.entry i.opcode).assigned = false := by
    rw [Instruction.Unknown, named]
    exact Opcode.mnemonic_eq_unknown_iff
  cases h : (Opcode.entry i.opcode).assigned <;> simp [ofItem, hunknown, h]

namespace Decoder
variable {policy : Policy} {pc : Nat} {opcode : UInt8} {immediate rest : Bytes}

lemma report_unassigned (refused : ¬policy.Accepts opcode) :
    report ⟨policy, pc, opcode :: rest⟩ = [] := by
  simp [report, Policy.not_accepts.mp refused]

/-- An opcode that carries bytes is assigned. -/
lemma report_truncated (accepted : policy.Accepts opcode)
    (cut : rest.length < (Opcode.entry opcode).width) :
    report ⟨policy, pc, opcode :: rest⟩ =
      [.truncated pc opcode (Opcode.entry opcode).width rest.length] := by
  have hassigned := Opcode.assigned_of_width_pos (Nat.zero_lt_of_lt cut)
  simp only [report, if_neg accepted.not_refused, List.take_of_length_le (Nat.le_of_lt cut),
    if_pos cut, if_pos hassigned, List.nil_append]

lemma report_instruction (accepted : policy.Accepts opcode)
    (full : immediate.length = (Opcode.entry opcode).width) :
    report ⟨policy, pc, opcode :: (immediate ++ rest)⟩ =
      if (Opcode.entry opcode).assigned then [] else [.unassigned pc opcode] := by
  simp only [report, if_neg accepted.not_refused, List.take_left' full, full, Nat.lt_irrefl,
    if_false, List.append_nil]

/-- What a step reports can be told from the item that it yields. -/
theorem report_eq (d : Decoder) :
    d.report = match d.step with
      | none => []
      | some (item, _) => Event.ofItem item := by
  obtain ⟨policy, pc, bytes⟩ := d
  cases bytes with
  | nil => rfl
  | cons opcode rest =>
    cases front policy opcode rest with
    | unassigned refused =>
      rw [step_unassigned refused]
      exact report_unassigned refused
    | truncated accepted cut =>
      rw [step_truncated accepted cut]
      exact report_truncated accepted cut
    | instruction accepted full =>
      rw [step_instruction accepted full, report_instruction accepted full]
      simp only [Event.ofItem, Instruction.ofCode_offset pc full]
      rfl

lemma mnemonic_of_step {d d' : Decoder} {i : Instruction} (h : d.step = some (.ok i, d')) :
    i.mnemonic = (Opcode.entry i.opcode).mnemonic := by
  obtain ⟨policy, pc, bytes⟩ := d
  cases bytes with
  | nil => cases h
  | cons opcode rest =>
    cases front policy opcode rest with
    | unassigned refused =>
      rw [step_unassigned refused] at h
      cases h
    | truncated accepted cut =>
      rw [step_truncated accepted cut] at h
      cases h
    | instruction accepted full =>
      rw [step_instruction accepted full] at h
      cases h
      rfl

/-- A pass warns of nothing but what its listing shows, and in the same order. -/
theorem events_listLogged (n : Nat) (d : Decoder) :
    (d.listLogged n).events = (d.listLogged n).value.warnings := by
  induction n generalizing d with
  | zero => rfl
  | succ n ih =>
    have hreport := d.report_eq
    cases hs : d.step with
    | none =>
      rw [hs] at hreport
      simp [listLogged, stepLogged, hs, hreport]
    | some next =>
      obtain ⟨item, d'⟩ := next
      rw [hs] at hreport
      cases item with
      | error fault => simp [listLogged, stepLogged, hs, hreport, Event.ofItem_error]
      | ok i =>
        have hitem := Event.ofItem_ok (mnemonic_of_step hs)
        simp [listLogged, stepLogged, hs, hreport, hitem, ih, -value_listLogged]

/-- Under a strict policy all that is listed has a name of its own. -/
lemma Pass.not_unknown {pc : Nat} {bytes : Bytes} {l : Listing} (h : Pass .reject pc bytes l) :
    ∀ i ∈ l.instructions, ¬i.Unknown := by
  induction h with
  | finished | unassigned | truncated => exact nofun
  | @instruction pc opcode immediate rest l accepted full more ih =>
    refine List.forall_mem_cons.mpr ⟨fun unknown => ?_, ih⟩
    have hassigned := Opcode.mnemonic_eq_unknown_iff.mp unknown
    rw [(Policy.reject_accepts opcode).mp accepted] at hassigned
    cases hassigned

end Decoder

/-- The last event of a run, by its listing. -/
def Listing.ending (size : Nat) (l : Listing) : Event :=
  match l.fault with
  | none => .finished size l.instructions.length
  | some fault => .stoppedEarly l.instructions.length fault

theorem events_decodeReport (policy : Policy) (input : Nat) (runtime : Bytes)
    (metadata : Option Metadata) :
    (decodeReport policy input runtime metadata).events =
      .decoding input runtime.length :: ((decodePartial policy runtime).warnings ++
        [(decodePartial policy runtime).ending runtime.length]) := by
  have hvalue : ((Decoder.start policy runtime).listLogged runtime.length).value =
      decodePartial policy runtime := Decoder.value_listLogged _ _
  have hevents := (Decoder.start policy runtime).events_listLogged runtime.length
  rw [hvalue] at hevents
  simp only [decodeReport, decodePartialLogged, Logged.events_bind, Logged.value_bind, hvalue,
    hevents, Listing.ending]
  generalize decodePartial policy runtime = l
  obtain ⟨instructions, fault⟩ := l
  cases fault <;> simp [Logged.emit]

/-- Nothing is logged of a split that fails or finds no metadata. -/
lemma separate_eq (settings : Settings) (code : Bytes) :
    separate settings code = match settings.split code with
      | .error fault => ⟨.error fault, []⟩
      | .ok (runtime, m) => ⟨.ok (runtime, m), Event.ofSplit runtime m⟩ := by
  unfold separate Settings.split Metadata.splitLogged
  split
  · cases Metadata.split settings.scan code <;> rfl
  · rfl

theorem events_disassembleLogged {settings : Settings} {code runtime : Bytes} {m : Option Metadata}
    (h : settings.split code = .ok (runtime, m)) :
    (disassembleLogged settings code).events = Event.ofSplit runtime m ++
      (decodeReport settings.unassigned code.length runtime m).events := by
  rw [disassembleLogged, Logged.events_bind, separate_eq, h]
  rfl

/-- What is written of a fault besides that it ended the pass. -/
def Decoder.Fault.told : Fault → List Event.Entry
  | .truncated opcode _ offset expected available =>
    [⟨"WARN", "truncated push operand", [("offset", toString offset),
      ("opcode", toString opcode.toNat), ("expected", toString expected),
      ("available", toString available.length)]⟩]
  | .unassigned .. => []

/-- The log of a run over a code of `input` bytes, as its report tells it. -/
def Report.told (input : Nat) (d : Report) : List Event.Entry :=
  d.metadata.toList.map (fun m =>
    ⟨"DEBUG", "stripped contract metadata", [("removed", toString m.length),
      ("remaining", toString d.codeLen), ("solc", Text.quoteOption m.solc)]⟩) ++
  [⟨"DEBUG", "decoding bytecode", [("input", toString input), ("runtime", toString d.codeLen)]⟩] ++
  (d.instructions.filter (·.Unknown)).map (fun i =>
    ⟨"WARN", "unassigned opcode, emitting sentinel",
      [("offset", toString i.offset), ("opcode", toString i.opcode.toNat)]⟩) ++
  d.fault.toList.flatMap Decoder.Fault.told ++
  [match d.fault with
    | none => ⟨"DEBUG", "disassembly finished",
      [("bytes", toString d.codeLen), ("instructions", toString d.instructions.length)]⟩
    | some fault => ⟨"INFO", "disassembly stopped early",
      [("decoded", toString d.instructions.length), ("error", fault.message)]⟩]

lemma entry_warnings (l : Listing) : l.warnings.map Event.entry =
    (l.instructions.filter (·.Unknown)).map (fun i =>
      ⟨"WARN", "unassigned opcode, emitting sentinel",
        [("offset", toString i.offset), ("opcode", toString i.opcode.toNat)]⟩) ++
    l.fault.toList.flatMap Decoder.Fault.told := by
  have hfault (fault : Decoder.Fault) : fault.warnings.map Event.entry = fault.told := by
    cases fault <;> rfl
  rw [Listing.warnings, List.map_append, List.map_map, List.map_flatMap]
  simp only [hfault]
  rfl

lemma entries_ofRuntime (policy : Policy) (input : Nat) (runtime : Bytes) (m : Option Metadata) :
    (Event.ofSplit runtime m ++ (decodeReport policy input runtime m).events).map Event.entry =
      (Report.ofRuntime policy runtime m).told input := by
  rw [events_decodeReport, Report.told, Report.ofRuntime]
  generalize decodePartial policy runtime = l
  have hstripped : (Event.ofSplit runtime m).map Event.entry = m.toList.map fun m =>
      ⟨"DEBUG", "stripped contract metadata", [("removed", toString m.length),
        ("remaining", toString runtime.length), ("solc", Text.quoteOption m.solc)]⟩ := by
    cases m <;> rfl
  rw [List.map_append, List.map_cons, List.map_append, entry_warnings, hstripped, List.map_singleton,
    Listing.ending]
  obtain ⟨instructions, fault⟩ := l
  simp only [List.append_assoc]
  cases fault <;> rfl

/-- A run logs nothing if the split fails. Otherwise its log is what the report and the size of the
code tell, and there is no unknown instruction to be warned of under a strict policy. -/
theorem log_tells_run (settings : Settings) (code : Bytes) :
    (∀ fault, settings.split code = .error fault → (disassembleLogged settings code).events = []) ∧
    (∀ runtime m, settings.split code = .ok (runtime, m) → ∃ d,
      disassemble settings code = .ok d ∧ d.metadata = m ∧ d.codeLen = runtime.length ∧
        (disassembleLogged settings code).events.map Event.entry = d.told code.length ∧
        (settings.unassigned = .reject → ∀ i ∈ d.instructions, ¬i.Unknown)) := by
  refine ⟨fun fault h => ?_, fun runtime m h => ?_⟩
  · rw [disassembleLogged, Logged.events_bind, separate_eq, h]
    rfl
  · refine ⟨_, disassemble_of_split h, rfl, rfl, ?_, fun strict => ?_⟩
    · rw [events_disassembleLogged h, entries_ofRuntime]
    · rw [strict]
      exact (pass_decodePartial .reject runtime).not_unknown

end EvmListing
