import EvmListing.CommandLine
import EvmListing.Proofs.Report.Json
import EvmListing.Proofs.Report.Trace

/-! How runs end. A run goes through stages, and the first one that fails decides what is left
behind; the exit status and whether anything was printed tell which one it was. -/
namespace EvmListing
open Text (OnOneLine)

lemma Hex.onOneLine_digits (bs : Bytes) : OnOneLine (digits bs) :=
  (spells_digits bs).not_mem (by decide)

namespace Decoder

lemma Fault.onOneLine_byteText (b : UInt8) : OnOneLine (byteText b).toList := by
  simpa [OnOneLine, byteText, Hex.encode] using Hex.onOneLine_digits [b]

lemma Fault.onOneLine_bytesText (bs : Bytes) : OnOneLine (bytesText bs).toList := by
  have hparts : ∀ s ∈ (bs.map fun b => String.ofList (Hex.ofByte b)).map String.toList,
      OnOneLine s := by
    intro s hs
    simp only [List.map_map, List.mem_map, Function.comp_apply, String.toList_ofList] at hs
    obtain ⟨b, -, rfl⟩ := hs
    simpa using Hex.onOneLine_digits [b]
  have hjoined := Text.onOneLine_intercalate (by decide : OnOneLine ", ".toList) hparts
  rw [bytesText]
  simp only [String.toList_append, Text.onOneLine_append, String.toList_intercalate]
  exact ⟨⟨by decide, hjoined⟩, by decide⟩

/-- What stands in the message of a fault is an opcode, its name, numbers and digits. -/
lemma Pass.onOneLine_message {policy : Policy} {pc : Nat} {bytes : Bytes} {l : Listing}
    (h : Pass policy pc bytes l) :
    ∀ fault, l.fault = some fault → OnOneLine fault.message.toList := by
  have hnumber (n : Nat) : OnOneLine (toString n).toList := by
    simpa [OnOneLine] using not_mem_decimal rfl n
  have hname (opcode : UInt8) : OnOneLine (Opcode.entry opcode).mnemonic.toList := fun hmem =>
    absurd (Opcode.isAlphanum_mnemonic opcode '\n' hmem) (by decide)
  induction h with
  | finished =>
    intro fault hfault
    cases hfault
  | @unassigned pc opcode =>
    intro fault hfault
    obtain rfl := Option.some.inj hfault
    unfold Fault.message
    simp only [String.toList_append, Text.onOneLine_append, and_assoc]
    exact ⟨by decide, Fault.onOneLine_byteText opcode, by decide, hnumber pc⟩
  | @truncated pc opcode rest =>
    intro fault hfault
    obtain rfl := Option.some.inj hfault
    unfold Fault.message
    simp only [String.toList_append, Text.onOneLine_append, and_assoc]
    exact ⟨by decide, hname opcode, by decide, Fault.onOneLine_byteText opcode, by decide,
      hnumber pc, by decide, hnumber _, by decide, Fault.onOneLine_bytesText rest⟩
  | instruction _ _ _ ih => exact ih

end Decoder

namespace Report

/-- Whether a report lists all that a policy lets be read of a runtime before a fault. -/
structure StopsAt (policy : Policy) (runtime : Bytes) (d : Report) (fault : Decoder.Fault) :
    Prop where
  listed : decodePartial policy runtime = ⟨d.instructions, some fault⟩
  before : (d.instructions.map Instruction.size).sum = fault.offset
  inside : fault.offset < runtime.length
  oneLine : OnOneLine fault.message.toList

lemma stopsAt_ofRuntime {policy : Policy} {runtime : Bytes} {m : Option Metadata}
    {fault : Decoder.Fault} (h : (ofRuntime policy runtime m).fault = some fault) :
    StopsAt policy runtime (ofRuntime policy runtime m) fault where
  listed := by rw [← h]; rfl
  before := ((accounts_ofRuntime policy runtime m).offset fault h).2
  inside := ((accounts_ofRuntime policy runtime m).offset fault h).1
  oneLine := (pass_decodePartial policy runtime).onOneLine_message fault h

/-- Whether a text is all of a report and nothing else: JSON for a value that shows the report, or
the header and a line for each instruction. -/
inductive Printed (d : Report) : Bool → String → Prop
  | json {v : Json.Value} (only : ∀ w, Json.IsText w (d.document.pretty ++ "\n").toList ↔ w = v)
      (shown : d.ShownBy v) : d.Printed true (d.document.pretty ++ "\n")
  | lines (each : ∀ line ∈ d.instructions.map Instruction.text, OnOneLine line.toList) :
      d.Printed false
        (CommandLine.header d ++ Text.lines (d.instructions.map Instruction.text))

lemma Printed.ne_empty {d : Report} {json : Bool} {out : String} (h : d.Printed json out) :
    out ≠ "" := by
  cases h with
  | json => simp
  | lines =>
    unfold CommandLine.header
    simp

end Report

theorem printed_of_disassemble {settings : Settings} {code : Bytes} {d : Report}
    (h : disassemble settings code = .ok d) (json : Bool) :
    d.Printed json (CommandLine.render json d) := by
  cases json with
  | true =>
    exact .json d.document.isText_prettyLine_iff (Report.shownBy_document (regular_of_disassemble h))
  | false =>
    obtain ⟨runtime, m, -, rfl⟩ := exists_split_of_disassemble h
    have hlines := onOneLine_of_named (named_decodePartial settings.unassigned runtime)
    have hprinted := Report.Printed.lines (d := .ofRuntime settings.unassigned runtime m) hlines
    rwa [← Listing.text_eq_lines] at hprinted

/-- What can be told from the end of a run by whoever does not know what was asked for. -/
inductive Verdict where
  | refused
  | helped
  | failed
  | stopped
  | complete
  deriving DecidableEq, Repr

/-- The verdict that exit status and standard output give. -/
def Outcome.verdict (o : Outcome) : Verdict :=
  if o.stdout = "" then
    if o.exit = 0 then .helped else if o.exit = 2 then .refused else .failed
  else if o.exit = 0 then .complete else .stopped

namespace CommandLine

/-- How a run ends: at the first stage that fails, or with a report. -/
inductive Ending where
  | refused (fault : Fault)
  | helped
  | unloaded (error : Error)
  | malformed (fault : Metadata.Fault)
  | reported (options : Options) (code : Bytes) (d : Report)

lemma usage_ne_empty (program : String) : usage program ≠ "" := by
  unfold usage
  rw [List.map_cons, String.join_cons]
  intro h
  rw [String.append_eq_empty_iff, String.append_eq_empty_iff] at h
  exact absurd h.1.2 (by decide)

namespace Ending

def verdict : Ending → Verdict
  | refused _ => .refused
  | helped => .helped
  | unloaded _ | malformed _ => .failed
  | reported _ _ d => if d.isComplete then .complete else .stopped

def exit : Ending → UInt8
  | refused _ => 2
  | helped => 0
  | unloaded _ | malformed _ => 1
  | reported _ _ d => if d.isComplete then 0 else 1

/-- Whether a text is what goes to standard output. Only reports are printed. -/
def Prints : Ending → String → Prop
  | reported options _ d, out => d.Printed options.json out
  | _, out => out = ""

/-- What goes to standard error. -/
def complaint (program : String) : Ending → String
  | refused fault => "error: " ++ fault.message ++ "\n" ++ usage program
  | helped => usage program
  | unloaded error =>
    "Error: failed to load bytecode\n\nCaused by:\n    " ++ error.message ++ "\n"
  | malformed fault => "Error: " ++ fault.toError.message ++ "\n"
  | reported _ _ d =>
    Text.lines (d.fault.toList.map fun fault => "error: " ++ fault.message)

lemma complaint_reported (program : String) (options : Options) (code : Bytes) (d : Report) :
    (reported options code d).complaint program =
      Text.lines (d.fault.toList.map fun fault => "error: " ++ fault.message) := rfl

/-- What an ending leaves behind. -/
structure Leaves (program : String) (ending : Ending) (o : Outcome) : Prop where
  exit : o.exit = ending.exit
  stdout : ending.Prints o.stdout
  stderr : o.stderr = ending.complaint program

theorem Leaves.verdict_eq {program : String} {ending : Ending} {o : Outcome}
    (h : ending.Leaves program o) : o.verdict = ending.verdict := by
  have hexit := h.exit
  have hstdout := h.stdout
  unfold Outcome.verdict
  cases ending with
  | refused | helped | unloaded | malformed =>
    simp only [Prints, Ending.exit] at hexit hstdout
    simp [hexit, hstdout, verdict]
  | reported options code d =>
    have hne : o.stdout ≠ "" := hstdout.ne_empty
    simp only [Ending.exit] at hexit
    rw [if_neg hne, hexit, verdict]
    cases d.isComplete <;> rfl

/-- Only a complete report goes without a word on standard error. -/
theorem complaint_eq_empty_iff {program : String} {ending : Ending} :
    ending.complaint program = "" ↔ ending.verdict = .complete := by
  unfold complaint
  cases ending with
  | refused fault => simp [verdict]
  | helped => simp [verdict, usage_ne_empty]
  | unloaded error => simp [verdict]
  | malformed fault => simp [verdict]
  | reported options code d =>
    cases hfault : d.fault with
    | none => simp [verdict, Report.isComplete, hfault, Text.lines]
    | some fault => simp [verdict, Report.isComplete, hfault, Text.lines_singleton]

end Ending

/-- The stages that lead to an ending. -/
inductive Ends (files : Files) (arguments : List String) : Ending → Prop
  | refused {fault : Fault} (parsed : parse files arguments = .error fault) :
      Ends files arguments (.refused fault)
  | helped (parsed : parse files arguments = .ok none) : Ends files arguments .helped
  | unloaded {options : Options} {error : Error}
      (parsed : parse files arguments = .ok (some options))
      (loaded : (Bytecode.load files options.input).value = .error error) :
      Ends files arguments (.unloaded error)
  | malformed {options : Options} {code : Bytes} {fault : Metadata.Fault}
      (parsed : parse files arguments = .ok (some options))
      (loaded : (Bytecode.load files options.input).value = .ok code)
      (disassembled : disassemble options.settings code = .error fault) :
      Ends files arguments (.malformed fault)
  | reported {options : Options} {code : Bytes} {d : Report}
      (parsed : parse files arguments = .ok (some options))
      (loaded : (Bytecode.load files options.input).value = .ok code)
      (disassembled : disassemble options.settings code = .ok d) :
      Ends files arguments (.reported options code d)

section
variable {files : Files} {arguments : List String} {ending : Ending}

/-- Whatever the stages give, one of the endings is reached. -/
theorem exists_ends (files : Files) (arguments : List String) :
    ∃ ending, Ends files arguments ending := by
  cases hparsed : parse files arguments with
  | error fault => exact ⟨_, .refused hparsed⟩
  | ok asked =>
    cases asked with
    | none => exact ⟨_, .helped hparsed⟩
    | some options =>
      cases hloaded : (Bytecode.load files options.input).value with
      | error error => exact ⟨_, .unloaded hparsed hloaded⟩
      | ok code =>
        cases hdisassembled : disassemble options.settings code with
        | error fault => exact ⟨_, .malformed hparsed hloaded hdisassembled⟩
        | ok d => exact ⟨_, .reported hparsed hloaded hdisassembled⟩

theorem Ends.unique {ending' : Ending} (h : Ends files arguments ending)
    (h' : Ends files arguments ending') : ending = ending' := by
  -- the stage at which two endings part would have two results
  cases h <;> cases h' <;> simp_all

theorem Ends.leaves (program : String) (h : Ends files arguments ending) :
    ending.Leaves program (run program files arguments) := by
  cases h with
  | refused parsed =>
    rw [run, parsed]
    exact ⟨rfl, rfl, rfl⟩
  | helped parsed =>
    rw [run, parsed]
    exact ⟨rfl, rfl, rfl⟩
  | unloaded parsed loaded =>
    simp only [run, parsed, execute, loaded]
    exact ⟨rfl, rfl, rfl⟩
  | malformed parsed loaded disassembled =>
    simp only [run, parsed, execute, loaded, disassembled]
    exact ⟨rfl, rfl, rfl⟩
  | @reported options code d parsed loaded disassembled =>
    have hprinted := printed_of_disassemble disassembled options.json
    cases hfault : d.fault with
    | none =>
      have hcomplete : d.isComplete = true := by rw [Report.isComplete, hfault]; rfl
      simp only [run, parsed, execute, loaded, disassembled, hfault]
      refine ⟨?_, hprinted, ?_⟩
      · rw [Ending.exit, if_pos hcomplete]
      · rw [Ending.complaint_reported, hfault]
        rfl
    | some fault =>
      have hstopped : ¬d.isComplete = true := by simp [Report.isComplete, hfault]
      simp only [run, parsed, execute, loaded, disassembled, hfault]
      refine ⟨?_, hprinted, ?_⟩
      · rw [Ending.exit, if_neg hstopped]
      · rw [Ending.complaint_reported, hfault]
        exact (Text.lines_singleton _).symm

theorem Ends.stopsAt {options : Options} {code : Bytes} {d : Report}
    (h : Ends files arguments (.reported options code d)) {fault : Decoder.Fault}
    (hfault : d.fault = some fault) : ∃ runtime m, options.settings.split code = .ok (runtime, m) ∧
      d.StopsAt options.settings.unassigned runtime fault := by
  cases h with
  | reported parsed loaded disassembled =>
    obtain ⟨runtime, m, hsplit, rfl⟩ := exists_split_of_disassemble disassembled
    exact ⟨runtime, m, hsplit, Report.stopsAt_ofRuntime hfault⟩

end

/-- A run ends in exactly one way, and what it leaves is what that ending asks for: the whole of a
report on standard output or nothing. Exit status and standard output tell the kind of ending, and
standard error is empty for complete reports alone. A report that stops at a fault lists all that was
decoded up to there. -/
theorem run_tells_ending (program : String) (files : Files) (arguments : List String) :
    ∃ ending, (∀ e, Ends files arguments e ↔ e = ending) ∧
      ending.Leaves program (run program files arguments) ∧
      (run program files arguments).verdict = ending.verdict ∧
      ((run program files arguments).stderr = "" ↔ ending.verdict = .complete) ∧
      ∀ options code d fault, ending = .reported options code d → d.fault = some fault →
        ∃ runtime m, options.settings.split code = .ok (runtime, m) ∧
          d.StopsAt options.settings.unassigned runtime fault := by
  obtain ⟨ending, hends⟩ := exists_ends files arguments
  have hleaves := hends.leaves program
  refine ⟨ending, fun e => ⟨fun he => he.unique hends, fun he => he ▸ hends⟩, hleaves,
    hleaves.verdict_eq, ?_, ?_⟩
  · rw [hleaves.stderr]
    exact Ending.complaint_eq_empty_iff
  · rintro options code d fault rfl hfault
    exact hends.stopsAt hfault

example : (run "evm-listing" (fun _ => .error .notFound) ["0x601"]).verdict = .failed := by decide

end CommandLine
end EvmListing
