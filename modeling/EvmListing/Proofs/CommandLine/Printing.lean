import EvmListing.Proofs.CommandLine.Outcome
import EvmListing.Proofs.Json.Squeeze
import EvmListing.Proofs.Text.Comments

/-! What is printed for readers that go by lines: header lines are comments, all other lines are
instructions. The name of the compiler comes from the code and is printed as it is. JSON is printed
on as many lines as it takes, and only its layout tells it from the text on one line. -/
namespace EvmListing
open Text (OnOneLine IsComment StaysComment linesOf)

namespace Metadata

/-- Whether the hashes of a record are hex. -/
structure Hashed (m : Metadata) : Prop where
  ipfs : ∀ s ∈ m.ipfs, ∃ bs, s = Hex.encode bs
  bzzr0 : ∀ s ∈ m.bzzr0, ∃ bs, s = Hex.encode bs
  bzzr1 : ∀ s ∈ m.bzzr1, ∃ bs, s = Hex.encode bs

lemma kept_hashed : Kept Hashed where
  empty := ⟨nofun, nofun, nofun⟩
  put {m} key value h := by
    fun_cases Metadata.put m key value with
    | case3 content => exact ⟨by simp, h.bzzr0, h.bzzr1⟩
    | case4 content => exact ⟨h.ipfs, by simp, h.bzzr1⟩
    | case5 content => exact ⟨h.ipfs, h.bzzr0, by simp⟩
    | _ => exact ⟨h.ipfs, h.bzzr0, h.bzzr1⟩
  sized _ h := ⟨h.ipfs, h.bzzr0, h.bzzr1⟩

end Metadata

/-- Whether the name of the compiler leaves only comments where a comment shows it. -/
def Report.Guarded (d : Report) : Prop :=
  ∀ m ∈ d.metadata, ∀ solc ∈ m.solc, StaysComment solc.toList

/-- A line of an instruction begins with its address. -/
lemma Instruction.not_isComment_text (i : Instruction) : ¬IsComment i.text := by
  have hdigits : ';' ∉ Nat.toDigits 10 i.address := not_mem_decimal rfl i.address
  rw [IsComment, toList_text]
  intro h
  cases hd : Nat.toDigits 10 i.address with
  | nil => simp [hd] at h
  | cons c cs =>
    rw [hd] at h hdigits
    cases h
    exact hdigits List.mem_cons_self

namespace CommandLine

lemma onOneLine_item {label : String} (hlabel : OnOneLine label.toList) {value : Option String}
    (h : ∀ s ∈ value, ∃ bs, s = Hex.encode bs) : OnOneLine (item label value).toList := by
  cases value with
  | none => exact List.not_mem_nil
  | some s =>
    obtain ⟨bs, rfl⟩ := h s rfl
    have hdigits := Hex.onOneLine_digits bs
    unfold item Hex.encode
    simp only [String.toList_append, String.toList_ofList, Text.onOneLine_append]
    exact ⟨⟨⟨by decide, hlabel⟩, by decide⟩, by simpa [OnOneLine] using hdigits⟩

/-- What a header line shows after the name of the compiler. -/
def hashItems (m : Metadata) : String :=
  item "ipfs" m.ipfs ++ item "bzzr" (m.bzzr1 <|> m.bzzr0)

lemma onOneLine_hashItems {m : Metadata} (h : m.Hashed) : OnOneLine (hashItems m).toList := by
  have hbzzr : ∀ s ∈ m.bzzr1 <|> m.bzzr0, ∃ bs, s = Hex.encode bs := by
    have hbzzr0 := h.bzzr0
    have hbzzr1 := h.bzzr1
    cases hm : m.bzzr1 with
    | none => simpa using hbzzr0
    | some s => simpa [hm] using hbzzr1
  rw [hashItems, String.toList_append, Text.onOneLine_append]
  exact ⟨onOneLine_item (by decide) h.ipfs, onOneLine_item (by decide) hbzzr⟩

/-- A list of items is empty or begins with a comma. -/
lemma head?_hashItems (m : Metadata) : (hashItems m).toList.head? ≠ some ';' := by
  unfold hashItems
  cases m.ipfs with
  | some s => simp [item]
  | none =>
    cases m.bzzr1 <|> m.bzzr0 with
    | some s => simp [item]
    | none => simp [item]

lemma staysComment_solc_iff {front : List Char} (hfront : OnOneLine front) (value : Option String) :
    StaysComment (front ++ (item "solc" value).toList) ↔
      ∀ solc ∈ value, StaysComment solc.toList := by
  rw [Text.staysComment_append_left hfront]
  cases value with
  | none => simp [item, StaysComment]
  | some solc =>
    have hitem : (item "solc" (some solc)).toList = ", solc ".toList ++ solc.toList := by
      simp [item]
    rw [hitem, Text.staysComment_append_left (by decide)]
    simp

lemma isComment_metadataLine {m : Metadata} (h : m.Hashed) :
    (∀ line ∈ linesOf (metadataLine m), IsComment line) ↔
      ∀ solc ∈ m.solc, StaysComment solc.toList := by
  have hline : metadataLine m = "; metadata " ++ toString m.length ++ " bytes" ++
      item "solc" m.solc ++ hashItems m ++ "\n" := by
    unfold metadataLine hashItems
    simp only [String.append_assoc]
  have hfront : OnOneLine ("; metadata " ++ toString m.length ++ " bytes").toList := by
    simpa [OnOneLine] using not_mem_decimal rfl m.length
  have hsemicolon : ("; metadata " ++ toString m.length ++ " bytes" ++
      item "solc" m.solc ++ hashItems m).toList.head? = some ';' := by
    simp
  rw [hline, Text.isComment_linesOf_iff, and_iff_right hsemicolon, String.toList_append,
    Text.staysComment_append_right (onOneLine_hashItems h) (head?_hashItems m),
    String.toList_append, staysComment_solc_iff hfront]

lemma linesOf_header (d : Report) : linesOf (header d) =
    ["; code hash " ++ Hex.encode d.codeHash, "; code size " ++ toString d.codeLen ++ " bytes"] ++
      (d.metadata.map fun m => linesOf (metadataLine m)).getD [] := by
  have hhash : OnOneLine ("; code hash " ++ Hex.encode d.codeHash).toList := by
    simpa [OnOneLine, Hex.encode] using Hex.onOneLine_digits d.codeHash
  have hsize : OnOneLine ("; code size " ++ toString d.codeLen ++ " bytes").toList := by
    simpa [OnOneLine] using not_mem_decimal rfl d.codeLen
  have hheader : header d = "; code hash " ++ Hex.encode d.codeHash ++ "\n" ++
      ("; code size " ++ toString d.codeLen ++ " bytes" ++ "\n" ++
        (d.metadata.map metadataLine).getD "") := by
    unfold header
    rw [← String.toList_inj]
    simp
  rw [hheader, Text.linesOf_cons hhash, Text.linesOf_cons hsize]
  cases d.metadata with
  | none => simp [linesOf]
  | some m => simp

theorem isComment_header {d : Report} (h : ∀ m ∈ d.metadata, m.Hashed) :
    (∀ line ∈ linesOf (header d), IsComment line) ↔ d.Guarded := by
  have hfront : ∀ line ∈ ["; code hash " ++ Hex.encode d.codeHash,
      "; code size " ++ toString d.codeLen ++ " bytes"], IsComment line := by
    simp [IsComment]
  rw [linesOf_header, List.forall_mem_append, and_iff_right hfront, Report.Guarded]
  cases hm : d.metadata with
  | none => simp
  | some m => simpa using isComment_metadataLine (h m hm)

lemma exists_header_eq (d : Report) : ∃ front, header d = front ++ "\n" := by
  unfold header
  cases d.metadata with
  | none =>
    refine ⟨"; code hash " ++ Hex.encode d.codeHash ++ "\n" ++
      "; code size " ++ toString d.codeLen ++ " bytes", ?_⟩
    rw [← String.toList_inj]
    simp
  | some m => exact ⟨_, (String.append_assoc : _ ++ "\n" = _).symm⟩

section
variable {settings : Settings} {code : Bytes} {d : Report}

/-- The lines of a printed report are those of its header, then one for each instruction. -/
lemma linesOf_render (h : disassemble settings code = .ok d) :
    linesOf (render false d) = linesOf (header d) ++ d.instructions.map Instruction.text := by
  obtain ⟨runtime, m, -, rfl⟩ := exists_split_of_disassemble h
  have hlines := onOneLine_of_named (named_decodePartial settings.unassigned runtime)
  obtain ⟨front, hfront⟩ := exists_header_eq (.ofRuntime settings.unassigned runtime m)
  have hrender : render false (.ofRuntime settings.unassigned runtime m) = front ++ "\n" ++
      Text.lines ((decodePartial settings.unassigned runtime).instructions.map Instruction.text) := by
    rw [← hfront, ← Listing.text_eq_lines]
    rfl
  rw [hrender, Text.linesOf_append, hfront, Text.linesOf_lines hlines]
  rfl

lemma uncommented_render (h : disassemble settings code = .ok d) :
    (linesOf (render false d)).filter (¬IsComment ·) =
      (linesOf (header d)).filter (¬IsComment ·) ++ d.instructions.map Instruction.text := by
  have htrace : (d.instructions.map Instruction.text).filter (¬IsComment ·) =
      d.instructions.map Instruction.text := by
    apply List.filter_eq_self.mpr
    intro line hline
    obtain ⟨i, -, rfl⟩ := List.mem_map.mp hline
    exact decide_eq_true i.not_isComment_text
  rw [linesOf_render h, List.filter_append, htrace]

end

lemma Ends.stdout_eq {files : Files} {arguments : List String} {options : Options} {code : Bytes}
    {d : Report} (program : String) (h : Ends files arguments (.reported options code d)) :
    (run program files arguments).stdout = render options.json d := by
  cases h with
  | reported parsed loaded disassembled =>
    simp only [run, parsed, execute, loaded, disassembled]
    cases d.fault <;> rfl

/-- A report in print is a number of whole lines, those of its header and one for each instruction.
Whoever leaves the comments out reads the instructions and nothing else if and only if the name of
the compiler begins a comment wherever it ends a line; only then is all of the header comments. -/
theorem trace_unforged_iff (program : String) {files : Files} {arguments : List String}
    {options : Options} {code : Bytes} {d : Report}
    (h : Ends files arguments (.reported options code d)) (plain : options.json = false) :
    let out := (run program files arguments).stdout
    Text.lines (linesOf out) = out ∧
    linesOf out = linesOf (header d) ++ d.instructions.map Instruction.text ∧
    ((linesOf out).filter (¬IsComment ·) = d.instructions.map Instruction.text ↔ d.Guarded) ∧
    ((∀ line ∈ linesOf (header d), IsComment line) ↔ d.Guarded) := by
  have hout : (run program files arguments).stdout = render false d := by
    rw [h.stdout_eq, plain]
  cases h with
  | reported parsed loaded disassembled =>
    have hcomment := isComment_header (Metadata.kept_hashed.disassemble disassembled)
    simp only [hout]
    refine ⟨?_, linesOf_render disassembled, ?_, hcomment⟩
    · rw [linesOf_render disassembled, Text.lines_append]
      obtain ⟨front, hfront⟩ := exists_header_eq d
      rw [hfront, Text.lines_linesOf, ← hfront, ← Listing.text_eq_lines]
      rfl
    · rw [uncommented_render disassembled, List.append_left_eq_self, List.filter_eq_nil_iff,
        ← hcomment]
      simp

/-- A name that ends a line where it stands in a comment begins the next one. -/
theorem trace_unforged_guarded :
    ∃ d, Ends (fun _ => .error .notFound) ["fea264736f6c63630a3b78616100000d"]
        (.reported ⟨"fea264736f6c63630a3b78616100000d", false, {}⟩
          [0xFE, 0xA2, 0x64, 0x73, 0x6F, 0x6C, 0x63, 0x63, 0x0A, 0x3B, 0x78, 0x61, 0x61, 0x00, 0x00,
            0x0D] d) ∧
      d.Guarded ∧ d.instructions.map Instruction.text = ["1 INVALID"] ∧
      (linesOf (run "evm-listing" (fun _ => .error .notFound)
        ["fea264736f6c63630a3b78616100000d"]).stdout).filter (¬IsComment ·) = ["1 INVALID"] := by
  have hsplit : Settings.split {} [0xFE, 0xA2, 0x64, 0x73, 0x6F, 0x6C, 0x63, 0x63, 0x0A, 0x3B, 0x78,
      0x61, 0x61, 0x00, 0x00, 0x0D] =
      .ok ([0xFE], some { solc := some "\n;x", extra := [("a", "0")], length := 15 }) := rfl
  have hends : Ends (fun _ => .error .notFound) ["fea264736f6c63630a3b78616100000d"] (.reported _ _ _) :=
    .reported rfl rfl (disassemble_of_split hsplit)
  have hguarded : (Report.ofRuntime .sentinel [0xFE]
      (some { solc := some "\n;x", extra := [("a", "0")], length := 15 })).Guarded := by
    rintro m ⟨⟩ solc ⟨⟩
    decide
  exact ⟨_, hends, hguarded, by decide,
    (trace_unforged_iff "evm-listing" hends rfl).2.2.1.mpr hguarded⟩

/-- A name that ends a line and goes on with the text of an instruction puts it before the first
instruction of the code. -/
theorem forged_trace :
    ∃ d, Ends (fun _ => .error .notFound) ["fea264736f6c63670a312053544f506161000011"]
        (.reported ⟨"fea264736f6c63670a312053544f506161000011", false, {}⟩
          [0xFE, 0xA2, 0x64, 0x73, 0x6F, 0x6C, 0x63, 0x67, 0x0A, 0x31, 0x20, 0x53, 0x54, 0x4F, 0x50,
            0x61, 0x61, 0x00, 0x00, 0x11] d) ∧
      d.instructions.map Instruction.text = ["1 INVALID"] ∧
      (linesOf (run "evm-listing" (fun _ => .error .notFound)
        ["fea264736f6c63670a312053544f506161000011"]).stdout).filter (¬IsComment ·) =
          ["1 STOP", "1 INVALID"] := by
  have hsplit : Settings.split {} [0xFE, 0xA2, 0x64, 0x73, 0x6F, 0x6C, 0x63, 0x67, 0x0A, 0x31, 0x20,
      0x53, 0x54, 0x4F, 0x50, 0x61, 0x61, 0x00, 0x00, 0x11] =
      .ok ([0xFE], some { solc := some "\n1 STOP", extra := [("a", "0")], length := 19 }) := rfl
  have hd := disassemble_of_split hsplit
  have hends : Ends (fun _ => .error .notFound) ["fea264736f6c63670a312053544f506161000011"]
      (.reported _ _ _) := .reported rfl rfl hd
  have htrace : (Report.ofRuntime .sentinel [0xFE] (some
      { solc := some "\n1 STOP", extra := [("a", "0")], length := 19 })).instructions.map
        Instruction.text = ["1 INVALID"] := by decide
  have hlines : (linesOf (metadataLine
      { solc := some "\n1 STOP", extra := [("a", "0")], length := 19 })).filter (¬IsComment ·) =
        ["1 STOP"] := by decide
  have hfront (s t : String) : ["; code hash " ++ s, "; code size " ++ t ++ " bytes"].filter
      (¬IsComment ·) = [] := by simp [IsComment]
  refine ⟨_, hends, htrace, ?_⟩
  -- the lines of the header are known without the digest in the first of them
  rw [hends.stdout_eq, uncommented_render hd, htrace, linesOf_header, List.filter_append, hfront]
  exact congrArg (· ++ ["1 INVALID"]) hlines

/-- Without the spaces and line ends between its tokens, the JSON that is printed of a report is the
compact text of the report, whatever stands in its strings. -/
theorem squeeze_printed_json {settings : Settings} {code : Bytes} {d : Report}
    (h : disassemble settings code = .ok d) :
    Json.squeeze (render true d) = d.document.compact ∧
    ∀ program files arguments input, parse files arguments = .ok (some ⟨input, true, settings⟩) →
      (Bytecode.load files input).value = .ok code →
        Json.squeeze (run program files arguments).stdout = d.document.compact := by
  have hsqueeze : Json.squeeze (render true d) = d.document.compact := d.document.squeeze_pretty
  refine ⟨hsqueeze, fun program files arguments input parsed loaded => ?_⟩
  rw [(Ends.reported parsed loaded h).stdout_eq]
  exact hsqueeze

/-- Spaces, line ends, quotation marks and backslashes of metadata stay where they are. -/
theorem squeeze_printed_json_strings :
    ∃ d, disassemble {} [0x60, 0x00, 0xA2, 0x64, 0x73, 0x6F, 0x6C, 0x63, 0x64, 0x22, 0x20, 0x5C, 0x0A,
        0x63, 0x61, 0x20, 0x62, 0xF5, 0x00, 0x10] = .ok d ∧
      d.metadata = some { solc := some "\" \\\n", extra := [("a b", "true")], length := 18 } ∧
      Json.squeeze (run "evm-listing" (fun _ => .error .notFound)
        ["0x6000a264736f6c636422205c0a63612062f50010", "--json"]).stdout = d.document.compact := by
  have hsplit : Settings.split {} [0x60, 0x00, 0xA2, 0x64, 0x73, 0x6F, 0x6C, 0x63, 0x64, 0x22, 0x20,
      0x5C, 0x0A, 0x63, 0x61, 0x20, 0x62, 0xF5, 0x00, 0x10] = .ok ([0x60, 0x00],
        some { solc := some "\" \\\n", extra := [("a b", "true")], length := 18 }) := rfl
  have hd := disassemble_of_split hsplit
  exact ⟨_, hd, rfl, (squeeze_printed_json hd).2 _ _ _ _ rfl rfl⟩

end CommandLine
end EvmListing
