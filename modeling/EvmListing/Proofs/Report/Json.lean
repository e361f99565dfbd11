import EvmListing.Proofs.Json.Fields
import EvmListing.Proofs.Metadata.Append
import EvmListing.Proofs.Report.Pipeline
import EvmListing.Proofs.Text.Order
import Mathlib.Data.Option.Basic

/-! The JSON of a report. Whoever reads it finds all that the report says, each thing under its name
and no name a second time. -/
namespace EvmListing
open Json (Value present)
open Document (memberValues memberValues_append memberValues_optional)

/-- Whether a value is a hex text of a number, in digits of some form. -/
def Json.Value.IsHex (form : List Char → Prop) (n : Nat) (v : Value) : Prop :=
  ∃ ds, v = .string (String.ofList ('0' :: 'x' :: ds)) ∧ Hex.Spells n ds ∧ form ds

/-- Whether an object shows a metadata record: each place under its name, and a place without
content under none. -/
structure Metadata.ShownBy (m : Metadata) (v : Value) : Prop where
  names : v.names.Sublist ["solc", "ipfs", "bzzr0", "bzzr1", "experimental", "extra", "length"]
  solc : v.get? "solc" = m.solc.map .string
  ipfs : v.get? "ipfs" = m.ipfs.map .string
  bzzr0 : v.get? "bzzr0" = m.bzzr0.map .string
  bzzr1 : v.get? "bzzr1" = m.bzzr1.map .string
  experimental : v.get? "experimental" = some (.bool m.experimental)
  extra : v.get? "extra" =
    if m.extra = [] then none else some (.object (m.extra.map fun e => (e.1, .string e.2)))
  ascending : (m.extra.map fun e => Utf8.encode e.1.toList).Pairwise (· < ·)
  length : (v.get? "length").bind Value.nat? = some m.length

structure Instruction.ShownBy (i : Instruction) (v : Value) : Prop where
  names : v.names.Sublist ["address", "opcode", "mnemonic", "operand"]
  address : (v.get? "address").bind Value.nat? = some i.address
  opcode : (v.get? "opcode").bind Value.nat? = some i.opcode.toNat
  mnemonic : v.get? "mnemonic" = some (.string i.mnemonic)
  operand : Option.Rel (fun w u => u.IsHex Hex.Minimal w.toNat) i.operand (v.get? "operand")

structure Report.ShownBy (d : Report) (v : Value) : Prop where
  names : v.names.Sublist ["code_hash", "code_len", "metadata", "instructions", "error"]
  codeHash : ∃ u, v.get? "code_hash" = some u ∧
    u.IsHex (fun ds => ds.length = 64) (bigEndian d.codeHash)
  hashLength : d.codeHash.length = 32
  codeLen : (v.get? "code_len").bind Value.nat? = some d.codeLen
  metadata : Option.Rel Metadata.ShownBy d.metadata (v.get? "metadata")
  instructions : ∃ items, v.get? "instructions" = some (.array items) ∧
    List.Forall₂ Instruction.ShownBy d.instructions items
  error : v.get? "error" = d.fault.map fun fault => .string (Error.decoding fault).message

namespace Metadata

/-- The keys that have no field of their own, in ascending order. -/
def Ascending (m : Metadata) : Prop := (m.extra.map Prod.fst).Pairwise (· < ·)

lemma Ascending.put {m : Metadata} (h : m.Ascending) (key : String) (value : Cbor.Item) :
    (m.put key value).Ascending := by
  have hextra : (m.put key value).extra =
      if place key value = .extra key then insert key (render value) m.extra else m.extra := by
    rw [put_eq]
  rw [Ascending, hextra]
  split_ifs
  · exact ascending_insert _ h
  · exact h

lemma kept_ascending : Kept Ascending where
  empty := List.Pairwise.nil
  put key value h := h.put key value
  sized _ h := h

/-- The members of a record, with those that are absent. -/
def fields (m : Metadata) : List (String × Option Value) :=
  [("solc", m.solc.map .string), ("ipfs", m.ipfs.map .string), ("bzzr0", m.bzzr0.map .string),
    ("bzzr1", m.bzzr1.map .string), ("experimental", some (.bool m.experimental)),
    ("extra", if m.extra = [] then none
      else some (.object (m.extra.map fun e => (e.1, .string e.2)))),
    ("length", some (Document.number m.length).value)]

lemma nodup_fields (m : Metadata) : (m.fields.map Prod.fst).Nodup := by
  change ["solc", "ipfs", "bzzr0", "bzzr1", "experimental", "extra", "length"].Nodup
  decide

theorem value_document (m : Metadata) : m.document.value = .object (present m.fields) := by
  have hextra : memberValues (if m.extra = [] then [] else
      [("extra", .object (m.extra.map fun entry => (entry.1, .text entry.2)))]) =
      (if m.extra = [] then none
        else some (Value.object (m.extra.map fun e => (e.1, .string e.2)))).toList.map
          ("extra", ·) := by
    cases m.extra with
    | nil => rfl
    | cons e entries => simp [Document.value, Document.memberValues_eq]
  simp [document, Document.value, hextra, fields]

theorem shownBy_document {m : Metadata} (h : m.Ascending) : m.ShownBy m.document.value := by
  have hkeys : (m.extra.map fun e => Utf8.encode e.1.toList).Pairwise (· < ·) := by
    have hbytes := h.map (fun key => Utf8.encode key.toList) fun _ _ hlt =>
      Utf8.encode_lt (String.lt_iff.mp hlt)
    rwa [List.map_map] at hbytes
  rw [value_document]
  exact {
    names := Json.names_present m.fields
    solc := Json.get?_present m.nodup_fields (by simp [fields])
    ipfs := Json.get?_present m.nodup_fields (by simp [fields])
    bzzr0 := Json.get?_present m.nodup_fields (by simp [fields])
    bzzr1 := Json.get?_present m.nodup_fields (by simp [fields])
    experimental := Json.get?_present m.nodup_fields (by simp [fields])
    extra := Json.get?_present m.nodup_fields (by simp [fields])
    ascending := hkeys
    length := Document.nat?_present m.nodup_fields (by simp [fields]) }

theorem distinct_document {m : Metadata} (h : m.Ascending) : m.document.value.Distinct := by
  have hstring (o : Option String) : ∀ v ∈ o.map Value.string, v.Distinct :=
    Json.distinct_map fun s _ => .string s
  have hextra : (Value.object (m.extra.map fun e => (e.1, .string e.2))).Distinct := by
    refine .object ?_ fun member hmember => ?_
    · rw [List.map_map]
      exact List.Pairwise.imp (fun hlt => String.ne_of_lt hlt) h
    · obtain ⟨e, -, rfl⟩ := List.mem_map.mp hmember
      exact .string e.2
  have hfield : ∀ v ∈ if m.extra = [] then none else
      some (Value.object (m.extra.map fun e => (e.1, .string e.2))), v.Distinct := by
    split_ifs
    · simp
    · exact Json.distinct_some hextra
  rw [value_document]
  refine Json.distinct_present m.nodup_fields ?_
  simp only [fields, List.forall_mem_cons]
  exact ⟨hstring m.solc, hstring m.ipfs, hstring m.bzzr0, hstring m.bzzr1,
    Json.distinct_some (.bool _), hfield, Json.distinct_some (.number _), by simp⟩

end Metadata

namespace Instruction

def fields (i : Instruction) : List (String × Option Value) :=
  [("address", some (Document.number i.address).value),
    ("opcode", some (Document.number i.opcode.toNat).value),
    ("mnemonic", some (.string i.mnemonic)),
    ("operand", i.operand.map fun w => .string (operandText w))]

lemma nodup_fields (i : Instruction) : (i.fields.map Prod.fst).Nodup := by
  change ["address", "opcode", "mnemonic", "operand"].Nodup
  decide

theorem value_document (i : Instruction) : i.document.value = .object (present i.fields) := by
  simp [document, Document.value, fields]

theorem shownBy_document (i : Instruction) : i.ShownBy i.document.value := by
  have hget : (Value.object (present i.fields)).get? "operand" =
      i.operand.map fun w => Value.string (operandText w) :=
    Json.get?_present i.nodup_fields (by simp [fields])
  have hoperand : Option.Rel (fun w (u : Value) => u.IsHex Hex.Minimal w.toNat) i.operand
      ((Value.object (present i.fields)).get? "operand") := by
    rw [hget]
    cases i.operand with
    | none => exact .none
    | some w => exact .some ⟨_, rfl, Hex.spells_toDigits w.toNat, Hex.minimal_toDigits w.toNat⟩
  rw [value_document]
  exact {
    names := Json.names_present i.fields
    address := Document.nat?_present i.nodup_fields (by simp [fields])
    opcode := Document.nat?_present i.nodup_fields (by simp [fields])
    mnemonic := Json.get?_present i.nodup_fields (by simp [fields])
    operand := hoperand }

theorem distinct_document (i : Instruction) : i.document.value.Distinct := by
  rw [value_document]
  refine Json.distinct_present i.nodup_fields ?_
  simp only [fields, List.forall_mem_cons]
  exact ⟨Json.distinct_some (.number _), Json.distinct_some (.number _),
    Json.distinct_some (.string _), Json.distinct_map fun _ _ => .string _, by simp⟩

end Instruction

namespace Report

def fields (d : Report) : List (String × Option Value) :=
  [("code_hash", some (.string (Hex.encode d.codeHash))),
    ("code_len", some (Document.number d.codeLen).value),
    ("metadata", d.metadata.map fun m => m.document.value),
    ("instructions", some (.array (d.instructions.map fun i => i.document.value))),
    ("error", d.fault.map fun fault => .string fault.message)]

lemma nodup_fields (d : Report) : (d.fields.map Prod.fst).Nodup := by
  change ["code_hash", "code_len", "metadata", "instructions", "error"].Nodup
  decide

theorem value_document (d : Report) : d.document.value = .object (present d.fields) := by
  simp [document, Document.value, fields, Document.itemValues_eq]

/-- Whether the parts of a report are as a disassembly makes them. -/
structure Regular (d : Report) : Prop where
  hashLength : d.codeHash.length = 32
  ascending : ∀ m ∈ d.metadata, m.Ascending

theorem shownBy_document {d : Report} (h : d.Regular) : d.ShownBy d.document.value := by
  have hhash : ∃ u, (Value.object (present d.fields)).get? "code_hash" = some u ∧
      u.IsHex (fun ds => ds.length = 64) (bigEndian d.codeHash) := by
    refine ⟨.string (Hex.encode d.codeHash),
      Json.get?_present d.nodup_fields (by simp [fields]), _, rfl, Hex.spells_digits d.codeHash, ?_⟩
    exact (Hex.digits_length d.codeHash).trans (by rw [h.hashLength])
  have hmetadata : Option.Rel Metadata.ShownBy d.metadata
      ((Value.object (present d.fields)).get? "metadata") := by
    have hget : (Value.object (present d.fields)).get? "metadata" =
        d.metadata.map fun m => m.document.value :=
      Json.get?_present d.nodup_fields (by simp [fields])
    have hascending := h.ascending
    rw [hget]
    cases hm : d.metadata with
    | none => exact .none
    | some m => exact .some (Metadata.shownBy_document (hascending m hm))
  have hinstructions : ∃ items,
      (Value.object (present d.fields)).get? "instructions" = some (.array items) ∧
        List.Forall₂ Instruction.ShownBy d.instructions items := by
    refine ⟨d.instructions.map fun i => i.document.value,
      Json.get?_present d.nodup_fields (by simp [fields]), ?_⟩
    rw [List.forall₂_map_right_iff, List.forall₂_same]
    exact fun i _ => i.shownBy_document
  have herror : (Value.object (present d.fields)).get? "error" =
      d.fault.map fun fault => .string fault.message :=
    Json.get?_present d.nodup_fields (by simp [fields])
  rw [value_document]
  exact {
    names := Json.names_present d.fields
    codeHash := hhash
    hashLength := h.hashLength
    codeLen := Document.nat?_present d.nodup_fields (by simp [fields])
    metadata := hmetadata
    instructions := hinstructions
    error := herror }

theorem distinct_document {d : Report} (h : d.Regular) : d.document.value.Distinct := by
  have hinstructions : (Value.array (d.instructions.map fun i => i.document.value)).Distinct := by
    refine .array fun v hv => ?_
    obtain ⟨i, -, rfl⟩ := List.mem_map.mp hv
    exact i.distinct_document
  rw [value_document]
  refine Json.distinct_present d.nodup_fields ?_
  simp only [fields, List.forall_mem_cons]
  exact ⟨Json.distinct_some (.string _), Json.distinct_some (.number _),
    Json.distinct_map fun m hm => Metadata.distinct_document (h.ascending m hm),
    Json.distinct_some hinstructions, Json.distinct_map fun _ _ => .string _, by simp⟩

end Report

theorem regular_of_disassemble {settings : Settings} {code : Bytes} {d : Report}
    (h : disassemble settings code = .ok d) : d.Regular := by
  have hascending := Metadata.kept_ascending.disassemble h
  obtain ⟨runtime, metadata, -, rfl⟩ := exists_split_of_disassemble h
  exact ⟨Keccak.digest_length _, hascending⟩

/-- The compact text of a report has no bytes of controls and is JSON for one value. No object in the
value has a name twice, and the value shows the report. -/
theorem compact_shows_report {settings : Settings} {code : Bytes} {d : Report}
    (h : disassemble settings code = .ok d) :
    (∀ b ∈ Utf8.encode d.document.compact.toList, 0x20 ≤ b) ∧
      ∃ v, (∀ w, Json.IsText w d.document.compact.toList ↔ w = v) ∧ v.Distinct ∧ d.ShownBy v := by
  have hregular := regular_of_disassemble h
  refine ⟨?_, d.document.value, Document.isText_compact_iff d.document,
    Report.distinct_document hregular, Report.shownBy_document hregular⟩
  apply Utf8.printable_encode
  rw [Document.compact, String.toList_ofList]
  exact Document.printable_render (Document.onOneLine_keeps _) 0 d.document

/-- Quotation marks, backslashes and controls in metadata are read back as they are. -/
theorem compact_shows_controls :
    ∃ d v u, disassemble {} [0x60, 0x00, 0xA2, 0x64, 0x22, 0x5C, 0x0A, 0x78, 0x61, 0x01, 0x64, 0x73,
        0x6F, 0x6C, 0x63, 0x62, 0x1F, 0x22, 0x00, 0x10] = .ok d ∧
      (∀ b ∈ Utf8.encode d.document.compact.toList, 0x20 ≤ b) ∧
      (∀ w, Json.IsText w d.document.compact.toList ↔ w = v) ∧ v.Distinct ∧
      v.get? "metadata" = some u ∧ u.get? "solc" = some (.string "\x1F\"") ∧
      u.get? "extra" = some (.object [("\"\\\nx", .string "\x01")]) := by
  have hsplit : Settings.split {} [0x60, 0x00, 0xA2, 0x64, 0x22, 0x5C, 0x0A, 0x78, 0x61, 0x01, 0x64,
      0x73, 0x6F, 0x6C, 0x63, 0x62, 0x1F, 0x22, 0x00, 0x10] = .ok ([0x60, 0x00],
        some { solc := some "\x1F\"", extra := [("\"\\\nx", "\x01")], length := 18 }) := rfl
  have h := disassemble_of_split hsplit
  obtain ⟨hbytes, v, hv, hdistinct, hshown⟩ := compact_shows_report h
  have hmetadata := hshown.metadata
  cases hu : v.get? "metadata" with
  | none =>
    rw [hu] at hmetadata
    cases hmetadata
  | some u =>
    rw [hu] at hmetadata
    cases hmetadata with
    | some hm => exact ⟨_, v, u, h, hbytes, hv, hdistinct, hu, hm.solc, hm.extra⟩

end EvmListing
