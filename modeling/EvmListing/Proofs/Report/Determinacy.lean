import EvmListing.Proofs.Decoder.Accounting
import EvmListing.Proofs.Decoder.FaultText
import EvmListing.Proofs.Report.Json

/-! Opcodes and operands, together with the message of the fault, determine the code that was read.
So does a JSON report, which has the fault as a text alone. -/
namespace EvmListing

namespace Listing

/-- The opcodes of a listing with their operands, in order. -/
def operations (l : Listing) : List (UInt8 × Option Word) :=
  l.instructions.map fun i => (i.opcode, i.operand)

/-- The bytes of an instruction are told by its opcode and its operand. -/
lemma decoded_congr {l l' : Listing} (h : l.operations = l'.operations) :
    l.decoded = l'.decoded := by
  have hdecoded (l : Listing) : l.decoded = l.operations.flatMap fun o =>
      o.1 :: (o.2.map (Word.lowBytes (Opcode.entry o.1).width)).getD [] := by
    rw [operations, List.flatMap_map]
    rfl
  rw [hdecoded, h, hdecoded]

end Listing

namespace Decoder

/-- Whether two codes have the same bytes as far as a pass that ended with a fault has read. After a
refused opcode it reads no further, and otherwise it has read all. -/
def SameUpTo (code code' : Bytes) : Option Fault → Prop
  | some (.unassigned opcode offset) =>
    ∃ front : Bytes, front.length = offset ∧
      front ++ [opcode] <+: code ∧ front ++ [opcode] <+: code'
  | _ => code = code'

section
variable {policy : Policy} {code code' decoded : Bytes} {fault : Option Fault}

lemma Accounts.front {opcode : UInt8} {offset : Nat}
    (h : Accounts code decoded (some (.unassigned opcode offset))) :
    decoded.length = offset ∧ decoded ++ [opcode] <+: code := by
  obtain ⟨hcode, hopcode, hoffset⟩ := h
  obtain ⟨rest, hrest⟩ := List.head?_eq_some_iff.mp hopcode
  refine ⟨hoffset.symm, rest, ?_⟩
  rw [List.append_assoc, List.singleton_append, ← hrest, hcode]

/-- What accounts for two codes makes them the same. -/
lemma Accounts.sameUpTo (h : Accounts code decoded fault) (h' : Accounts code' decoded fault) :
    SameUpTo code code' fault := by
  cases fault with
  | none => exact h.symm.trans h'
  | some fault =>
    cases fault with
    | unassigned opcode offset => exact ⟨decoded, h.front.1, h.front.2, h'.front.2⟩
    | truncated opcode mnemonic offset expected available => exact h.1.symm.trans h'.1

/-- A pass that ends at a refused opcode is also one over any other bytes that begin as those do
which it has read. -/
lemma Pass.of_front {pc : Nat} {bytes bytes' : Bytes} {l : Listing} (h : Pass policy pc bytes l)
    {opcode : UInt8} {offset : Nat} (hl : l.fault = some (.unassigned opcode offset))
    (hfront : l.decoded ++ [opcode] <+: bytes') : Pass policy pc bytes' l := by
  induction h generalizing bytes' with
  | finished pc => cases hl
  | unassigned pc rest refused =>
    cases hl
    obtain ⟨rest', rfl⟩ := hfront
    simpa [Listing.decoded] using Pass.unassigned offset rest' refused
  | truncated pc accepted cut => cases hl
  | @instruction pc opcode' immediate rest l accepted full _ ih =>
    obtain ⟨rest', rfl⟩ := hfront
    have hbytes : (Listing.mk (.ofCode pc opcode' immediate :: l.instructions) l.fault).decoded =
        opcode' :: (immediate ++ l.decoded) := by
      rw [Listing.decoded, List.flatMap_cons, Instruction.ofCode_bytes pc full]
      rfl
    rw [hbytes, List.cons_append, List.cons_append, List.append_assoc, List.append_assoc]
    exact .instruction accepted full (ih hl (List.append_assoc _ _ _ ▸ List.prefix_append _ rest'))

/-- Codes that are the same as far as one of them is read are listed alike. -/
lemma decodePartial_eq_of_sameUpTo
    (h : SameUpTo code code' (decodePartial policy code).fault) :
    decodePartial policy code' = decodePartial policy code := by
  have hpass := pass_decodePartial policy code
  have haccounts := decodePartial_accounts policy code
  cases hfault : (decodePartial policy code).fault with
  | none =>
    rw [hfault] at h
    rw [show code = code' from h]
  | some fault =>
    rw [hfault] at h haccounts
    cases fault with
    | unassigned opcode offset =>
      obtain ⟨front, hlength, hcode, hcode'⟩ := h
      obtain ⟨hdecoded, hread⟩ := haccounts.front
      have hlengths : (front ++ [opcode]).length =
          ((decodePartial policy code).decoded ++ [opcode]).length := by
        rw [List.length_append, List.length_append, hlength, hdecoded]
      have hsame : front ++ [opcode] = (decodePartial policy code).decoded ++ [opcode] :=
        (List.prefix_of_prefix_length_le hcode hread (Nat.le_of_eq hlengths)).eq_of_length hlengths
      exact decodePartial_eq_iff.mpr (hpass.of_front hfault (hsame ▸ hcode'))
    | truncated opcode mnemonic offset expected available => rw [show code = code' from h]

end

end Decoder

open Decoder

/-- The message of a fault in a listing is that of no other fault in a listing. -/
lemma fault_eq_of_message {policy : Policy} {code code' : Bytes}
    (h : (decodePartial policy code).fault.map Fault.message =
      (decodePartial policy code').fault.map Fault.message) :
    (decodePartial policy code).fault = (decodePartial policy code').fault := by
  have hnamed := (pass_decodePartial policy code).fault_named
  have hnamed' := (pass_decodePartial policy code').fault_named
  cases hfault : (decodePartial policy code).fault with
  | none =>
    rw [hfault] at h
    exact (Option.map_eq_none_iff.mp h.symm).symm
  | some fault =>
    rw [hfault] at h
    obtain ⟨fault', hfault', hmessage⟩ := Option.map_eq_some_iff.mp h.symm
    rw [hfault', Fault.message_injective (hnamed' fault' hfault') (hnamed fault hfault) hmessage]

/-- Listings have the same operations and messages if and only if the codes are the same as far as
they were read. -/
lemma told_alike_iff {policy : Policy} {code code' : Bytes} :
    (decodePartial policy code).operations = (decodePartial policy code').operations ∧
      (decodePartial policy code).fault.map Fault.message =
        (decodePartial policy code').fault.map Fault.message ↔
    SameUpTo code code' (decodePartial policy code).fault := by
  constructor
  · rintro ⟨hoperations, hmessage⟩
    have haccounts := decodePartial_accounts policy code'
    rw [← Listing.decoded_congr hoperations, ← fault_eq_of_message hmessage] at haccounts
    exact (decodePartial_accounts policy code).sameUpTo haccounts
  · intro h
    rw [decodePartial_eq_of_sameUpTo h]
    exact ⟨rfl, rfl⟩

lemma eq_of_told_alike {code code' : Bytes}
    (hoperations : (decodePartial .sentinel code).operations =
      (decodePartial .sentinel code').operations)
    (hmessage : (decodePartial .sentinel code).fault.map Fault.message =
      (decodePartial .sentinel code').fault.map Fault.message) : code = code' := by
  have hsame := told_alike_iff.mp ⟨hoperations, hmessage⟩
  have hstrict := (Report.accounts_ofRuntime .sentinel code none).strict
  cases hfault : (decodePartial .sentinel code).fault with
  | none => rwa [hfault] at hsame
  | some fault =>
    rw [hfault] at hsame
    cases fault with
    | unassigned opcode offset => cases hstrict opcode offset hfault
    | truncated => exact hsame

section
variable {v : Json.Value}

lemma Json.Value.IsHex.unique {form form' : List Char → Prop} {m n : Nat} (h : v.IsHex form m)
    (h' : v.IsHex form' n) : m = n := by
  obtain ⟨ds, rfl, hds, -⟩ := h
  obtain ⟨es, hes, hspells, -⟩ := h'
  have hchars := congrArg String.toList (Json.Value.string.inj hes)
  simp only [String.toList_ofList, List.cons.injEq, true_and] at hchars
  exact hds.unique (hchars ▸ hspells)

/-- Of two options that are related to one, both have values or none has. -/
lemma leftUnique_rel {α β : Type} {R : α → β → Prop} (hR : Relator.LeftUnique R) :
    Relator.LeftUnique (Option.Rel R)
  | _, _, _, .none, .none => rfl
  | _, _, _, .some hx, .some hy => by rw [hR hx hy]

/-- A value shows one instruction only. -/
theorem Instruction.ShownBy.unique {i j : Instruction} (h : i.ShownBy v) (h' : j.ShownBy v) :
    i = j := by
  have hword : Relator.LeftUnique fun (w : Word) (u : Json.Value) => u.IsHex Hex.Minimal w.toNat :=
    fun _ _ _ hx hy => BitVec.eq_of_toNat_eq (hx.unique hy)
  have haddress := Option.some.inj (h.address.symm.trans h'.address)
  have hopcode := UInt8.toNat_inj.mp (Option.some.inj (h.opcode.symm.trans h'.opcode))
  have hmnemonic := Json.Value.string.inj (Option.some.inj (h.mnemonic.symm.trans h'.mnemonic))
  have hoperand := leftUnique_rel hword h.operand h'.operand
  obtain ⟨address, opcode, mnemonic, operand⟩ := i
  obtain ⟨address', opcode', mnemonic', operand'⟩ := j
  simp only at haddress hopcode hmnemonic hoperand
  rw [haddress, hopcode, hmnemonic, hoperand]

/-- Reports that one value shows list the same instructions, and have faults of one message. -/
theorem Report.ShownBy.listed_alike {d d' : Report} (h : d.ShownBy v) (h' : d'.ShownBy v) :
    d.instructions = d'.instructions ∧
      d.fault.map Fault.message = d'.fault.map Fault.message := by
  obtain ⟨items, hitems, hinstructions⟩ := h.instructions
  obtain ⟨items', hitems', hinstructions'⟩ := h'.instructions
  rw [hitems] at hitems'
  cases hitems'
  have hunique : Relator.LeftUnique Instruction.ShownBy := fun _ _ _ hi hj => hi.unique hj
  refine ⟨List.left_unique_forall₂' hunique hinstructions hinstructions', ?_⟩
  have hstring : Function.Injective Json.Value.string := fun _ _ => Json.Value.string.inj
  apply Option.map_injective hstring
  rw [Option.map_map, Option.map_map]
  exact h.error.symm.trans h'.error

end

namespace Document

/-- Documents with the same text on one line or the same indented text have the same value. -/
lemma value_eq_of_text {d e : Document} (h : d.compact = e.compact ∨ d.pretty = e.pretty) :
    d.value = e.value := by
  obtain h | h := h
  · exact (isText_compact_iff e d.value).mp (h ▸ (isText_compact_iff d d.value).mpr rfl)
  · exact (isText_pretty_iff e d.value).mp (h ▸ (isText_pretty_iff d d.value).mpr rfl)

end Document

/-- Two codes are listed with the same opcodes, operands and message of a fault if and only if they
are the same as far as a pass reads them. And the JSON of a report under a lenient policy determines
the runtime that it is on, whatever settings led to it. -/
theorem listing_determines_code (code code' : Bytes) :
    (∀ policy, let l := decodePartial policy code
      let l' := decodePartial policy code'
      l.operations = l'.operations ∧ l.fault.map Fault.message = l'.fault.map Fault.message ↔
        SameUpTo code code' l.fault) ∧
    ∀ settings settings' d d', settings.unassigned = .sentinel → settings'.unassigned = .sentinel →
      disassemble settings code = .ok d → disassemble settings' code' = .ok d' →
      d.document.compact = d'.document.compact ∨ d.document.pretty = d'.document.pretty →
      ∃ runtime m m', settings.split code = .ok (runtime, m) ∧
        settings'.split code' = .ok (runtime, m') := by
  refine ⟨fun policy => told_alike_iff, ?_⟩
  intro settings settings' d d' lenient lenient' h h' htext
  have hshown := Report.shownBy_document (regular_of_disassemble h)
  have hshown' := Report.shownBy_document (regular_of_disassemble h')
  rw [← Document.value_eq_of_text htext] at hshown'
  obtain ⟨hinstructions, hmessage⟩ := hshown.listed_alike hshown'
  obtain ⟨runtime, m, hsplit, rfl⟩ := exists_split_of_disassemble h
  obtain ⟨runtime', m', hsplit', rfl⟩ := exists_split_of_disassemble h'
  rw [lenient, lenient'] at hinstructions hmessage
  have hoperations : (decodePartial .sentinel runtime).operations =
      (decodePartial .sentinel runtime').operations :=
    congrArg (List.map fun i : Instruction => (i.opcode, i.operand)) hinstructions
  obtain rfl := eq_of_told_alike hoperations hmessage
  exact ⟨runtime, m, m', hsplit, hsplit'⟩

example : decodePartial .reject [0x60, 0x01, 0x0C, 0x00] =
    decodePartial .reject [0x60, 0x01, 0x0C] := by decide

end EvmListing
