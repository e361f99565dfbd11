import EvmListing.Bytes
import EvmListing.Opcode
import Mathlib.Data.List.Nodup
import Mathlib.Tactic.Lemma

/-! The names of opcodes: one word each, and no two assigned opcodes have the same. The name of the
unassigned ones is that of none of the others. -/
namespace EvmListing.Opcode

/-- An entry is that of the unassigned opcodes or stands in a run, as far from its start as the opcode
is from the first one of the run. -/
lemma entry_eq (opcode : UInt8) : entry opcode = unknown ∨
    ∃ run ∈ runs, ∃ i, run.2[i]? = some (entry opcode) ∧ opcode.toNat = run.1 + i := by
  unfold entry
  cases hfound : runs.findSome? fun run =>
      if run.1 ≤ opcode.toNat then run.2[opcode.toNat - run.1]? else none with
  | none => exact .inl rfl
  | some e =>
    obtain ⟨run, hrun, he⟩ := List.exists_of_findSome?_eq_some hfound
    split_ifs at he with hle
    exact .inr ⟨run, hrun, opcode.toNat - run.1, he, by omega⟩

/-- What holds of all entries in the table holds of the entry of every byte. -/
lemma entry_induction {p : Entry → Prop} (hunknown : p unknown)
    (hruns : ∀ run ∈ runs, ∀ e ∈ run.2, p e) (opcode : UInt8) : p (entry opcode) := by
  obtain he | ⟨run, hrun, i, hi, -⟩ := entry_eq opcode
  · exact he ▸ hunknown
  · exact hruns run hrun _ (List.mem_of_getElem? hi)

/-- Names are words of letters and digits. -/
theorem isAlphanum_mnemonic (opcode : UInt8) :
    ∀ c ∈ (entry opcode).mnemonic.toList, c.isAlphanum = true := by
  rw [← List.all_eq_true]
  exact entry_induction (p := fun e => e.mnemonic.toList.all Char.isAlphanum = true)
    (by decide +kernel) (by decide +kernel) opcode

/-- The number that a name is given: that of its opcode, or one past all of them. -/
def number (opcode : UInt8) : Nat := if (entry opcode).assigned then opcode.toNat else 256

/-- All names with their numbers. -/
def names : List (Nat × String) :=
  (256, unknown.mnemonic) ::
    runs.flatMap fun run => run.2.zipIdx.map fun e => (run.1 + e.2, e.1.mnemonic)

lemma mem_names (opcode : UInt8) : (number opcode, (entry opcode).mnemonic) ∈ names := by
  obtain he | ⟨run, hrun, i, hi, hopcode⟩ := entry_eq opcode
  · rw [number, he]
    exact List.mem_cons_self
  · have hassigned : (entry opcode).assigned = true := by
      have hall : ∀ run ∈ runs, ∀ e ∈ run.2, e.assigned = true := by decide +kernel
      exact hall run hrun _ (List.mem_of_getElem? hi)
    rw [number, if_pos hassigned, hopcode]
    refine List.mem_cons_of_mem _ (List.mem_flatMap.mpr ⟨run, hrun, List.mem_map.mpr ?_⟩)
    exact ⟨(entry opcode, i), List.mem_zipIdx_iff_getElem?.mpr hi, rfl⟩

/-- Names are told apart by the numbers that their bytes spell, which are quick to compare. -/
lemma nodup_names : (names.map Prod.snd).Nodup := by
  have hbytes : ((names.map Prod.snd).map fun name =>
      bigEndian name.toByteArray.data.toList).Nodup := by decide +kernel
  exact hbytes.of_map _

/-- Whether two opcodes are the same as far as the table tells. -/
def Alike (a b : UInt8) : Prop := a = b ∨ (entry a).assigned = false ∧ (entry b).assigned = false

lemma entry_of_unassigned {opcode : UInt8} (h : (entry opcode).assigned = false) :
    entry opcode = unknown := by
  revert h
  exact entry_induction (p := fun e => e.assigned = false → e = unknown) (fun _ => rfl)
    (by decide +kernel) opcode

/-- An opcode that carries bytes is assigned. -/
lemma assigned_of_width_pos {opcode : UInt8} (h : 0 < (entry opcode).width) :
    (entry opcode).assigned = true := by
  by_contra hassigned
  rw [entry_of_unassigned (Bool.eq_false_iff.mpr hassigned)] at h
  exact Nat.lt_irrefl 0 h

/-- The unassigned opcodes are told by their name. -/
theorem mnemonic_eq_unknown_iff {opcode : UInt8} :
    (entry opcode).mnemonic = unknown.mnemonic ↔ (entry opcode).assigned = false :=
  entry_induction (p := fun e => e.mnemonic = unknown.mnemonic ↔ e.assigned = false)
    (by decide) (by decide +kernel) opcode

lemma Alike.entry_eq {a b : UInt8} (h : Alike a b) : entry a = entry b := by
  obtain rfl | ⟨ha, hb⟩ := h
  · rfl
  · rw [entry_of_unassigned ha, entry_of_unassigned hb]

/-- Only unassigned opcodes share a name. -/
theorem mnemonic_eq_iff {a b : UInt8} :
    (entry a).mnemonic = (entry b).mnemonic ↔ Alike a b := by
  constructor
  · intro h
    have hnumber : number a = number b := congrArg Prod.fst
      (List.inj_on_of_nodup_map nodup_names (mem_names a) (mem_names b) h)
    have ha := a.toNat_lt
    have hb := b.toNat_lt
    unfold number at hnumber
    split_ifs at hnumber with hassigned hassigned' hassigned'
    · exact .inl (UInt8.toNat_inj.mp hnumber)
    · omega
    · omega
    · exact .inr ⟨Bool.eq_false_iff.mpr hassigned, Bool.eq_false_iff.mpr hassigned'⟩
  · intro h
    rw [h.entry_eq]

end EvmListing.Opcode
