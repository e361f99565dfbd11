import EvmListing.Proofs.Decoder.Pass
import EvmListing.Proofs.Metadata.Partition
import Mathlib.Algebra.Ring.Nat

/-! A disassembly is a split followed by a decoding pass over what the split leaves, and the two
account for every byte of the code. -/
namespace EvmListing

/-- The bytes that an instruction takes in a code. -/
def Instruction.size (i : Instruction) : Nat := 1 + i.width

/-- The bytes that the instructions of a listing take together. -/
def Listing.size (l : Listing) : Nat := (l.instructions.map Instruction.size).sum

/-- How far a pass that started at a place got: to the end of the bytes, or to its fault before. -/
def Decoder.Reaches (policy : Policy) (pc : Nat) (bytes : Bytes) (l : Listing) : Prop :=
  match l.fault with
  | none => l.size = bytes.length
  | some fault => l.size + pc = fault.offset ∧ l.size < bytes.length ∧
      ∀ opcode offset, fault = .unassigned opcode offset → policy = .reject

lemma Decoder.Pass.reaches {policy : Policy} {pc : Nat} {bytes : Bytes} {l : Listing}
    (h : Pass policy pc bytes l) : Reaches policy pc bytes l := by
  induction h with
  | finished pc => rfl
  | unassigned pc rest refused =>
    exact ⟨Nat.zero_add _, Nat.succ_pos _, fun _ _ _ => (Policy.not_accepts.mp refused).1⟩
  | truncated pc accepted cut => exact ⟨Nat.zero_add _, Nat.succ_pos _, nofun⟩
  | @instruction pc opcode immediate rest l accepted full more ih =>
    have hsize : (Listing.mk (.ofCode pc opcode immediate :: l.instructions) l.fault).size =
        1 + immediate.length + l.size := by
      rw [Listing.size, List.map_cons, List.sum_cons, Instruction.size, full]
      rfl
    unfold Reaches at ih ⊢
    rw [hsize]
    cases hf : l.fault with
    | none =>
      rw [hf] at ih
      simp only [List.length_cons, List.length_append] at ih ⊢
      omega
    | some fault =>
      rw [hf] at ih
      obtain ⟨hoffset, hlt, hpolicy⟩ := ih
      refine ⟨?_, ?_, hpolicy⟩
      · omega
      · simp only [List.length_cons, List.length_append]
        omega

/-- The same settings, but with metadata left in the code. -/
def Settings.keepingMetadata (settings : Settings) : Settings :=
  { settings with stripMetadata := false }

/-- The split of a code under settings that may leave it whole. -/
def Settings.split (settings : Settings) (code : Bytes) :
    Except Metadata.Fault (Bytes × Option Metadata) :=
  if settings.stripMetadata then Metadata.split settings.scan code else .ok (code, none)

theorem Settings.length_of_split {settings : Settings} {code runtime : Bytes} {m : Option Metadata}
    (h : settings.split code = .ok (runtime, m)) :
    runtime.length + (m.map Metadata.length).getD 0 = code.length := by
  unfold Settings.split at h
  split at h
  · exact Metadata.length_of_split h
  · cases h
    rfl

/-- The report on what is left of a code. -/
def Report.ofRuntime (policy : Policy) (runtime : Bytes) (metadata : Option Metadata) : Report where
  codeHash := Keccak.digest runtime
  codeLen := runtime.length
  metadata := metadata
  instructions := (decodePartial policy runtime).instructions
  fault := (decodePartial policy runtime).fault

theorem value_decodeReport (policy : Policy) (input : Nat) (runtime : Bytes)
    (metadata : Option Metadata) :
    (decodeReport policy input runtime metadata).value = .ofRuntime policy runtime metadata := by
  simp only [decodeReport, Logged.value_bind, value_decodePartialLogged, Report.ofRuntime]
  split <;> rfl

theorem disassemble_eq (settings : Settings) (code : Bytes) :
    disassemble settings code =
      (settings.split code).map fun cut => .ofRuntime settings.unassigned cut.1 cut.2 := by
  have hseparate : (separate settings code).value = settings.split code := by
    unfold separate Settings.split
    split <;> simp
  rw [disassemble, disassembleLogged, Logged.value_bind, hseparate]
  cases settings.split code with
  | error fault => rfl
  | ok cut => simp [value_decodeReport, Except.map]

theorem disassemble_of_split {settings : Settings} {code runtime : Bytes} {m : Option Metadata}
    (h : settings.split code = .ok (runtime, m)) :
    disassemble settings code = .ok (.ofRuntime settings.unassigned runtime m) := by
  rw [disassemble_eq, h]
  rfl

theorem exists_split_of_disassemble {settings : Settings} {code : Bytes} {d : Report}
    (h : disassemble settings code = .ok d) : ∃ runtime m,
      settings.split code = .ok (runtime, m) ∧ d = .ofRuntime settings.unassigned runtime m := by
  rw [disassemble_eq] at h
  cases hsplit : settings.split code with
  | error fault =>
    rw [hsplit] at h
    cases h
  | ok cut =>
    rw [hsplit] at h
    exact ⟨cut.1, cut.2, rfl, (Except.ok.inj h).symm⟩

theorem Metadata.Kept.disassemble {P : Metadata → Prop} (kept : Metadata.Kept P)
    {settings : Settings} {code : Bytes} {d : Report} (h : disassemble settings code = .ok d) :
    ∀ m ∈ d.metadata, P m := by
  obtain ⟨runtime, metadata, hsplit, rfl⟩ := exists_split_of_disassemble h
  intro m hm
  cases hm
  unfold Settings.split at hsplit
  split at hsplit
  · exact kept.split hsplit
  · cases hsplit

theorem disassemble_keepingMetadata (settings : Settings) (code : Bytes) :
    disassemble settings.keepingMetadata code = .ok (.ofRuntime settings.unassigned code none) :=
  disassemble_of_split rfl

/-- Whether a report accounts for the code that it is on: the instructions take all of it, or all up
to a fault. Only a strict policy has faults at unassigned opcodes. -/
structure Report.Accounts (policy : Policy) (d : Report) : Prop where
  complete : (d.instructions.map Instruction.size).sum = d.codeLen ↔ d.isComplete = true
  decoding : ∀ fault, d.fault = some fault → (Error.decoding fault).isDecoding = true
  offset : ∀ fault, d.fault = some fault →
    fault.offset < d.codeLen ∧ (d.instructions.map Instruction.size).sum = fault.offset
  strict : ∀ opcode offset, d.fault = some (.unassigned opcode offset) → policy = .reject

theorem Report.accounts_ofRuntime (policy : Policy) (runtime : Bytes) (m : Option Metadata) :
    (Report.ofRuntime policy runtime m).Accounts policy := by
  have hreaches := (pass_decodePartial policy runtime).reaches
  unfold Decoder.Reaches at hreaches
  cases hf : (decodePartial policy runtime).fault with
  | none =>
    rw [hf] at hreaches
    have hnone (fault : Decoder.Fault) : (ofRuntime policy runtime m).fault ≠ some fault := by
      simp [ofRuntime, hf]
    refine ⟨⟨fun _ => ?_, fun _ => hreaches⟩, fun _ _ => rfl, fun fault h => absurd h (hnone fault),
      fun _ _ h => absurd h (hnone _)⟩
    simp [isComplete, ofRuntime, hf]
  | some fault =>
    rw [hf] at hreaches
    obtain ⟨hoffset, hlt, hpolicy⟩ := hreaches
    have hfault : (ofRuntime policy runtime m).fault = some fault := hf
    have hshort : (Listing.mk (ofRuntime policy runtime m).instructions none).size ≠
        (ofRuntime policy runtime m).codeLen := Nat.ne_of_lt hlt
    refine ⟨⟨fun h => absurd h hshort, ?_⟩, fun _ _ => rfl, ?_, ?_⟩
    · simp [isComplete, hfault]
    · intro fault' h
      rw [hfault] at h
      cases h
      exact ⟨hoffset ▸ hlt, hoffset⟩
    · intro opcode offset h
      rw [hfault] at h
      exact hpolicy opcode offset (Option.some.inj h)

/-- A disassembly fails only where metadata is to be split off and cannot be read. Otherwise its
report is the one on the executable part, with the metadata put in, and the two lengths add up to
that of the code. A code with metadata after it gives what the code alone gives. -/
theorem disassemble_splits_then_decodes (settings : Settings) (code : Bytes) :
    (∀ fault, disassemble settings code = .error fault ↔
      settings.stripMetadata = true ∧ Metadata.split settings.scan code = .error fault) ∧
    (∀ runtime m, settings.split code = .ok (runtime, m) →
      ∃ d clean, disassemble settings code = .ok d ∧
        disassemble settings.keepingMetadata runtime = .ok clean ∧
        d = { clean with metadata := m } ∧
        d.codeLen + (m.map Metadata.length).getD 0 = code.length ∧
        d.Accounts settings.unassigned) ∧
    (∀ payload field, Metadata.IsTextMap payload → field.length = 2 →
      bigEndian field = payload.length → settings.stripMetadata = true →
      settings.scan.Sees (code ++ payload ++ field) →
      ∃ d clean, disassemble settings (code ++ payload ++ field) = .ok d ∧
        disassemble settings.keepingMetadata code = .ok clean ∧
        d.instructions = clean.instructions ∧ d.trace = clean.trace ∧
        d.codeHash = clean.codeHash ∧ d.fault = clean.fault ∧
        (¬settings.scan.Sees code → disassemble settings code = .ok clean)) := by
  refine ⟨fun fault => ?_, ?_, ?_⟩
  · rw [disassemble_eq]
    unfold Settings.split
    by_cases hstrip : settings.stripMetadata = true
    · simp only [hstrip, if_true, true_and]
      cases Metadata.split settings.scan code <;> simp [Except.map]
    · simp [hstrip, Except.map]
  · intro runtime m hsplit
    exact ⟨_, _, disassemble_of_split hsplit, disassemble_keepingMetadata settings runtime, rfl,
      Settings.length_of_split hsplit, Report.accounts_ofRuntime _ _ _⟩
  · intro payload field hmap hfield declared hstrip seen
    obtain ⟨m, hm⟩ := (Metadata.ofPayload_ok_iff payload).mpr hmap
    have hsplit : settings.split (code ++ payload ++ field) =
        .ok (code, some { m with length := payload.length + Metadata.lengthField }) := by
      have found := (settings.scan.finds_iff _).mpr seen
      rw [Settings.split, if_pos hstrip, Metadata.split_of_fits found hfield declared, hm]
      rfl
    refine ⟨_, _, disassemble_of_split hsplit, disassemble_keepingMetadata settings code, rfl, rfl,
      rfl, rfl, fun unseen => disassemble_of_split ?_⟩
    rw [Settings.split, if_pos hstrip, Metadata.split_of_not_sees unseen]

end EvmListing
