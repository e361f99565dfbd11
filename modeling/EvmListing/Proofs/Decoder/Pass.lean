import EvmListing.Listing
import EvmListing.Proofs.Word

/-! A decoding pass as a relation, with one rule for each thing that can stand at a place of a code.
The pass of a decoder is the one derivation that starts where the decoder stands, so facts about
listings go by induction on `Pass`. -/
namespace EvmListing

/-- No opcode carries more bytes than a word holds. -/
theorem Opcode.width_le (opcode : UInt8) : (entry opcode).width ≤ 32 := by
  rw [width_entry, pushWidth]
  split
  · next h =>
    simp only [isPush, Bool.and_eq_true, decide_eq_true_eq, UInt8.le_iff_toNat_le] at h
    have h' : opcode.toNat ≤ 127 := h.2
    omega
  · omega

/-- Whether a policy lets an opcode be decoded. -/
def Policy.Accepts (policy : Policy) (opcode : UInt8) : Prop :=
  policy = .reject → (Opcode.entry opcode).assigned = true

@[simp] theorem Policy.sentinel_accepts (opcode : UInt8) : sentinel.Accepts opcode := nofun

@[simp] theorem Policy.reject_accepts (opcode : UInt8) :
    reject.Accepts opcode ↔ (Opcode.entry opcode).assigned = true := by
  simp [Accepts]

lemma Policy.not_accepts {policy : Policy} {opcode : UInt8} :
    ¬policy.Accepts opcode ↔ policy = .reject ∧ (Opcode.entry opcode).assigned = false := by
  simp [Accepts]

lemma Policy.Accepts.not_refused {policy : Policy} {opcode : UInt8} (h : policy.Accepts opcode) :
    ¬((Opcode.entry opcode).assigned = false ∧ policy = .reject) :=
  fun refused => Policy.not_accepts.mpr refused.symm h

/-- The instruction that an opcode at a place makes with its immediate bytes. -/
def Instruction.ofCode (pc : Nat) (opcode : UInt8) (immediate : Bytes) : Instruction where
  address := pc + 1 + immediate.length
  opcode := opcode
  mnemonic := (Opcode.entry opcode).mnemonic
  operand := if (Opcode.entry opcode).width = 0 then none else some (Word.ofBytes immediate)

/-- An operand comes out in the width of its opcode, filled up with zeros or cut off in front. -/
lemma Instruction.immediate_eq {i : Instruction} {v : Word} (h : i.operand = some v) :
    i.immediate = some (toBigEndian i.width v.toNat) := by
  have hw : i.width ≤ 32 := Opcode.width_le i.opcode
  rw [immediate, h, Option.map_some, Word.lowBytes_eq hw]

lemma Instruction.immediate_ofBytes {i : Instruction} {bs : Bytes} (full : bs.length = i.width)
    (h : i.operand = some (Word.ofBytes bs)) : i.immediate = some bs := by
  have hw : bs.length ≤ 32 := full ▸ Opcode.width_le i.opcode
  rw [immediate, h, Option.map_some, ← full, Word.lowBytes_ofBytes hw]

section
variable {opcode : UInt8} {immediate : Bytes}

@[simp] theorem Instruction.ofCode_offset (pc : Nat)
    (full : immediate.length = (Opcode.entry opcode).width) :
    (ofCode pc opcode immediate).offset = pc := by
  simp only [offset, width, ofCode, full]
  omega

/-- An instruction keeps the bytes that it was decoded from. -/
@[simp] theorem Instruction.ofCode_bytes (pc : Nat)
    (full : immediate.length = (Opcode.entry opcode).width) :
    (ofCode pc opcode immediate).bytes = opcode :: immediate := by
  by_cases h : (Opcode.entry opcode).width = 0
  · have he : immediate = [] := List.eq_nil_of_length_eq_zero (full.trans h)
    simp [bytes, Instruction.immediate, ofCode, h, he]
  · have hi : (ofCode pc opcode immediate).immediate = some immediate :=
      immediate_ofBytes full (if_neg h)
    rw [bytes, hi]
    rfl

end

namespace Decoder
variable {policy : Policy} {pc : Nat} {opcode : UInt8} {immediate rest : Bytes}

theorem step_unassigned (refused : ¬policy.Accepts opcode) :
    step ⟨policy, pc, opcode :: rest⟩ =
      some (.error (.unassigned opcode pc), ⟨policy, pc + 1, []⟩) := by
  obtain ⟨strict, unknown⟩ := Policy.not_accepts.mp refused
  simp [step, strict, unknown]

theorem step_truncated (accepted : policy.Accepts opcode)
    (cut : rest.length < (Opcode.entry opcode).width) :
    step ⟨policy, pc, opcode :: rest⟩ =
      some (.error (.truncated opcode (Opcode.entry opcode).mnemonic pc
        (Opcode.entry opcode).width rest), ⟨policy, pc + 1 + rest.length, []⟩) := by
  simp only [step, if_neg accepted.not_refused, List.take_of_length_le (Nat.le_of_lt cut),
    if_pos cut]

theorem step_instruction (accepted : policy.Accepts opcode)
    (full : immediate.length = (Opcode.entry opcode).width) :
    step ⟨policy, pc, opcode :: (immediate ++ rest)⟩ =
      some (.ok (.ofCode pc opcode immediate), ⟨policy, pc + 1 + immediate.length, rest⟩) := by
  simp only [step, if_neg accepted.not_refused, List.take_left' full, List.drop_left' full, full,
    Nat.lt_irrefl, if_false, Instruction.ofCode]

/-- What can stand at a place where bytes are left. -/
inductive Front (policy : Policy) (opcode : UInt8) : Bytes → Prop
  | unassigned {rest : Bytes} (refused : ¬policy.Accepts opcode) : Front policy opcode rest
  | truncated {rest : Bytes} (accepted : policy.Accepts opcode)
      (cut : rest.length < (Opcode.entry opcode).width) : Front policy opcode rest
  | instruction {immediate rest : Bytes} (accepted : policy.Accepts opcode)
      (full : immediate.length = (Opcode.entry opcode).width) :
      Front policy opcode (immediate ++ rest)

theorem front (policy : Policy) (opcode : UInt8) (rest : Bytes) : Front policy opcode rest := by
  by_cases accepted : policy.Accepts opcode
  · by_cases cut : rest.length < (Opcode.entry opcode).width
    · exact .truncated accepted cut
    · rw [← List.take_append_drop (Opcode.entry opcode).width rest]
      exact .instruction accepted (by rw [List.length_take]; omega)
  · exact .unassigned accepted

/-- A step leaves fewer bytes than it finds. -/
theorem step_length {d d' : Decoder} {item : Item} (h : d.step = some (item, d')) :
    d'.rest.length < d.rest.length := by
  obtain ⟨policy, pc, bytes⟩ := d
  cases bytes with
  | nil => cases h
  | cons opcode rest =>
    cases front policy opcode rest with
    | unassigned refused => rw [step_unassigned refused] at h; cases h; simp
    | truncated accepted cut => rw [step_truncated accepted cut] at h; cases h; simp
    | instruction accepted full =>
      rw [step_instruction accepted full] at h
      cases h
      simp only [List.length_cons, List.length_append]
      omega

/-- As many items as bytes are left are all the items. -/
theorem take_of_length_le {d : Decoder} {m n : Nat} (hm : d.rest.length ≤ m)
    (hn : d.rest.length ≤ n) : d.take m = d.take n := by
  induction m generalizing d n with
  | zero =>
    have he : d.rest = [] := List.eq_nil_of_length_eq_zero (by omega)
    cases n <;> simp [take, step, he]
  | succ m ih =>
    cases hs : d.step with
    | none => cases n <;> simp [take, hs]
    | some next =>
      obtain ⟨item, d'⟩ := next
      have hl := step_length hs
      cases n with
      | zero => omega
      | succ n =>
        have he : d'.take m = d'.take n := ih (by omega) (by omega)
        simp only [take, hs, he]

theorem items_of_step {d d' : Decoder} {item : Item} (h : d.step = some (item, d')) :
    d.items = item :: d'.items := by
  have hl := step_length h
  obtain ⟨k, hk⟩ := Nat.exists_eq_add_of_lt hl
  have ht : d'.take (d'.rest.length + k) = d'.drain :=
    take_of_length_le (Nat.le_add_right _ k) (Nat.le_refl _)
  simp only [items, drain, hk, take, h] at ht ⊢
  rw [ht]

@[simp] theorem items_nil : items ⟨policy, pc, []⟩ = [] := rfl

theorem items_unassigned (refused : ¬policy.Accepts opcode) :
    items ⟨policy, pc, opcode :: rest⟩ = [.error (.unassigned opcode pc)] :=
  items_of_step (step_unassigned refused)

theorem items_truncated (accepted : policy.Accepts opcode)
    (cut : rest.length < (Opcode.entry opcode).width) :
    items ⟨policy, pc, opcode :: rest⟩ =
      [.error (.truncated opcode (Opcode.entry opcode).mnemonic pc (Opcode.entry opcode).width
        rest)] :=
  items_of_step (step_truncated accepted cut)

theorem items_instruction (accepted : policy.Accepts opcode)
    (full : immediate.length = (Opcode.entry opcode).width) :
    items ⟨policy, pc, opcode :: (immediate ++ rest)⟩ =
      .ok (.ofCode pc opcode immediate) :: items ⟨policy, pc + 1 + immediate.length, rest⟩ :=
  items_of_step (step_instruction accepted full)

/-- A pass over the bytes left from a place on, with what it lists. -/
inductive Pass (policy : Policy) : Nat → Bytes → Listing → Prop
  | finished (pc : Nat) : Pass policy pc [] ⟨[], none⟩
  | unassigned (pc : Nat) {opcode : UInt8} (rest : Bytes) (refused : ¬policy.Accepts opcode) :
      Pass policy pc (opcode :: rest) ⟨[], some (.unassigned opcode pc)⟩
  | truncated (pc : Nat) {opcode : UInt8} {rest : Bytes} (accepted : policy.Accepts opcode)
      (cut : rest.length < (Opcode.entry opcode).width) :
      Pass policy pc (opcode :: rest)
        ⟨[], some (.truncated opcode (Opcode.entry opcode).mnemonic pc
          (Opcode.entry opcode).width rest)⟩
  | instruction {pc : Nat} {opcode : UInt8} {immediate rest : Bytes} {l : Listing}
      (accepted : policy.Accepts opcode) (full : immediate.length = (Opcode.entry opcode).width)
      (more : Pass policy (pc + 1 + immediate.length) rest l) :
      Pass policy pc (opcode :: (immediate ++ rest))
        ⟨.ofCode pc opcode immediate :: l.instructions, l.fault⟩

/-- The pass of a decoder, by recursion on the bytes left. -/
theorem pass_items (policy : Policy) (pc : Nat) (bytes : Bytes) :
    Pass policy pc bytes (Listing.ofItems (items ⟨policy, pc, bytes⟩)) := by
  cases bytes with
  | nil => exact .finished pc
  | cons opcode rest =>
    cases front policy opcode rest with
    | unassigned refused => rw [items_unassigned refused]; exact .unassigned pc rest refused
    | truncated accepted cut => rw [items_truncated accepted cut]; exact .truncated pc accepted cut
    | @instruction immediate rest accepted full =>
      rw [items_instruction accepted full]
      exact .instruction accepted full (pass_items policy _ rest)
termination_by bytes.length

/-- There is no other pass from the same place. -/
theorem Pass.eq_items {bytes : Bytes} {l : Listing} (h : Pass policy pc bytes l) :
    Listing.ofItems (items ⟨policy, pc, bytes⟩) = l := by
  induction h with
  | finished pc => rfl
  | unassigned pc rest refused => rw [items_unassigned refused]; rfl
  | truncated pc accepted cut => rw [items_truncated accepted cut]; rfl
  | instruction accepted full more ih =>
    rw [items_instruction accepted full, Listing.ofItems_ok, ih]

end Decoder

open Decoder

theorem pass_decodePartial (policy : Policy) (code : Bytes) :
    Pass policy 0 code (decodePartial policy code) := pass_items policy 0 code

theorem decodePartial_eq_iff {policy : Policy} {code : Bytes} {l : Listing} :
    decodePartial policy code = l ↔ Pass policy 0 code l :=
  ⟨fun h => h ▸ pass_decodePartial policy code, Pass.eq_items⟩

/-- Collecting items looks for a fault where listing them does. -/
theorem Decoder.collect_eq (items : List Item) :
    collect items = match (Listing.ofItems items).fault with
      | none => .ok (Listing.ofItems items).instructions
      | some fault => .error fault := by
  induction items with
  | nil => rfl
  | cons item items ih =>
    cases item with
    | error fault => rfl
    | ok i =>
      rw [collect, ih, Listing.ofItems_ok]
      cases (Listing.ofItems items).fault <;> rfl

/-- A code decodes as a whole to what is listed of it, unless a fault is listed. -/
theorem decode_eq_ok_iff {code : Bytes} {is : List Instruction} :
    decode code = .ok is ↔ decodePartial .sentinel code = ⟨is, none⟩ := by
  rw [decode, collect_eq, ← decodePartial]
  obtain ⟨instructions, fault⟩ := decodePartial .sentinel code
  cases fault <;> simp

end EvmListing
