import EvmListing.Proofs.Decoder.Pass
import EvmListing.Proofs.Mnemonic
import EvmListing.Proofs.Numeral
import EvmListing.Proofs.Text.Lines

/-! The messages of decoding faults tell the faults. Each part of a message has a known width or
ends at a blank, and the list of bytes at the end is told by the digits in it. -/
namespace EvmListing

/-- Characters that the separator has none of are those of the parts, in order. -/
theorem Text.filter_intercalate {p : Char → Bool} {sep : List Char} (hsep : sep.filter p = []) :
    ∀ ss : List (List Char), (sep.intercalate ss).filter p = ss.flatMap (List.filter p)
  | [] => rfl
  | [s] => by simp
  | s :: s' :: ss => by
    have ih := filter_intercalate hsep (s' :: ss)
    rw [List.intercalate_cons_cons, List.filter_append, List.filter_append, hsep, List.append_nil,
      ih]
    rfl

namespace Hex

theorem digits_injective : Function.Injective digits := by
  intro bs cs h
  have hlength : bs.length = cs.length := by
    have hdigits := congrArg List.length h
    rw [digits_length, digits_length] at hdigits
    omega
  have hvalue : bigEndian bs = bigEndian cs := (spells_digits bs).unique (h ▸ spells_digits cs)
  rw [← toBigEndian_bigEndian bs, hlength, hvalue, toBigEndian_bigEndian]

end Hex

namespace Decoder.Fault

/-- Whether the name that a fault gives is one word. -/
def Named : Fault → Prop
  | unassigned .. => True
  | truncated _ mnemonic .. => ∀ c ∈ mnemonic.toList, c.isAlphanum = true

lemma toList_bytesText (bs : Bytes) : (bytesText bs).toList =
    "[".toList ++ (", ".toList.intercalate (bs.map Hex.ofByte) ++ "]".toList) := by
  have hparts : (bs.map fun b => String.ofList (Hex.ofByte b)).map String.toList =
      bs.map Hex.ofByte := by
    rw [List.map_map]
    exact List.map_congr_left fun b _ => String.toList_ofList
  rw [bytesText, String.toList_append, String.toList_append, String.toList_intercalate, hparts,
    List.append_assoc]

/-- The digits in a list of bytes are those of the bytes. -/
lemma digits_bytesText (bs : Bytes) :
    (bytesText bs).toList.filter (Hex.IsLowerDigit ·) = Hex.digits bs := by
  have hparts : (bs.map Hex.ofByte).flatMap (List.filter (Hex.IsLowerDigit ·)) =
      (Hex.digits bs).filter (Hex.IsLowerDigit ·) := by
    rw [Hex.digits, List.filter_flatMap, List.flatMap_map]
  have hall : (Hex.digits bs).filter (Hex.IsLowerDigit ·) = Hex.digits bs :=
    List.filter_eq_self.mpr fun c hc => decide_eq_true ((Hex.spells_digits bs).lower c hc)
  rw [toList_bytesText, List.filter_append, List.filter_append,
    Text.filter_intercalate (by decide), hparts, hall]
  exact List.append_nil _

theorem bytesText_injective : Function.Injective bytesText := by
  intro bs cs h
  apply Hex.digits_injective
  rw [← digits_bytesText, h, digits_bytesText]

theorem byteText_injective : Function.Injective byteText := by
  intro b c h
  have hchars := congrArg String.toList h
  simp only [byteText, Hex.encode, String.toList_ofList, List.cons.injEq, true_and] at hchars
  exact (List.cons.inj (Hex.digits_injective hchars)).1

lemma length_byteText (b : UInt8) : (byteText b).toList.length = 4 := by
  rw [byteText, Hex.encode, String.toList_ofList]
  rfl

lemma toList_unassigned (opcode : UInt8) (offset : Nat) :
    (unassigned opcode offset).message.toList =
      "Opcode desconhecido ".toList ++ ((byteText opcode).toList ++
        (" no offset ".toList ++ Nat.toDigits 10 offset)) := by
  unfold message
  simp only [String.toList_append, List.append_assoc, Nat.toString_eq_ofList_toDigits,
    String.toList_ofList]

/-- The name and the numbers each end at a blank. -/
lemma toList_truncated (opcode : UInt8) (mnemonic : String) (offset expected : Nat)
    (available : Bytes) : (truncated opcode mnemonic offset expected available).message.toList =
    "Operando truncado: ".toList ++ (mnemonic.toList ++ ' ' :: ("(".toList ++
      ((byteText opcode).toList ++ (") no offset ".toList ++ (Nat.toDigits 10 offset ++
        ' ' :: ("espera ".toList ++ (Nat.toDigits 10 expected ++
          ' ' :: ("bytes, disponíveis ".toList ++ (bytesText available).toList)))))))) := by
  have hcons (c : Char) (s t : List Char) : c :: (s ++ t) = (c :: s) ++ t := rfl
  have hopen : ' ' :: "(".toList = " (".toList := rfl
  have hwanted : ' ' :: "espera ".toList = " espera ".toList := rfl
  have hgiven : ' ' :: "bytes, disponíveis ".toList = " bytes, disponíveis ".toList := rfl
  rw [hcons, hopen, hcons, hwanted, hcons, hgiven]
  unfold message
  simp only [String.toList_append, List.append_assoc, Nat.toString_eq_ofList_toDigits,
    String.toList_ofList]

lemma number_unique {m n : Nat} {r r' : List Char}
    (h : Nat.toDigits 10 m ++ ' ' :: r = Nat.toDigits 10 n ++ ' ' :: r') : m = n ∧ r = r' := by
  obtain ⟨hdigits, hrest⟩ := Text.part_unique (not_mem_decimal rfl m) (not_mem_decimal rfl n) h
  exact ⟨decimal_injective hdigits, hrest⟩

/-- The two kinds of messages differ in their third character. -/
lemma message_ne {opcode opcode' : UInt8} {offset offset' expected : Nat} {mnemonic : String}
    {available : Bytes} : (unassigned opcode offset).message ≠
      (truncated opcode' mnemonic offset' expected available).message := by
  intro h
  have hfront := congrArg (fun s => s.toList.take 3) h
  simp only [toList_unassigned, toList_truncated] at hfront
  rw [List.take_append_of_le_length (by decide),
    List.take_append_of_le_length (by decide)] at hfront
  exact absurd hfront (by decide)

/-- A message is that of one fault only. -/
theorem message_injective {f g : Fault} (hf : f.Named) (hg : g.Named)
    (h : f.message = g.message) : f = g := by
  have hchars := congrArg String.toList h
  cases f with
  | unassigned opcode offset =>
    cases g with
    | unassigned opcode' offset' =>
      rw [toList_unassigned, toList_unassigned] at hchars
      obtain ⟨hopcode, hrest⟩ := List.append_inj (List.append_cancel_left hchars)
        ((length_byteText opcode).trans (length_byteText opcode').symm)
      rw [byteText_injective (String.toList_inj.mp hopcode),
        decimal_injective (List.append_cancel_left hrest)]
    | truncated => exact absurd h message_ne
  | truncated opcode mnemonic offset expected available =>
    cases g with
    | unassigned => exact absurd h.symm message_ne
    | truncated opcode' mnemonic' offset' expected' available' =>
      have hblank : ¬(' ').isAlphanum = true := by decide
      rw [toList_truncated, toList_truncated] at hchars
      obtain ⟨hname, hrest⟩ := Text.part_unique (fun hmem => hblank (hf ' ' hmem))
        (fun hmem => hblank (hg ' ' hmem)) (List.append_cancel_left hchars)
      obtain ⟨hopcode, hrest⟩ := List.append_inj (List.append_cancel_left hrest)
        ((length_byteText opcode).trans (length_byteText opcode').symm)
      obtain ⟨hoffset, hrest⟩ := number_unique (List.append_cancel_left hrest)
      obtain ⟨hexpected, hrest⟩ := number_unique (List.append_cancel_left hrest)
      have havailable := String.toList_inj.mp (List.append_cancel_left hrest)
      rw [String.toList_inj.mp hname, byteText_injective (String.toList_inj.mp hopcode), hoffset,
        hexpected, bytesText_injective havailable]

end Decoder.Fault

/-- The names in the faults of passes are names of opcodes. -/
lemma Decoder.Pass.fault_named {policy : Policy} {pc : Nat} {bytes : Bytes} {l : Listing}
    (h : Pass policy pc bytes l) : ∀ fault ∈ l.fault, fault.Named := by
  induction h with
  | finished => exact nofun
  | unassigned =>
    rintro fault ⟨⟩
    trivial
  | @truncated pc opcode =>
    rintro fault ⟨⟩
    exact Opcode.isAlphanum_mnemonic opcode
  | instruction _ _ _ ih => exact ih

end EvmListing
