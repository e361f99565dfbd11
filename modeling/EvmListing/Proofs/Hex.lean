import EvmListing.Proofs.Numeral
import EvmListing.Proofs.Text.Utf8
import EvmListing.Report
import Mathlib.Data.List.DropRight
import Mathlib.Tactic.SplitIfs

/-! Which texts spell bytes in hex. What counts of a text stands between blanks and behind a mark. It
spells bytes exactly if it is made of pairs of digits, and writing the bytes gives it back in lower
case. -/
namespace EvmListing
open Json (hexDigit?)

namespace Text
variable {s body : List Char}

/-- Whether a text is another one with blanks around it. -/
def Trimmed (s body : List Char) : Prop :=
  ∃ before after, s = before ++ body ++ after ∧ (∀ c ∈ before ++ after, isBlank c = true) ∧
    (∀ c ∈ body.head?, isBlank c = false) ∧ ∀ c ∈ body.getLast?, isBlank c = false

lemma trim_eq (s : List Char) : trim s = (s.dropWhile isBlank).rdropWhile isBlank := rfl

theorem trimmed_trim (s : List Char) : Trimmed s (trim s) := by
  refine ⟨s.takeWhile isBlank, (s.dropWhile isBlank).rtakeWhile isBlank, ?_, ?_, ?_, ?_⟩
  · rw [List.append_assoc, trim_eq, List.rdropWhile_append_rtakeWhile,
      List.takeWhile_append_dropWhile]
  · intro c hc
    rcases List.mem_append.mp hc with hc | hc
    · exact List.mem_takeWhile_imp hc
    · exact List.mem_rtakeWhile_imp hc
  · intro c hc
    obtain ⟨rest, hrest⟩ : trim s <+: s.dropWhile isBlank := List.rdropWhile_prefix isBlank _
    have hnot := List.head?_dropWhile_not isBlank s
    rwa [← hrest, List.head?_append, Option.mem_def.mp hc] at hnot
  · intro c hc
    have hne : trim s ≠ [] := List.ne_nil_of_mem (List.mem_of_getLast? hc)
    obtain rfl := Option.some.inj ((List.getLast?_eq_some_getLast hne).symm.trans hc)
    exact Bool.eq_false_iff.mpr (List.rdropWhile_last_not isBlank _ hne)

theorem Trimmed.eq_trim (h : Trimmed s body) : body = trim s := by
  obtain ⟨before, after, rfl, blanks, head, last⟩ := h
  have hbefore : ∀ c ∈ before, isBlank c = true := fun c hc => blanks c (List.mem_append_left _ hc)
  have hafter : ∀ c ∈ after, isBlank c = true := fun c hc => blanks c (List.mem_append_right _ hc)
  rw [trim_eq, List.append_assoc, List.dropWhile_append_of_pos hbefore]
  cases body with
  | nil =>
    rw [List.nil_append, List.dropWhile_eq_nil_iff.mpr hafter]
    rfl
  | cons c body =>
    rw [List.cons_append, List.dropWhile_cons_of_neg (Bool.eq_false_iff.mp (head c rfl)),
      ← List.cons_append, List.rdropWhile, List.reverse_append,
      List.dropWhile_append_of_pos (by simpa using hafter), ← List.rdropWhile, eq_comm,
      List.rdropWhile_eq_self_iff]
    intro hne
    exact Bool.eq_false_iff.mp (last _ (List.getLast?_eq_some_getLast hne))

end Text

namespace Hex

/-- Whether a text is another one behind a mark, or without one. -/
inductive Unmarked : List Char → List Char → Prop
  | lower (t : List Char) : Unmarked ('0' :: 'x' :: t) t
  | upper (t : List Char) : Unmarked ('0' :: 'X' :: t) t
  | bare {t : List Char} (lower : ¬['0', 'x'] <+: t) (upper : ¬['0', 'X'] <+: t) : Unmarked t t

theorem unmarked_iff {body t : List Char} : Unmarked body t ↔ t = unmark body := by
  constructor
  · rintro (t | t | ⟨lower, upper⟩)
    · rfl
    · rfl
    · unfold unmark
      split
      · next rest => exact absurd (List.prefix_append ['0', 'x'] rest) lower
      · next rest => exact absurd (List.prefix_append ['0', 'X'] rest) upper
      · rfl
  · rintro rfl
    unfold unmark
    split
    · exact .lower _
    · exact .upper _
    · next hlower hupper =>
      refine .bare ?_ ?_
      · rintro ⟨rest, rfl⟩
        exact hlower rest rfl
      · rintro ⟨rest, rfl⟩
        exact hupper rest rfl

/-- What counts of a text: blanks around it and then one mark are left out. -/
def Counts (s t : List Char) : Prop := ∃ body, Text.Trimmed s body ∧ Unmarked body t

theorem counts_iff {s t : List Char} : Counts s t ↔ t = unmark (Text.trim s) := by
  constructor
  · rintro ⟨body, htrimmed, hunmarked⟩
    rw [← htrimmed.eq_trim]
    exact unmarked_iff.mp hunmarked
  · rintro rfl
    exact ⟨_, Text.trimmed_trim s, unmarked_iff.mpr rfl⟩

/-- Whether a character is a digit of either case. -/
def IsDigit (c : Char) : Prop := ∃ n, hexDigit? c = some n

instance : DecidablePred IsDigit := fun _ => decidable_of_iff _ Option.isSome_iff_exists

/-- Pairs of digits, one pair for each byte. -/
inductive Pairs : List Char → Bytes → Prop
  | nil : Pairs [] []
  | cons {a b : Char} {high low : Nat} {t : List Char} {bs : Bytes}
      (first : hexDigit? a = some high) (second : hexDigit? b = some low) (rest : Pairs t bs) :
      Pairs (a :: b :: t) (UInt8.ofNat (16*high + low) :: bs)

section
variable {c : Char} {n : Nat} {t : List Char} {bs : Bytes}

lemma ascii_of_hexDigit? (h : hexDigit? c = some n) : c.toNat < 0x80 := by
  have hle {d : Char} (hd : c ≤ d) : c.toNat ≤ d.toNat := UInt32.le_iff_toNat_le.mp hd
  simp only [hexDigit?] at h
  split_ifs at h with hdigit hlower hupper
  · simp only [Char.isDigit, Bool.and_eq_true, decide_eq_true_eq] at hdigit
    have hnine : c ≤ '9' := hdigit.2
    exact Nat.lt_of_le_of_lt (hle hnine) (by decide)
  · exact Nat.lt_of_le_of_lt (hle hlower.2) (by decide)
  · exact Nat.lt_of_le_of_lt (hle hupper.2) (by decide)

/-- A digit is the lower-case one of its value, in one case or the other. -/
lemma toLower_of_hexDigit? (h : hexDigit? c = some n) : n < 16 ∧ c.toLower = Nat.digitChar n := by
  have hall : ∀ k < 0x80, ∀ n ∈ hexDigit? (Char.ofNat k),
      n < 16 ∧ (Char.ofNat k).toLower = Nat.digitChar n := by decide +kernel
  have hc := hall c.toNat (ascii_of_hexDigit? h)
  rw [Char.ofNat_toNat] at hc
  exact hc n h

/-- The digits are known by their bytes as they are as characters. -/
lemma value?_eq (b : UInt8) : value? b = hexDigit? (Char.ofNat b.toNat) := by
  have hall : ∀ n < 256, value? (UInt8.ofNat n) = hexDigit? (Char.ofNat n) := by decide +kernel
  have hb := hall b.toNat b.toNat_lt
  rwa [UInt8.ofNat_toNat] at hb

lemma digit_eq (position : Nat) {b : UInt8} (h : hexDigit? (Char.ofNat b.toNat) = some n) :
    digit position b = .ok n := by
  rw [digit, value?_eq, h]

lemma digit_ascii (position : Nat) (h : hexDigit? c = some n) :
    digit position (UInt8.ofNat c.toNat) = .ok n := by
  have hc := ascii_of_hexDigit? h
  apply digit_eq
  rwa [UInt8.toNat_ofNat', Nat.mod_eq_of_lt (by omega), Char.ofNat_toNat]

lemma digit_of_not (position : Nat) {b : UInt8} (h : ¬IsDigit (Char.ofNat b.toNat)) :
    digit position b = .error (.notDigit b position) := by
  rw [digit, value?_eq]
  cases hb : hexDigit? (Char.ofNat b.toNat) with
  | none => rfl
  | some n => exact absurd ⟨n, hb⟩ h

lemma Pairs.made_of_digits (h : Pairs t bs) : t.length % 2 = 0 ∧ ∀ c ∈ t, IsDigit c := by
  induction h with
  | nil => exact ⟨rfl, fun c hc => absurd hc List.not_mem_nil⟩
  | cons first second rest ih =>
    refine ⟨by rw [List.length_cons, List.length_cons]; omega, ?_⟩
    simp only [List.forall_mem_cons]
    exact ⟨⟨_, first⟩, ⟨_, second⟩, ih.2⟩

theorem exists_pairs : ∀ t : List Char, t.length % 2 = 0 → (∀ c ∈ t, IsDigit c) → ∃ bs, Pairs t bs
  | [], _, _ => ⟨[], .nil⟩
  | [_], even, _ => nomatch even
  | a :: b :: t, even, digits => by
    simp only [List.forall_mem_cons] at digits
    obtain ⟨⟨high, first⟩, ⟨low, second⟩, digits⟩ := digits
    obtain ⟨bs, rest⟩ := exists_pairs t (by rwa [List.length_cons, List.length_cons,
      Nat.add_assoc, Nat.add_mod_right] at even) digits
    exact ⟨_, .cons first second rest⟩

lemma Pairs.length (h : Pairs t bs) : (Utf8.encode t).length = 2 * bs.length := by
  induction h with
  | nil => rfl
  | cons first second rest ih =>
    rw [Utf8.encode_cons_ascii (ascii_of_hexDigit? first),
      Utf8.encode_cons_ascii (ascii_of_hexDigit? second)]
    simp only [List.length_cons, ih]
    omega

lemma Pairs.read (h : Pairs t bs) (position : Nat) : pairs position (Utf8.encode t) = .ok bs := by
  induction h generalizing position with
  | nil => rfl
  | cons first second rest ih =>
    rw [Utf8.encode_cons_ascii (ascii_of_hexDigit? first),
      Utf8.encode_cons_ascii (ascii_of_hexDigit? second), pairs, digit_ascii position first,
      digit_ascii (position + 1) second, ih]
    rfl

/-- Writing the bytes again gives their digits in lower case. -/
lemma Pairs.digits_eq (h : Pairs t bs) : digits bs = t.map Char.toLower := by
  induction h with
  | nil => rfl
  | @cons a b high low t bs first second rest ih =>
    obtain ⟨hhigh, ha⟩ := toLower_of_hexDigit? first
    obtain ⟨hlow, hb⟩ := toLower_of_hexDigit? second
    have hbyte : (UInt8.ofNat (16*high + low)).toNat = 16*high + low := by
      rw [UInt8.toNat_ofNat']
      omega
    have hdiv : (16*high + low) / 16 = high := by omega
    have hmod : (16*high + low) % 16 = low := by omega
    rw [digits_cons, ofByte, hbyte, hdiv, hmod, ih, List.map_cons, List.map_cons, ha, hb]
    rfl

lemma pairs_digits (bs : Bytes) : Pairs (digits bs) bs := by
  induction bs with
  | nil => exact .nil
  | cons b bs ih =>
    have hb := b.toNat_lt
    have hvalue : UInt8.ofNat (16 * (b.toNat / 16) + b.toNat % 16) = b := by
      rw [Nat.div_add_mod, UInt8.ofNat_toNat]
    have h := Pairs.cons (hexDigit?_digitChar (b.toNat / 16) (by omega))
      (hexDigit?_digitChar (b.toNat % 16) (by omega)) ih
    rwa [hvalue] at h

/-- The first byte that is no digit is told, with its place. -/
lemma pairs_of_not_digit {b : UInt8} (other : ¬IsDigit (Char.ofNat b.toNat)) {rest : Bytes} :
    ∀ (front : Bytes) (position : Nat), (front ++ b :: rest).length % 2 = 0 →
      (∀ a ∈ front, IsDigit (Char.ofNat a.toNat)) →
      pairs position (front ++ b :: rest) = .error (.notDigit b (position + front.length))
  | [], position, even, _ => by
    obtain ⟨c, rest, rfl⟩ : ∃ c rest', rest = c :: rest' := by
      cases rest with
      | nil => cases even
      | cons c rest => exact ⟨c, rest, rfl⟩
    rw [List.nil_append, pairs, digit_of_not position other]
    rfl
  | [a], position, even, digits => by
    obtain ⟨n, ha⟩ := digits a List.mem_cons_self
    rw [List.cons_append, List.nil_append, pairs, digit_eq position ha,
      digit_of_not (position + 1) other]
    rfl
  | a :: a' :: front, position, even, digits => by
    simp only [List.forall_mem_cons] at digits
    obtain ⟨⟨n, ha⟩, ⟨n', ha'⟩, digits⟩ := digits
    have hrest := pairs_of_not_digit other front (position + 2) (by
      rwa [List.cons_append, List.cons_append, List.length_cons, List.length_cons,
        Nat.add_assoc, Nat.add_mod_right] at even) digits
    have hplace : position + 2 + front.length = position + (a :: a' :: front).length := by
      rw [List.length_cons, List.length_cons]
      omega
    rw [List.cons_append, List.cons_append, pairs, digit_eq position ha,
      digit_eq (position + 1) ha', hrest, hplace]
    rfl

/-- What comes of a text when this counts of it. -/
inductive Reads (t : List Char) : Except Error Bytes → Prop
  | bytes {bs : Bytes} (h : Pairs t bs) : Reads t (.ok bs)
  | odd (h : (Utf8.encode t).length % 2 = 1) :
      Reads t (.error (.invalidHex s!"tamanho ímpar ({(Utf8.encode t).length} dígitos)"))
  | foreign {front rest : Bytes} {b : UInt8} (even : (Utf8.encode t).length % 2 = 0)
      (parts : Utf8.encode t = front ++ b :: rest)
      (digits : ∀ a ∈ front, IsDigit (Char.ofNat a.toNat))
      (other : ¬IsDigit (Char.ofNat b.toNat)) :
      Reads t (.error (.invalidHex
        s!"Invalid character {Text.quoteChar (Char.ofNat b.toNat)} at position {front.length}"))

lemma decode_of_even {s : String} (even : (Utf8.encode (unmark (Text.trim s.toList))).length % 2 = 0) :
    decode s = (pairs 0 (Utf8.encode (unmark (Text.trim s.toList)))).mapError .digits := by
  rw [decode]
  simp only [if_pos even, ofDigits]

/-- A text without foreign bytes is made of digits. -/
lemma forall_isDigit (h : ∀ b ∈ Utf8.encode t, IsDigit (Char.ofNat b.toNat)) :
    (∀ c ∈ t, IsDigit c) ∧ (Utf8.encode t).length = t.length := by
  have hascii : ∀ b ∈ Utf8.encode t, b.toNat < 0x80 := by
    intro b hb
    obtain ⟨n, hn⟩ := h b hb
    have hlow := ascii_of_hexDigit? hn
    have hvalid : b.toNat.isValidChar := .inl (by have := b.toNat_lt; omega)
    rwa [Char.ofNat, dif_pos hvalid] at hlow
  have hmap := Utf8.map_encode hascii
  refine ⟨fun c hc => ?_, ?_⟩
  · rw [← hmap] at hc
    obtain ⟨b, hb, rfl⟩ := List.mem_map.mp hc
    exact h b hb
  · rw [← List.length_map (fun b : UInt8 => Char.ofNat b.toNat), hmap]

lemma exists_first_not {α : Type} {p : α → Prop} {xs : List α} (h : ¬∀ x ∈ xs, p x) :
    ∃ front x rest, xs = front ++ x :: rest ∧ (∀ y ∈ front, p y) ∧ ¬p x := by
  induction xs with
  | nil => exact absurd nofun h
  | cons x xs ih =>
    by_cases hx : p x
    · obtain ⟨front, y, rest, rfl, hfront, hy⟩ :=
        ih fun hxs => h (List.forall_mem_cons.mpr ⟨hx, hxs⟩)
      exact ⟨x :: front, y, rest, rfl, List.forall_mem_cons.mpr ⟨hx, hfront⟩, hy⟩
    · exact ⟨[], x, xs, rfl, nofun, hx⟩

theorem decode_iff (s : String) (result : Except Error Bytes) :
    (decode s).mapError TextFault.toError = result ↔
      Reads (unmark (Text.trim s.toList)) result := by
  generalize ht : unmark (Text.trim s.toList) = t
  constructor
  · rintro rfl
    by_cases even : (Utf8.encode t).length % 2 = 0
    · rw [decode_of_even (ht ▸ even), ht]
      by_cases all : ∀ b ∈ Utf8.encode t, IsDigit (Char.ofNat b.toNat)
      · obtain ⟨digits, hlength⟩ := forall_isDigit all
        obtain ⟨bs, h⟩ := exists_pairs t (hlength ▸ even) digits
        rw [h.read]
        exact .bytes h
      · obtain ⟨front, b, rest, parts, digits, other⟩ := exists_first_not all
        rw [parts, pairs_of_not_digit other front 0 (parts ▸ even) digits, Nat.zero_add]
        exact .foreign even parts digits other
    · rw [decode, ht]
      simp only [if_neg even]
      exact .odd (by omega)
  · rintro (h | odd | ⟨even, parts, digits, other⟩)
    · rw [decode_of_even (by rw [ht, h.length]; omega), ht, h.read]
      rfl
    · rw [decode, ht]
      simp only [if_neg (by omega : ¬(Utf8.encode t).length % 2 = 0)]
      rfl
    · rw [decode_of_even (ht ▸ even), ht, parts, pairs_of_not_digit other _ 0 (parts ▸ even) digits,
        Nat.zero_add]
      rfl

theorem decode_eq_ok_iff (s : String) (bs : Bytes) :
    decode s = .ok bs ↔ Pairs (unmark (Text.trim s.toList)) bs := by
  have hok : (decode s).mapError TextFault.toError = .ok bs ↔ decode s = .ok bs := by
    cases decode s <;> simp [Except.mapError]
  rw [← hok, decode_iff]
  constructor
  · rintro (h | _ | _)
    exact h
  · exact .bytes

end

/-- No blank is written. -/
lemma not_blank_of_mem_encode {bs : Bytes} {c : Char} (h : c ∈ (encode bs).toList) :
    Text.isBlank c = false := by
  rw [encode, String.toList_ofList, List.mem_cons, List.mem_cons] at h
  obtain rfl | rfl | hc := h
  · rfl
  · rfl
  · obtain ⟨n, hn⟩ := (pairs_digits bs).made_of_digits.2 c hc
    have hall : ∀ k < 0x80, IsDigit (Char.ofNat k) → Text.isBlank (Char.ofNat k) = false := by
      decide +kernel
    have h := hall c.toNat (ascii_of_hexDigit? hn)
    rw [Char.ofNat_toNat] at h
    exact h ⟨n, hn⟩

/-- Of each text one part counts: what blanks at its ends and then one mark leave of it. It spells
bytes exactly if it is made of pairs of digits, and these bytes are written as its lower-case digits.
Otherwise what is wrong is told: that it has an odd number of bytes, or the first byte that is no digit.
What is written for bytes spells them, whatever blanks are put around it. -/
theorem decode_inverts_encode :
    (∀ s : String, ∃ t, Counts s.toList t ∧ (∀ t', Counts s.toList t' → t' = t) ∧
      (∀ result, (decode s).mapError TextFault.toError = result ↔ Reads t result) ∧
      ((∃ bs, decode s = .ok bs) ↔ t.length % 2 = 0 ∧ ∀ c ∈ t, IsDigit c) ∧
      ∀ bs, decode s = .ok bs →
        Pairs t bs ∧ encode bs = String.ofList ('0' :: 'x' :: t.map Char.toLower)) ∧
    ∀ (bs : Bytes) (before after : List Char),
      (∀ c ∈ before ++ after, Text.isBlank c = true) →
      decode (String.ofList (before ++ (encode bs).toList ++ after)) = .ok bs := by
  refine ⟨fun s => ?_, fun bs before after blanks => ?_⟩
  · refine ⟨unmark (Text.trim s.toList), counts_iff.mpr rfl, fun t' => counts_iff.mp, decode_iff s,
      ?_, fun bs h => ?_⟩
    · simp only [decode_eq_ok_iff]
      exact ⟨fun ⟨bs, h⟩ => h.made_of_digits, fun ⟨even, digits⟩ => exists_pairs _ even digits⟩
    · have hpairs := (decode_eq_ok_iff s bs).mp h
      exact ⟨hpairs, by rw [encode, hpairs.digits_eq]⟩
  · rw [decode_eq_ok_iff, String.toList_ofList]
    have hcounts : Counts (before ++ (encode bs).toList ++ after) (digits bs) :=
      ⟨(encode bs).toList, ⟨before, after, rfl, blanks,
        fun c hc => not_blank_of_mem_encode (List.mem_of_head? hc),
        fun c hc => not_blank_of_mem_encode (List.mem_of_getLast? hc)⟩, by
        rw [encode, String.toList_ofList]
        exact .lower (digits bs)⟩
    rw [← counts_iff.mp hcounts]
    exact pairs_digits bs

end Hex
end EvmListing
