import EvmListing.Json.Number
import EvmListing.Proofs.Json.Scanning
import EvmListing.Proofs.Size

/-! Numbers in the bytes that encode them. Plain digits are read as the number that they spell, as
long as it is below 2^64; no other spelling is read as a number of bytes. All of them are passed
over. -/
namespace EvmListing.Json
open Utf8 (encode)

/-- A digit is one byte, with the value of the digit. -/
lemma encode_digit {d : Char} (h : d.isDigit) (t : List Char) :
    ∃ b, isDigit b = true ∧ digitValue b = d.toNat - '0'.toNat ∧
      encode (d :: t) = b :: encode t := by
  have hlow := sameClass_digit.ascii' d h
  refine ⟨_, (sameClass_digit.same d hlow).mpr h, ?_, Utf8.encode_cons_ascii hlow t⟩
  rw [digitValue, Utf8.toNat_byte hlow]
  rfl

lemma head?_ne_zero {d : Char} (h : d ≠ '0') {b : UInt8} {t : List Char} {bs : Bytes}
    (hencode : encode (d :: t) = b :: bs) : b ≠ Ascii.zero := by
  have hne := Utf8.head?_ne (s := d :: t) (d := '0') (by decide) fun heq => h (Option.some.inj heq)
  rw [hencode] at hne
  exact fun heq => hne (congrArg some heq)

lemma ne_of_isDigit {b c : UInt8} (h : isDigit b = true) (hc : isDigit c = false) : b ≠ c := by
  rintro rfl
  rw [hc] at h
  cases h

lemma nextIsExponent_of_ne {r : List Char} (h : r.head? ≠ some 'e') (h' : r.head? ≠ some 'E') :
    nextIsExponent (encode r) = .ok (false, encode r) := by
  have he := beq_eq_false_iff_ne.mpr (Utf8.head?_ne (by decide) h)
  have hE := beq_eq_false_iff_ne.mpr (Utf8.head?_ne (by decide) h')
  change Except.ok ((encode r).head? == some (UInt8.ofNat 'e'.toNat) ||
    (encode r).head? == some (UInt8.ofNat 'E'.toNat), _) = _
  rw [he, hE, Bool.or_false]

lemma peek_ne_point {r : List Char} (h : r.head? ≠ some '.') :
    ∃ o, peek (encode r) = .ok (o, encode r) ∧ o ≠ some Ascii.point :=
  ⟨_, rfl, Utf8.head?_ne (by decide) h⟩

section
variable {r : List Char} (stops : Stops r)
include stops

lemma Stops.not_digit : ∀ c ∈ r.head?, ¬c.isDigit = true := fun c hc h => stops c hc (.inl h)

lemma Stops.head?_ne {c : Char} (h : InNumber c) : r.head? ≠ some c := fun heq => stops c heq h

end

/-! ### Passing over -/

/-- An exponent that does not matter, if there is one. -/
def skipExponent : Scanner Unit := do
  if ← nextIsExponent then
    let _ ← next
    let _ ← exponentSign
    match ← next with
    | none => fail .invalidNumber
    | some b => if !isDigit b then fail .invalidNumber
    let _ ← digits

/-- What follows the integer part of a number that does not matter. -/
def skipFraction : Scanner Unit := do
  if (← peek) = some Ascii.point then
    let _ ← next
    let ds ← digits
    if ds.isEmpty then failAtNext .invalidNumber
  skipExponent

lemma exponentSign_encode {sign : List Char} (signed : sign = [] ∨ sign = ['+'] ∨ sign = ['-'])
    {d : Char} (hd : d.isDigit) (t : List Char) :
    ∃ down, exponentSign (encode (sign ++ d :: t)) = .ok (down, encode (d :: t)) := by
  obtain rfl | rfl | rfl := signed
  · obtain ⟨b, hb, -, hencode⟩ := encode_digit hd t
    have hplus : some b = some ⟨43#8⟩ → False := fun h => ne_of_isDigit hb rfl (Option.some.inj h)
    have hminus : some b = some ⟨45#8⟩ → False := fun h => ne_of_isDigit hb rfl (Option.some.inj h)
    have hpeek : peek (b :: encode t) = .ok (some b, b :: encode t) := rfl
    refine ⟨false, ?_⟩
    rw [List.nil_append, hencode, exponentSign, bind_of_ok hpeek]
    simp only
    rfl
  · exact ⟨false, rfl⟩
  · exact ⟨true, rfl⟩

lemma Exponent.skip {exponent r : List Char} (h : Exponent exponent) (stops : Stops r) :
    skipExponent (encode (exponent ++ r)) = .ok ((), encode r) := by
  cases h with
  | none =>
    have he := nextIsExponent_of_ne (stops.head?_ne (c := 'e') (by simp [InNumber]))
      (stops.head?_ne (c := 'E') (by simp [InNumber]))
    rw [List.nil_append, skipExponent, bind_of_ok he]
    rfl
  | @digits e sign ds letter signed given all =>
    obtain ⟨d, ds, rfl⟩ := List.exists_cons_of_ne_nil given
    obtain ⟨hd, hds⟩ := List.forall_mem_cons.mp all
    obtain ⟨b, hb, -, hencode⟩ := encode_digit hd (ds ++ r)
    obtain ⟨down, hsign⟩ := exponentSign_encode signed hd (ds ++ r)
    have hletter : nextIsExponent (encode (e :: (sign ++ d :: (ds ++ r)))) =
        .ok (true, encode (e :: (sign ++ d :: (ds ++ r)))) ∧
        ∃ c, next (encode (e :: (sign ++ d :: (ds ++ r)))) =
          .ok (c, encode (sign ++ d :: (ds ++ r))) := by
      obtain rfl | rfl := letter <;> exact ⟨rfl, _, rfl⟩
    obtain ⟨hexponent, c, hnext⟩ := hletter
    rw [List.cons_append, List.append_assoc, List.cons_append, skipExponent, bind_of_ok hexponent,
      if_pos rfl, bind_of_ok hnext, bind_of_ok hsign, hencode, bind_of_ok (next_cons _ _)]
    simp only [hb, Bool.not_true, Bool.false_eq_true, if_false]
    rw [bind_of_ok (digits_encode hds stops.not_digit)]
    rfl

lemma Exponent.head?_not {exponent r : List Char} (h : Exponent exponent) (stops : Stops r) :
    ∀ c ∈ (exponent ++ r).head?, ¬c.isDigit = true ∧ c ≠ '.' := by
  cases h with
  | none =>
    exact fun c hc =>
      ⟨stops.not_digit c hc, fun heq => stops c hc (by simp [heq, InNumber])⟩
  | digits letter =>
    rintro c ⟨⟩
    obtain rfl | rfl := letter <;> exact ⟨by decide, by decide⟩

lemma Fraction.skip {fraction exponent r : List Char} (h : Fraction fraction)
    (power : Exponent exponent) (stops : Stops r) :
    skipFraction (encode (fraction ++ (exponent ++ r))) = .ok ((), encode r) := by
  have hrest := power.head?_not stops
  cases h with
  | none =>
    obtain ⟨o, hpeek, hne⟩ := peek_ne_point fun heq => (hrest '.' heq).2 rfl
    rw [List.nil_append, skipFraction, bind_of_ok hpeek, if_neg hne]
    exact power.skip stops
  | @digits ds given all =>
    have hpeek : peek (encode ('.' :: (ds ++ (exponent ++ r)))) =
      .ok (some Ascii.point, encode ('.' :: (ds ++ (exponent ++ r)))) := rfl
    have hnext : next (encode ('.' :: (ds ++ (exponent ++ r)))) =
      .ok (some Ascii.point, encode (ds ++ (exponent ++ r))) := rfl
    obtain ⟨d, ds, rfl⟩ := List.exists_cons_of_ne_nil given
    obtain ⟨b, -, -, hencode⟩ := encode_digit (all d List.mem_cons_self) ds
    rw [List.cons_append, skipFraction, bind_of_ok hpeek, if_pos rfl, bind_of_ok hnext,
      bind_of_ok (digits_encode all fun c hc => (hrest c hc).1), hencode]
    exact power.skip stops

lemma Whole.skip {whole r : List Char} (h : Whole whole) (stop : ∀ c ∈ r.head?, ¬c.isDigit = true) :
    skipNumber (encode (whole ++ r)) = skipFraction (encode r) := by
  cases h with
  | zero =>
    have hnext : next (encode ('0' :: r)) = .ok (some Ascii.zero, encode r) := rfl
    rw [List.cons_append, List.nil_append, skipNumber, bind_of_ok hnext]
    simp only [if_true]
    rw [bind_of_ok (nextIsDigit_encode stop)]
    rfl
  | @positive d ds first more =>
    obtain ⟨b, hb, hvalue, hencode⟩ := encode_digit first.1 (ds ++ r)
    have hzero := head?_ne_zero first.2 hencode
    rw [List.cons_append, hencode, skipNumber, bind_of_ok (next_cons b _)]
    simp only [hzero, hb, if_true, if_false]
    rw [bind_of_ok (digits_encode more stop)]
    rfl

section
variable {whole fraction exponent r : List Char} (before : Whole whole) (after : Fraction fraction)
  (power : Exponent exponent) (stops : Stops r)
include after power stops

lemma Fraction.head?_not : ∀ c ∈ (fraction ++ (exponent ++ r)).head?, ¬c.isDigit = true := by
  cases after with
  | none => exact fun c hc => (power.head?_not stops c hc).1
  | digits =>
    rintro c ⟨⟩
    decide

include before

/-- A number is passed over up to its end, after its minus if it has one. -/
theorem skipNumber_encode :
    skipNumber (encode (whole ++ (fraction ++ (exponent ++ r)))) = .ok ((), encode r) :=
  (before.skip (after.head?_not power stops)).trans (after.skip power stops)

end

/-! ### Reading -/

/-- Digits stay where they are from the one on that would leave 64 bits. -/
lemma accumulate_encode {ds : List Char} (all : ∀ c ∈ ds, c.isDigit) {n : Nat} (hn : n < 2^64) :
    accumulate n (encode ds) = (Nat.ofDigitChars 10 ds n, []) ∧ Nat.ofDigitChars 10 ds n < 2^64 ∨
      (accumulate n (encode ds)).2 ≠ [] ∧ 2^64 ≤ Nat.ofDigitChars 10 ds n := by
  induction ds generalizing n with
  | nil => exact .inl ⟨rfl, hn⟩
  | cons d ds ih =>
    obtain ⟨hd, hds⟩ := List.forall_mem_cons.mp all
    obtain ⟨b, -, hvalue, hencode⟩ := encode_digit hd ds
    rw [hencode, accumulate, hvalue, Nat.ofDigitChars_cons]
    by_cases hlt : 10 * n + (d.toNat - '0'.toNat) < 2^64
    · simp only [hlt, if_true]
      exact ih hds hlt
    · simp only [hlt, if_false]
      exact .inr ⟨List.cons_ne_nil _ _,
        Nat.le_trans (Nat.le_of_not_lt hlt) (Size.le_ofDigitChars ds _)⟩

/-- Digits that leave 64 bits make a float, whatever follows. -/
lemma Whole.number {whole r : List Char} (h : Whole whole)
    (stop : ∀ c ∈ r.head?, ¬c.isDigit = true) (negative : Bool) :
    Nat.ofDigitChars 10 whole 0 < 2^64 ∧ number negative (encode (whole ++ r)) =
        afterSmallInteger negative (Nat.ofDigitChars 10 whole 0) (encode r) ∨
      2^64 ≤ Nat.ofDigitChars 10 whole 0 ∧
        ∀ n u, number negative (encode (whole ++ r)) ≠ .ok (.integer n, u) := by
  cases h with
  | zero =>
    have hnext : next (encode ('0' :: r)) = .ok (some Ascii.zero, encode r) := rfl
    refine .inl ⟨by decide, ?_⟩
    rw [List.cons_append, List.nil_append, Json.number, bind_of_ok hnext]
    simp only [if_true]
    rw [bind_of_ok (nextIsDigit_encode stop)]
    rfl
  | @positive d ds first more =>
    obtain ⟨b, hb, hvalue, hencode⟩ := encode_digit first.1 (ds ++ r)
    have hzero := head?_ne_zero first.2 hencode
    have hsmall : d.toNat - '0'.toNat < 2^64 := by
      have hlow := sameClass_digit.ascii' d first.1
      omega
    rw [Nat.ofDigitChars_cons, Nat.mul_zero, Nat.zero_add, List.cons_append, hencode, Json.number,
      bind_of_ok (next_cons b _)]
    simp only [hzero, hb, if_true, if_false]
    rw [bind_of_ok (digits_encode more stop), hvalue]
    obtain ⟨hvalue, hlt⟩ | ⟨hleft, hge⟩ := accumulate_encode more hsmall
    · refine .inl ⟨hlt, ?_⟩
      rw [hvalue]
      rfl
    · refine .inr ⟨hge, fun n u hread => ?_⟩
      rw [if_neg (by simpa using hleft)] at hread
      obtain ⟨y, -, hy⟩ := map_ok hread
      cases hy

lemma afterSmallInteger_stops {r : List Char} (stops : Stops r) (n : Nat) :
    afterSmallInteger false n (encode r) = .ok (.integer n, encode r) := by
  obtain ⟨o, hpeek, hpoint⟩ := peek_ne_point (stops.head?_ne (c := '.') (by simp [InNumber]))
  have he := nextIsExponent_of_ne (stops.head?_ne (c := 'e') (by simp [InNumber]))
    (stops.head?_ne (c := 'E') (by simp [InNumber]))
  rw [afterSmallInteger, bind_of_ok hpeek, bind_of_ok he, if_neg (by simp [hpoint])]
  rfl

/-- A fraction or an exponent makes a float of a whole number. -/
lemma afterSmallInteger_float {c : Char} (h : c = '.' ∨ c = 'e' ∨ c = 'E') (t : List Char)
    (negative : Bool) (m : Nat) {n : Int} {u : Bytes} :
    afterSmallInteger negative m (encode (c :: t)) ≠ .ok (.integer n, u) := by
  intro hread
  have hfloat : (Number.float <$> afterInteger negative m 0) (encode (c :: t)) =
      .ok (.integer n, u) := by
    obtain rfl | rfl | rfl := h <;> exact hread
  obtain ⟨x, -, hx⟩ := map_ok hfloat
  cases hx

lemma afterSmallInteger_negative {m : Nat} {s u : Bytes} {n : Int}
    (h : afterSmallInteger true m s = .ok (.integer n, u)) : n < 0 := by
  obtain ⟨o, t, -, h⟩ := bind_ok h
  obtain ⟨e, t', -, h⟩ := bind_ok h
  split at h
  · obtain ⟨x, -, hx⟩ := map_ok h
    cases hx
  · rw [if_pos rfl] at h
    split at h
    · next hm =>
      cases h
      omega
    · cases h

/-- With a minus there are only integers below zero, and floats. -/
lemma number_negative {s u : Bytes} {n : Int} (h : number true s = .ok (.integer n, u)) :
    n < 0 := by
  obtain ⟨first, t, -, h⟩ := bind_ok h
  cases first with
  | none => cases h
  | some first =>
    simp only at h
    split at h
    · obtain ⟨more, t', -, h⟩ := bind_ok h
      cases more with
      | true => cases h
      | false => exact afterSmallInteger_negative h
    · split at h
      · obtain ⟨ds, t', -, h⟩ := bind_ok h
        split at h
        · exact afterSmallInteger_negative h
        · obtain ⟨x, -, hx⟩ := map_ok h
          cases hx
      · cases h

lemma Whole.digits {whole : List Char} (h : Whole whole) :
    whole ≠ [] ∧ ∀ c ∈ whole, c.isDigit = true := by
  cases h with
  | zero => exact ⟨List.cons_ne_nil _ _, List.forall_mem_singleton.mpr rfl⟩
  | positive first more => exact ⟨List.cons_ne_nil _ _, List.forall_mem_cons.mpr ⟨first.1, more⟩⟩

lemma nat?_eq_some_iff {s : List Char} {n : Nat} : (Value.number s).nat? = some n ↔
    s ≠ [] ∧ (∀ c ∈ s, c.isDigit = true) ∧ Nat.ofDigitChars 10 s 0 = n := by
  simp [Value.nat?, and_assoc]

/-- What is left of a number behind its integer part shows itself at once. -/
lemma Fraction.nil_or_first {fraction exponent : List Char} (after : Fraction fraction)
    (power : Exponent exponent) : fraction ++ exponent = [] ∨
      ∃ c t, fraction ++ exponent = c :: t ∧ (c = '.' ∨ c = 'e' ∨ c = 'E') := by
  cases after with
  | digits => exact .inr ⟨_, _, rfl, .inl rfl⟩
  | none =>
    cases power with
    | none => exact .inl rfl
    | digits letter => exact .inr ⟨_, _, rfl, .inr letter⟩

theorem IsNumber.read_iff {s r : List Char} (form : IsNumber s) (stops : Stops r)
    (unsigned : s.head? ≠ some '-') {n : Int} {u : Bytes} :
    number false (encode (s ++ r)) = .ok (.integer n, u) ↔
      ∃ k < 2^64, (Value.number s).nat? = some k ∧ n = k ∧ u = encode r := by
  cases form with
  | @parts sign whole fraction exponent signed before after power =>
    obtain rfl | rfl := signed
    · have hstop : ∀ c ∈ (fraction ++ exponent ++ r).head?, ¬c.isDigit = true := by
        rw [List.append_assoc]
        exact after.head?_not power stops
      have hnumber := before.number hstop false
      have hrest := after.nil_or_first power
      generalize fraction ++ exponent = left at hnumber hrest ⊢
      have hplain {k : Nat} (h : (Value.number (whole ++ left)).nat? = some k) :
          left = [] ∧ Nat.ofDigitChars 10 whole 0 = k := by
        obtain ⟨-, hall, hk⟩ := nat?_eq_some_iff.mp h
        obtain rfl | ⟨c, t, rfl, hc⟩ := hrest
        · rw [List.append_nil] at hk
          exact ⟨rfl, hk⟩
        · have hdigit := hall c (by simp)
          obtain rfl | rfl | rfl := hc <;> cases hdigit
      rw [List.nil_append, List.append_assoc]
      constructor
      · intro hread
        obtain ⟨hlt, heq⟩ | ⟨-, hnever⟩ := hnumber
        · rw [heq] at hread
          obtain rfl | ⟨c, t, rfl, hc⟩ := hrest
          · rw [List.nil_append, afterSmallInteger_stops stops] at hread
            cases hread
            have hdigits := before.digits
            rw [← List.append_nil whole] at hdigits
            exact ⟨_, hlt, nat?_eq_some_iff.mpr ⟨hdigits.1, hdigits.2, by simp⟩, rfl, rfl⟩
          · exact absurd hread (afterSmallInteger_float hc _ _ _)
        · exact absurd hread (hnever n u)
      · rintro ⟨k, hk, hnat, rfl, rfl⟩
        obtain ⟨rfl, rfl⟩ := hplain hnat
        obtain ⟨-, heq⟩ | ⟨hge, -⟩ := hnumber
        · rw [heq]
          exact afterSmallInteger_stops stops _
        · exact absurd hk (Nat.not_lt.mpr hge)
    · exact absurd rfl unsigned

end EvmListing.Json
