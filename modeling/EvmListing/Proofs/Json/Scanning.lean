import EvmListing.Json.Scanner
import EvmListing.Proofs.Json.Unambiguity
import EvmListing.Proofs.Readers
import EvmListing.Proofs.Text.Order

/-! Scanning a text in the bytes that encode it: blanks are passed over, digits go on as far as
there are any, and a token of one character is found at its byte. -/
namespace EvmListing
open Utf8 (encode)

namespace Utf8
variable {s : List Char}

lemma encode_ascii (h : ∀ c ∈ s, c.toNat < 0x80) :
    encode s = s.map fun c => UInt8.ofNat c.toNat := by
  induction s with
  | nil => rfl
  | cons c s ih =>
    obtain ⟨hc, hs⟩ := List.forall_mem_cons.mp h
    rw [encode_cons_ascii hc, ih hs, List.map_cons]

/-- A first byte of ASCII is that of the first character. -/
lemma head?_of_ascii {b : UInt8} (hb : b ∈ (encode s).head?) (ascii : b.toNat < 0x80) :
    ∃ c ∈ s.head?, c.toNat < 0x80 ∧ UInt8.ofNat c.toNat = b := by
  cases s with
  | nil => cases hb
  | cons c s =>
    by_cases hc : c.toNat < 0x80
    · rw [encode_cons_ascii hc] at hb
      exact ⟨c, rfl, hc, Option.some.inj hb⟩
    · obtain ⟨d, ds, hds⟩ := List.exists_cons_of_ne_nil (encodeChar_ne_nil c)
      rw [encode_cons, hds] at hb
      have hbyte : b ∈ String.utf8EncodeChar c := by
        rw [hds, ← Option.some.inj hb]
        exact List.mem_cons_self
      exact absurd (high_of_not_ascii (Nat.le_of_not_lt hc) b hbyte) (Nat.not_le.mpr ascii)

lemma head?_ne {d : Char} (ascii : d.toNat < 0x80) (h : s.head? ≠ some d) :
    (encode s).head? ≠ some (UInt8.ofNat d.toNat) := by
  intro hb
  obtain ⟨c, hc, hlow, heq⟩ := head?_of_ascii hb (by rwa [toNat_byte ascii])
  exact h (ascii_inj hlow ascii heq ▸ hc)

/-- Whether some bytes of ASCII are those of some characters. -/
structure SameClass (p : UInt8 → Bool) (q : Char → Prop) : Prop where
  ascii : ∀ b, p b = true → b.toNat < 0x80
  ascii' : ∀ c, q c → c.toNat < 0x80
  same : ∀ c : Char, c.toNat < 0x80 → (p (UInt8.ofNat c.toNat) = true ↔ q c)

section
variable {p : UInt8 → Bool} {q : Char → Prop} (same : SameClass p q) {r : List Char}
include same

lemma SameClass.stops (h : ∀ c ∈ s.head?, ¬q c) : ∀ b ∈ (encode s).head?, ¬p b = true := by
  intro b hb hp
  obtain ⟨c, hc, hlow, rfl⟩ := head?_of_ascii hb (same.ascii b hp)
  exact h c hc ((same.same c hlow).mp hp)

lemma SameClass.run (h : ∀ c ∈ s, q c) : ∀ b ∈ encode s, p b = true := by
  rw [encode_ascii fun c hc => same.ascii' c (h c hc)]
  intro b hb
  obtain ⟨c, hc, rfl⟩ := List.mem_map.mp hb
  exact (same.same c (same.ascii' c (h c hc))).mpr (h c hc)

lemma SameClass.dropWhile (h : ∀ c ∈ s, q c) (r : List Char) :
    (encode (s ++ r)).dropWhile p = (encode r).dropWhile p := by
  rw [encode_append]
  exact List.dropWhile_append_of_pos (same.run h)

/-- A run of bytes goes as far as that of the characters. -/
lemma SameClass.span (h : ∀ c ∈ s, q c) (stop : ∀ c ∈ r.head?, ¬q c) :
    (encode (s ++ r)).takeWhile p = encode s ∧ (encode (s ++ r)).dropWhile p = encode r := by
  have hstop := same.stops stop
  rw [same.dropWhile h, encode_append, List.takeWhile_append_of_pos (same.run h)]
  cases hr : encode r with
  | nil => exact ⟨List.append_nil _, rfl⟩
  | cons b bs =>
    have hb : ¬p b = true := hstop b (by rw [hr]; rfl)
    exact ⟨by rw [List.takeWhile_cons_of_neg hb, List.append_nil],
      List.dropWhile_cons_of_neg hb⟩

end

end Utf8

namespace Json
variable {α : Type}

lemma sameClass_blank : Utf8.SameClass isBlank IsBlank := by
  have hall : ∀ n < 0x80, isBlank (UInt8.ofNat n) = true ↔
      Char.ofNat n ∈ [' ', '\t', '\n', '\r'] := by decide
  refine ⟨fun b hb => ?_, fun c hc => ?_, fun c hc => ?_⟩
  · simp only [isBlank, Bool.or_eq_true, beq_iff_eq, or_assoc] at hb
    obtain rfl | rfl | rfl | rfl := hb <;> decide
  · simp only [IsBlank, List.mem_cons, List.not_mem_nil, or_false] at hc
    obtain rfl | rfl | rfl | rfl := hc <;> decide
  · rw [hall c.toNat hc, Char.ofNat_toNat, IsBlank]

lemma sameClass_digit : Utf8.SameClass isDigit (·.isDigit = true) := by
  have hall : ∀ n < 0x80, isDigit (UInt8.ofNat n) = (Char.ofNat n).isDigit := by decide
  refine ⟨fun b hb => ?_, fun c hc => ?_, fun c hc => ?_⟩
  · simp only [isDigit, Bool.and_eq_true, decide_eq_true_eq] at hb
    exact Nat.lt_of_le_of_lt (UInt8.le_iff_toNat_le.mp hb.2) (by decide)
  · simp only [Char.isDigit, Bool.and_eq_true, decide_eq_true_eq] at hc
    exact Nat.lt_of_le_of_lt (UInt32.le_iff_toNat_le.mp hc.2) (by decide)
  · rw [hall c.toNat hc, Char.ofNat_toNat]

/-- Whoever looks for a token does not see the blanks in front of it. -/
theorem peekToken_gap (f : Option UInt8 → Scanner α) (gap : Gap) (s : List Char) :
    (peekToken >>= f) (encode (gap.chars ++ s)) = (peekToken >>= f) (encode s) := by
  have hpeek : peekToken (encode (gap.chars ++ s)) = peekToken (encode s) := by
    change Except.ok _ = Except.ok _
    rw [sameClass_blank.dropWhile gap.blank]
  change (peekToken _ >>= fun p => f p.1 p.2) = (peekToken _ >>= fun p => f p.1 p.2)
  rw [hpeek]

theorem peekToken_cons (gap : Gap) {c : Char} (h : ¬IsBlank c) (s : List Char) :
    peekToken (encode (gap.chars ++ c :: s)) = .ok ((encode (c :: s)).head?, encode (c :: s)) := by
  have hhead : ∀ d ∈ (c :: s).head?, ¬IsBlank d := by
    rintro d ⟨⟩
    exact h
  have hstop := sameClass_blank.stops hhead
  change Except.ok _ = Except.ok _
  rw [sameClass_blank.dropWhile gap.blank]
  obtain ⟨b, bs, hb⟩ := List.exists_cons_of_ne_nil (Utf8.encode_cons_ne_nil c s)
  rw [hb, List.dropWhile_cons_of_neg (hstop b (by rw [hb]; rfl))]

theorem peekToken_end (gap : Gap) : peekToken (encode gap.chars) = .ok (none, []) := by
  have hdrop := sameClass_blank.dropWhile gap.blank []
  rw [List.append_nil] at hdrop
  change Except.ok _ = Except.ok _
  rw [hdrop]
  rfl

theorem digits_encode {ds r : List Char} (h : ∀ c ∈ ds, c.isDigit = true)
    (stop : ∀ c ∈ r.head?, ¬c.isDigit = true) :
    digits (encode (ds ++ r)) = .ok (encode ds, encode r) := by
  obtain ⟨htake, hdrop⟩ := sameClass_digit.span h stop
  rw [digits, htake, hdrop]

lemma nextIsDigit_encode {r : List Char} (stop : ∀ c ∈ r.head?, ¬c.isDigit = true) :
    nextIsDigit (encode r) = .ok (false, encode r) := by
  have hstop := sameClass_digit.stops stop
  unfold nextIsDigit
  cases hr : (encode r).head? with
  | none => rfl
  | some b =>
    have hb : isDigit b = false := Bool.eq_false_iff.mpr (hstop b hr)
    rw [Option.any_some, hb]

lemma next_cons (b : UInt8) (t : Bytes) : next (b :: t) = .ok (some b, t) := rfl

theorem colon_encode (gap : Gap) (r : List Char) :
    colon (encode (gap.chars ++ ':' :: r)) = .ok ((), encode r) := by
  rw [colon, peekToken_gap]
  rfl

end Json
end EvmListing
