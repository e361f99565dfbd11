import EvmListing.Size
import Mathlib.Tactic.Lemma

/-! The texts that are read as a number of bytes, said without the reader. -/
namespace EvmListing.Size

/-- Whether a text is a number below 2^64: decimal digits, at least one, with or without a plus in
front. -/
structure Written (s : String) (n : Nat) : Prop where
  digits : ∃ ds, (s.toList = ds ∨ s.toList = '+' :: ds) ∧ ds ≠ [] ∧ (∀ d ∈ ds, d.isDigit) ∧
    Nat.ofDigitChars 10 ds 0 = n
  lt : n < 2^64

/-- Digits put behind a number make it no smaller. -/
lemma le_ofDigitChars (ds : List Char) (n : Nat) : n ≤ Nat.ofDigitChars 10 ds n := by
  induction ds generalizing n with
  | nil => exact Nat.le_refl n
  | cons d ds ih =>
    rw [Nat.ofDigitChars_cons]
    exact Nat.le_trans (by omega) (ih _)

/-- The reader never gives up too early: a number too large at one digit is so at the last. -/
lemma ofDigits_eq_ok_iff {n m : Nat} (hn : n < 2^64) (ds : List Char) : ofDigits n ds = .ok m ↔
    (∀ d ∈ ds, d.isDigit) ∧ Nat.ofDigitChars 10 ds n = m ∧ m < 2^64 := by
  induction ds generalizing n with
  | nil =>
    simp only [ofDigits, Except.ok.injEq, Nat.ofDigitChars_nil, List.not_mem_nil, false_implies,
      implies_true, true_and]
    exact ⟨fun h => ⟨h, h ▸ hn⟩, And.left⟩
  | cons d ds ih =>
    rw [ofDigits, Nat.ofDigitChars_cons, List.forall_mem_cons]
    cases hd : d.isDigit with
    | false => simp
    | true =>
      simp only [Bool.not_true, Bool.false_eq_true, if_false, true_and]
      split
      · next hlt => exact ih hlt
      · next hge =>
        have hle := le_ofDigitChars ds (10 * n + (d.toNat - '0'.toNat))
        constructor
        · exact nofun
        · rintro ⟨-, rfl, hlt⟩
          exact absurd (Nat.lt_of_le_of_lt hle hlt) hge

/-- A plus is no digit, so a text has one run of digits at most. -/
lemma written_iff {s : String} {ds : List Char} {n : Nat}
    (h : s.toList = '+' :: ds ∨ s.toList = ds ∧ ds.head? ≠ some '+') :
    Written s n ↔ ds ≠ [] ∧ ofDigits 0 ds = .ok n := by
  have hsame (es : List Char) (hes : ∀ d ∈ es, d.isDigit)
      (hs : s.toList = es ∨ s.toList = '+' :: es) : es = ds := by
    have hplus (es' : List Char) : es ≠ '+' :: es' := by
      rintro rfl
      cases hes '+' List.mem_cons_self
    obtain h | ⟨h, hhead⟩ := h <;> obtain hs | hs := hs <;> rw [h] at hs
    · exact absurd hs.symm (hplus ds)
    · exact (List.cons.inj hs).2.symm
    · exact hs.symm
    · exact absurd (hs ▸ rfl) hhead
  rw [ofDigits_eq_ok_iff (by decide)]
  constructor
  · rintro ⟨⟨es, hs, hne, hes, hvalue⟩, hlt⟩
    have := hsame es hes hs
    subst this
    exact ⟨hne, hes, hvalue, hlt⟩
  · rintro ⟨hne, hds, hvalue, hlt⟩
    exact ⟨⟨ds, (h.imp_right And.left).symm, hne, hds, hvalue⟩, hlt⟩

theorem ofText_eq_ok_iff {s : String} {n : Nat} : ofText s = .ok n ↔ Written s n := by
  unfold ofText
  split
  · next hs => simp [written_iff (.inr ⟨hs, by simp⟩)]
  · next hs => simp [written_iff (.inl hs)]
  · next cs hne hs =>
    rw [written_iff (.inl hs)]
    exact (and_iff_right hne).symm
  · next hnil hone hplus =>
    have hhead : s.toList.head? ≠ some '+' := by
      intro h
      obtain ⟨cs, hs⟩ := List.head?_eq_some_iff.mp h
      exact hplus cs hs
    rw [written_iff (.inr ⟨rfl, hhead⟩)]
    exact (and_iff_right hnil).symm

lemma Written.unique {s : String} {m n : Nat} (hm : Written s m) (hn : Written s n) : m = n := by
  rw [← ofText_eq_ok_iff] at hm hn
  exact Except.ok.inj (hm.symm.trans hn)

end EvmListing.Size
