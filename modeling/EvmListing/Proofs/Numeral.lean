import EvmListing.Hex
import EvmListing.Proofs.Json.Grammar
import Mathlib.Data.List.Induction
import Mathlib.Tactic.Lemma

/-! Numbers written in digits, in decimal and in hex: no zeros in front, and the digits spell the
number. -/
namespace EvmListing
open Json (hexDigit? hexNumber)

/-- Only zero begins with a zero. -/
theorem toDigits_first {b n : Nat} (hb : 1 < b) (hb' : b ≤ 16) (hn : 0 < n) :
    ∃ d ds, Nat.toDigits b n = d :: ds ∧ d ≠ '0' := by
  have hdigit : ∀ d < 16, 0 < d → Nat.digitChar d ≠ '0' := by decide
  induction n using Nat.strongRecOn with
  | ind n ih =>
    by_cases hlt : n < b
    · rw [Nat.toDigits_of_lt_base hlt]
      exact ⟨_, _, rfl, hdigit n (Nat.lt_of_lt_of_le hlt hb') hn⟩
    · have hle : b ≤ n := Nat.le_of_not_lt hlt
      obtain ⟨d, ds, hds, hd⟩ := ih (n / b) (Nat.div_lt_self hn hb)
        (Nat.div_pos hle (Nat.lt_trans Nat.one_pos hb))
      rw [Nat.toDigits_of_base_le hb hle, hds]
      exact ⟨d, ds ++ [_], rfl, hd⟩

/-- Different numbers have different decimal digits. -/
theorem decimal_injective : Function.Injective (Nat.toDigits 10) := by
  intro m n h
  calc
    m = Nat.ofDigitChars 10 (Nat.toDigits 10 m) 0 := Nat.ofDigitChars_ten_toDigits.symm
    _ = Nat.ofDigitChars 10 (Nat.toDigits 10 n) 0 := by rw [h]
    _ = n := Nat.ofDigitChars_ten_toDigits

lemma not_mem_decimal {c : Char} (hc : c.isDigit = false) (n : Nat) : c ∉ Nat.toDigits 10 n := by
  intro hmem
  rw [Nat.isDigit_of_mem_toDigits (by decide) (by decide) hmem] at hc
  cases hc

namespace Hex

def IsLowerDigit (c : Char) : Prop := c.isDigit ∨ 'a' ≤ c ∧ c ≤ 'f'

instance : DecidablePred IsLowerDigit := fun _ => inferInstanceAs (Decidable (_ ∨ _))

/-- Whether characters are lower-case hex digits that spell a number. -/
structure Spells (n : Nat) (ds : List Char) : Prop where
  lower : ∀ d ∈ ds, IsLowerDigit d
  value : hexNumber ds = some n

lemma hexNumber_concat {n : Nat} {ds : List Char} (h : hexNumber ds = some n) (d : Char) :
    hexNumber (ds ++ [d]) = (hexDigit? d).map (16*n + ·) := by
  unfold hexNumber at h ⊢
  rw [List.foldlM_append, h]
  simp

lemma Spells.unique {m n : Nat} {ds : List Char} (h : Spells m ds) (h' : Spells n ds) : m = n :=
  Option.some.inj (h.value.symm.trans h'.value)

lemma Spells.not_mem {n : Nat} {ds : List Char} (h : Spells n ds) {c : Char}
    (hc : ¬IsLowerDigit c) : c ∉ ds := fun hmem => hc (h.lower c hmem)

lemma isLowerDigit_digitChar : ∀ d < 16, IsLowerDigit (Nat.digitChar d) := by decide

lemma hexDigit?_digitChar : ∀ d < 16, hexDigit? (Nat.digitChar d) = some d := by decide

/-- One more digit goes below the others. -/
lemma Spells.concat {n d : Nat} {ds : List Char} (h : Spells n ds) (hd : d < 16) :
    Spells (16*n + d) (ds ++ [Nat.digitChar d]) where
  lower c hc := by
    rcases List.mem_append.mp hc with hc | hc
    · exact h.lower c hc
    · exact List.mem_singleton.mp hc ▸ isLowerDigit_digitChar d hd
  value := by rw [hexNumber_concat h.value, hexDigit?_digitChar d hd, Option.map_some]

lemma spells_nil : Spells 0 [] where
  lower := by simp
  value := rfl

theorem spells_toDigits (n : Nat) : Spells n (Nat.toDigits 16 n) := by
  induction n using Nat.strongRecOn with
  | ind n ih =>
    by_cases hlt : n < 16
    · rw [Nat.toDigits_of_lt_base hlt]
      simpa using spells_nil.concat hlt
    · have hle : 16 ≤ n := Nat.le_of_not_lt hlt
      have hlow : n % 16 < 16 := Nat.mod_lt n (by decide)
      have hhigh := (ih (n / 16) (Nat.div_lt_self (by omega) (by decide))).concat hlow
      rwa [Nat.div_add_mod, ← Nat.toDigits_of_base_le (by decide) hle] at hhigh

theorem toDigits_injective : Function.Injective (Nat.toDigits 16) := by
  intro m n h
  exact (spells_toDigits m).unique (h ▸ spells_toDigits n)

theorem spells_digits (bs : Bytes) : Spells (bigEndian bs) (digits bs) := by
  induction bs using List.reverseRecOn with
  | nil => exact spells_nil
  | append_singleton bs b ih =>
    have hb := b.toNat_lt
    have hhigh : b.toNat / 16 < 16 := by omega
    have hlow : b.toNat % 16 < 16 := by omega
    have hvalue : 16 * (16 * bigEndian bs + b.toNat / 16) + b.toNat % 16 =
        256 * bigEndian bs + b.toNat := by omega
    have h := (ih.concat hhigh).concat hlow
    rw [hvalue, ← bigEndian_concat] at h
    simpa [digits_append, ofByte] using h

theorem digits_length (bs : Bytes) : (digits bs).length = 2 * bs.length := by
  induction bs with
  | nil => rfl
  | cons b bs ih =>
    rw [digits_cons, List.length_append, ih, List.length_cons, Nat.mul_succ]
    exact Nat.add_comm 2 _

/-- Whether digits have no zero in front, except that of zero itself. -/
def Minimal (ds : List Char) : Prop := ds = ['0'] ∨ ∃ d ∈ ds.head?, d ≠ '0'

theorem minimal_toDigits (n : Nat) : Minimal (Nat.toDigits 16 n) := by
  rcases Nat.eq_zero_or_pos n with rfl | hn
  · exact .inl rfl
  · obtain ⟨d, ds, hds, hd⟩ := toDigits_first (by decide : 1 < 16) (Nat.le_refl 16) hn
    exact .inr ⟨d, by rw [hds]; rfl, hd⟩

end Hex
end EvmListing
