import EvmListing.Proofs.Json.Skipping
import EvmListing.Settings.Reader

/-! Readers of single JSON values: each takes the texts of its own values, with their blanks in
front, and no others. -/
namespace EvmListing
open Json
open Utf8 (encode)

namespace Json

section
variable {t r : List Char} (h : IsValue t) {gap : Gap}
include h

/-- What is seen in front of a value is its first character. -/
lemma IsValue.first_of_peek {b : UInt8} (ascii : b.toNat < 0x80) {u : Bytes}
    (hpeek : peekToken (encode (gap.chars ++ (t ++ r))) = .ok (some b, u)) :
    ∃ c s, c.toNat < 0x80 ∧ UInt8.ofNat c.toNat = b ∧ t = c :: s ∧ u = encode (t ++ r) := by
  obtain ⟨c, s, rfl, hblank, -⟩ := h.begins
  rw [List.cons_append, peekToken_cons gap hblank] at hpeek
  obtain ⟨hfirst, rfl⟩ := Prod.mk.inj (Except.ok.inj hpeek)
  obtain ⟨d, hd, hlow, hb⟩ := Utf8.head?_of_ascii hfirst ascii
  cases hd
  exact ⟨c, s, hlow, hb, rfl, rfl⟩

lemma IsValue.of_peek {c : Char} (ascii : c.toNat < 0x80) {u : Bytes}
    (hpeek : peekToken (encode (gap.chars ++ (t ++ r))) = .ok (some (UInt8.ofNat c.toNat), u)) :
    ∃ s, t = c :: s ∧ u = encode (t ++ r) := by
  obtain ⟨d, s, hlow, hb, rfl, hu⟩ := h.first_of_peek (by rwa [Utf8.toNat_byte ascii]) hpeek
  obtain rfl := Utf8.ascii_inj hlow ascii hb
  exact ⟨s, rfl, hu⟩

end

section
variable {s : List Char}

lemma IsNumber.not_first {c : Char} (h : IsNumber (c :: s)) (hdigit : c.isDigit = false)
    (hminus : c ≠ '-') : False := by
  obtain ⟨d, t, heq, hd⟩ := h.first
  cases heq
  obtain hd | rfl := hd
  · rw [hdigit] at hd
    cases hd
  · exact hminus rfl

lemma IsString.first {c : Char} (h : IsString (c :: s)) : c = '"' ∧ IsBody s := by
  obtain ⟨t, ht, heq⟩ := h
  cases heq
  exact ⟨rfl, ht⟩

lemma IsValue.eq_null (h : IsValue ('n' :: s)) : s = ['u', 'l', 'l'] := by
  cases h with
  | null => rfl
  | number form => exact (form.not_first rfl (by decide)).elim
  | string form => cases form.first.1

lemma IsValue.eq_true (h : IsValue ('t' :: s)) : s = ['r', 'u', 'e'] := by
  cases h with
  | yes => rfl
  | number form => exact (form.not_first rfl (by decide)).elim
  | string form => cases form.first.1

lemma IsValue.eq_false (h : IsValue ('f' :: s)) : s = ['a', 'l', 's', 'e'] := by
  cases h with
  | no => rfl
  | number form => exact (form.not_first rfl (by decide)).elim
  | string form => cases form.first.1

lemma IsValue.isBody (h : IsValue ('"' :: s)) : IsBody s := by
  cases h with
  | number form => exact (form.not_first rfl (by decide)).elim
  | string form => exact form.first.2

lemma IsValue.members (h : IsValue ('\x7b' :: s)) : ∃ inside parts,
    (∀ p ∈ parts, IsValue p.content.value) ∧ s = series Entry.text '\x7d' inside parts := by
  cases h with
  | number form => exact (form.not_first rfl (by decide)).elim
  | string form => cases form.first.1
  | object inside parts all => exact ⟨inside, parts, all, rfl⟩

lemma IsValue.isNumber {c : Char} (h : IsValue (c :: s)) (hdigit : c.isDigit = true) :
    IsNumber (c :: s) := by
  cases h with
  | number form => exact form
  | string form =>
    cases form.first.1
    cases hdigit
  | _ => cases hdigit

end

end Json

namespace Settings

section
variable {α β : Type} {r : Scanner α} {f : α → Scanner β} {s : Bytes} {p : β × Bytes}

/-- A reader gives nothing if what follows it gives nothing. -/
lemma bind_ne_ok (h : ∀ x t, f x t ≠ .ok p) : (r >>= f) s ≠ .ok p := by
  obtain ⟨y, u⟩ := p
  intro hread
  obtain ⟨x, t, -, hx⟩ := bind_ok hread
  exact h x t hx

lemma fail_ne_ok (problem : Problem) : (fail problem : Scanner β) s ≠ .ok p := nofun

lemma failAtNext_ne_ok (problem : Problem) : (failAtNext problem : Scanner β) s ≠ .ok p := nofun

/-- A value of a wrong kind is never taken for one of the right kind. -/
lemma wrongType_ne_ok (expected : String) : (wrongType expected : Scanner β) s ≠ .ok p := by
  refine bind_ne_ok fun first t => ?_
  split
  · exact bind_ne_ok fun _ _ => bind_ne_ok fun _ _ => fail_ne_ok _
  · exact bind_ne_ok fun _ _ => bind_ne_ok fun _ _ => fail_ne_ok _
  · exact bind_ne_ok fun _ _ => bind_ne_ok fun _ _ => fail_ne_ok _
  · exact bind_ne_ok fun _ _ => bind_ne_ok fun _ _ => fail_ne_ok _
  · exact bind_ne_ok fun _ _ => bind_ne_ok fun _ _ => fail_ne_ok _
  · exact fail_ne_ok _
  · exact fail_ne_ok _
  · split
    · exact bind_ne_ok fun _ _ => fail_ne_ok _
    · exact failAtNext_ne_ok _
  · exact failAtNext_ne_ok _

end

/-- Whether a reader takes the texts of the values that it means, and no other values. -/
def Takes {α : Type} (reader : Scanner α) (means : α → Value → Prop) : Prop :=
  ∀ {t r : List Char}, IsValue t → Stops r → ∀ (gap : Gap) (x : α) (u : Bytes),
    reader (encode (gap.chars ++ (t ++ r))) = .ok (x, u) ↔
      (∃ v, means x v ∧ Spells v t) ∧ u = encode r

theorem takes_bool : Takes bool fun b v => v = .bool b := by
  intro t r h stops gap b u
  constructor
  · intro hread
    obtain ⟨o, t', hpeek, hread⟩ := bind_ok hread
    split at hread
    · cases hread
    · obtain ⟨s, rfl, rfl⟩ := h.of_peek (c := 't') (by decide) hpeek
      obtain rfl := h.eq_true
      cases hread
      exact ⟨⟨_, rfl, .yes⟩, rfl⟩
    · obtain ⟨s, rfl, rfl⟩ := h.of_peek (c := 'f') (by decide) hpeek
      obtain rfl := h.eq_false
      cases hread
      exact ⟨⟨_, rfl, .no⟩, rfl⟩
    · exact absurd hread (wrongType_ne_ok _)
  · rintro ⟨⟨v, rfl, hv⟩, rfl⟩
    rw [bool, peekToken_gap]
    cases hv <;> rfl

theorem takes_unit : Takes unit fun _ v => v = .null := by
  intro t r h stops gap x u
  constructor
  · intro hread
    obtain ⟨o, t', hpeek, hread⟩ := bind_ok hread
    split at hread
    · cases hread
    · obtain ⟨s, rfl, rfl⟩ := h.of_peek (c := 'n') (by decide) hpeek
      obtain rfl := h.eq_null
      cases hread
      exact ⟨⟨_, rfl, .null⟩, rfl⟩
    · exact absurd hread (wrongType_ne_ok _)
  · rintro ⟨⟨v, rfl, hv⟩, rfl⟩
    rw [unit, peekToken_gap]
    cases hv
    rfl

/-- Only plain digits are read as a number of bytes: with a minus there is no number that fits. -/
theorem takes_size : Takes size fun n v => v.nat? = some n ∧ n < 2^64 := by
  intro t r h stops gap n u
  constructor
  · intro hread
    obtain ⟨o, t', hpeek, hread⟩ := bind_ok hread
    split at hread
    · cases hread
    · obtain ⟨_, _, -, hread⟩ := bind_ok hread
      obtain ⟨k, u', hk, hread⟩ := bind_ok hread
      cases k with
      | integer k =>
        simp only [number_negative hk, if_true] at hread
        cases hread
      | float x => cases hread
    · split at hread
      · next b _ hb =>
        obtain ⟨k, u', hk, hread⟩ := bind_ok hread
        obtain ⟨c, s, hlow, rfl, rfl, rfl⟩ := h.first_of_peek (sameClass_digit.ascii b hb) hpeek
        have hc := (sameClass_digit.same c hlow).mp hb
        have hminus : (c :: s).head? ≠ some '-' := by
          rintro ⟨⟩
          cases hc
        cases k with
        | integer k =>
          obtain ⟨m, hm, hnat, rfl, rfl⟩ := ((h.isNumber hc).read_iff stops hminus).mp hk
          simp only [Int.not_ofNat_neg, if_false] at hread
          cases hread
          exact ⟨⟨_, ⟨hnat, hm⟩, .number (h.isNumber hc)⟩, rfl⟩
        | float x => cases hread
      · exact absurd hread (wrongType_ne_ok _)
  · rintro ⟨⟨v, ⟨hn, hlt⟩, hv⟩, rfl⟩
    cases hv with
    | number form =>
      obtain ⟨hne, hall, -⟩ := nat?_eq_some_iff.mp hn
      obtain ⟨d, ds, rfl⟩ := List.exists_cons_of_ne_nil hne
      have hd : d.isDigit = true := hall d List.mem_cons_self
      have hblank : ¬IsBlank d := fun h => h.not_inNumber (.inl hd)
      have hminus' : (d :: ds).head? ≠ some '-' := by
        rintro ⟨⟩
        cases hd
      have hnumber := (form.read_iff stops hminus').mpr ⟨n, hlt, hn, rfl, rfl⟩
      obtain ⟨b, hb, -, hencode⟩ := encode_digit hd (ds ++ r)
      have hminus : b = ⟨45#8⟩ → False := ne_of_isDigit hb rfl
      rw [List.cons_append] at hnumber ⊢
      rw [hencode] at hnumber
      rw [size, bind_of_ok (peekToken_cons gap hblank _), hencode]
      simp only [List.head?_cons, hb, if_true]
      rw [bind_of_ok hnumber]
      simp only [Int.not_ofNat_neg, if_false]
      rfl
    | _ => cases hn

section
variable {α β : Type} {reader : Scanner α} {means : α → Value → Prop}

lemma Takes.map (h : Takes reader means) (f : α → β) :
    Takes (f <$> reader) fun y v => ∃ x, means x v ∧ f x = y := by
  intro t r ht stops gap y u
  constructor
  · intro hread
    obtain ⟨x, hx, rfl⟩ := map_ok hread
    obtain ⟨⟨v, hv, hspells⟩, rfl⟩ := (h ht stops gap x u).mp hx
    exact ⟨⟨v, ⟨x, hv, rfl⟩, hspells⟩, rfl⟩
  · rintro ⟨⟨v, ⟨x, hv, rfl⟩, hspells⟩, rfl⟩
    exact map_of_ok ((h ht stops gap x _).mpr ⟨⟨v, hv, hspells⟩, rfl⟩) f

end

end Settings
end EvmListing
