import EvmListing.Proofs.Text.Utf8
import Mathlib.Tactic.SplitIfs

/-! The bytes of a text keep what its characters show: their order, and whether there are controls
among them. -/
namespace EvmListing.Utf8

section
variable {m n : Nat} {s t : Bytes}

lemma lt_of_first_lt (h : m < n) (hn : n < 256) : UInt8.ofNat m :: s < UInt8.ofNat n :: t := by
  have hlt : UInt8.ofNat m < UInt8.ofNat n := by
    rw [UInt8.lt_iff_toNat_lt, UInt8.toNat_ofNat', UInt8.toNat_ofNat']
    omega
  exact List.cons_lt_cons_iff.mpr (.inl hlt)

lemma lt_of_first_eq (h : m = n) (hlt : s < t) : UInt8.ofNat m :: s < UInt8.ofNat n :: t :=
  List.cons_lt_cons_iff.mpr (.inr ⟨congrArg UInt8.ofNat h, hlt⟩)

lemma two_lt (h : m < n) (hn : n ≤ 0x7FF) :
    UInt8.ofNat (m / 64 % 32 + 192) :: UInt8.ofNat (m % 64 + 128) :: s <
      UInt8.ofNat (n / 64 % 32 + 192) :: UInt8.ofNat (n % 64 + 128) :: t := by
  have hfirst : m / 64 < n / 64 ∨ m / 64 = n / 64 ∧ m % 64 < n % 64 := by omega
  obtain hlt | ⟨heq, hlt⟩ := hfirst
  · exact lt_of_first_lt (by omega) (by omega)
  · exact lt_of_first_eq (by omega) (lt_of_first_lt (by omega) (by omega))

lemma three_lt (h : m < n) (hn : n ≤ 0xFFFF) :
    UInt8.ofNat (m / 4096 % 16 + 224) :: UInt8.ofNat (m / 64 % 64 + 128) ::
        UInt8.ofNat (m % 64 + 128) :: s <
      UInt8.ofNat (n / 4096 % 16 + 224) :: UInt8.ofNat (n / 64 % 64 + 128) ::
        UInt8.ofNat (n % 64 + 128) :: t := by
  have hfirst : m / 4096 < n / 4096 ∨ m / 4096 = n / 4096 ∧
      (m / 64 % 64 < n / 64 % 64 ∨ m / 64 % 64 = n / 64 % 64 ∧ m % 64 < n % 64) := by omega
  obtain hlt | ⟨heq, hlt | ⟨heq', hlt⟩⟩ := hfirst
  · exact lt_of_first_lt (by omega) (by omega)
  · exact lt_of_first_eq (by omega) (lt_of_first_lt (by omega) (by omega))
  · exact lt_of_first_eq (by omega) (lt_of_first_eq (by omega) (lt_of_first_lt (by omega)
      (by omega)))

lemma four_lt (h : m < n) (hn : n < 0x110000) :
    UInt8.ofNat (m / 262144 % 8 + 240) :: UInt8.ofNat (m / 4096 % 64 + 128) ::
        UInt8.ofNat (m / 64 % 64 + 128) :: UInt8.ofNat (m % 64 + 128) :: s <
      UInt8.ofNat (n / 262144 % 8 + 240) :: UInt8.ofNat (n / 4096 % 64 + 128) ::
        UInt8.ofNat (n / 64 % 64 + 128) :: UInt8.ofNat (n % 64 + 128) :: t := by
  have hfirst : m / 262144 < n / 262144 ∨ m / 262144 = n / 262144 ∧
      (m / 4096 % 64 < n / 4096 % 64 ∨ m / 4096 % 64 = n / 4096 % 64 ∧
        (m / 64 % 64 < n / 64 % 64 ∨ m / 64 % 64 = n / 64 % 64 ∧ m % 64 < n % 64)) := by omega
  obtain hlt | ⟨heq, hlt | ⟨heq', hlt | ⟨heq'', hlt⟩⟩⟩ := hfirst
  · exact lt_of_first_lt (by omega) (by omega)
  · exact lt_of_first_eq (by omega) (lt_of_first_lt (by omega) (by omega))
  · exact lt_of_first_eq (by omega) (lt_of_first_eq (by omega) (lt_of_first_lt (by omega)
      (by omega)))
  · exact lt_of_first_eq (by omega) (lt_of_first_eq (by omega) (lt_of_first_eq (by omega)
      (lt_of_first_lt (by omega) (by omega))))

end

/-- The bytes of a character decide whatever follows them. -/
theorem encodeChar_lt {c d : Char} (h : c.toNat < d.toNat) (s t : Bytes) :
    String.utf8EncodeChar c ++ s < String.utf8EncodeChar d ++ t := by
  have hd := toNat_lt d
  have hc : c.val.toNat = c.toNat := rfl
  have hd' : d.val.toNat = d.toNat := rfl
  simp only [String.utf8EncodeChar, hc, hd']
  generalize c.toNat = m at h ⊢
  generalize d.toNat = n at h hd ⊢
  -- Spellings of one length are compared digit by digit, and a longer one has a greater first byte.
  split_ifs
  · exact lt_of_first_lt h (by omega)
  iterate 3 exact lt_of_first_lt (by omega) (by omega)
  · omega
  · exact two_lt h (by omega)
  iterate 2 exact lt_of_first_lt (by omega) (by omega)
  iterate 2 omega
  · exact three_lt h (by omega)
  · exact lt_of_first_lt (by omega) (by omega)
  iterate 3 omega
  · exact four_lt h hd

lemma encode_cons_ne_nil (c : Char) (s : List Char) : encode (c :: s) ≠ [] :=
  List.append_ne_nil_of_left_ne_nil (encodeChar_ne_nil c) _

/-- The order of texts by code points is that of their bytes. -/
theorem encode_lt {s t : List Char} (h : s < t) : encode s < encode t := by
  induction s generalizing t with
  | nil =>
    cases t with
    | nil => exact absurd h (List.lt_irrefl _)
    | cons d t =>
      obtain ⟨b, bs, hb⟩ := List.exists_cons_of_ne_nil (encode_cons_ne_nil d t)
      rw [hb]
      exact List.nil_lt_cons b bs
  | cons c s ih =>
    cases t with
    | nil => exact absurd h (List.not_lt_nil _)
    | cons d t =>
      rw [encode_cons, encode_cons]
      obtain hlt | ⟨rfl, hlt⟩ := List.cons_lt_cons_iff.mp h
      · exact encodeChar_lt hlt _ _
      · exact List.append_left_lt (ih hlt)

lemma le_ofNat {n : Nat} (h : 0x20 ≤ n) (h' : n < 256) : 0x20 ≤ UInt8.ofNat n := by
  rw [UInt8.le_iff_toNat_le, UInt8.toNat_ofNat', Nat.mod_eq_of_lt h']
  exact h

/-- Only controls are spelled with bytes of controls. -/
theorem printable_encode {s : List Char} (h : ∀ c ∈ s, 0x20 ≤ c.toNat) :
    ∀ b ∈ encode s, 0x20 ≤ b := by
  intro b hb
  obtain ⟨c, hc, hb⟩ := List.mem_flatMap.mp hb
  have hprintable := h c hc
  have hv : c.val.toNat = c.toNat := rfl
  simp only [String.utf8EncodeChar, hv] at hb
  split_ifs at hb <;> simp only [List.mem_cons, List.not_mem_nil, or_false] at hb
  · rw [hb]
    exact le_ofNat hprintable (by omega)
  · obtain rfl | rfl := hb <;> exact le_ofNat (by omega) (by omega)
  · obtain rfl | rfl | rfl := hb <;> exact le_ofNat (by omega) (by omega)
  · obtain rfl | rfl | rfl | rfl := hb <;> exact le_ofNat (by omega) (by omega)

end EvmListing.Utf8
