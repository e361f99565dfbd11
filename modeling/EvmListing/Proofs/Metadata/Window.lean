import EvmListing.Proofs.Metadata.Partition
import Mathlib.Data.Nat.Find

/-! The window in which the marker is looked for. A wider one sees no less, and how wide it is decides
only whether a code is split, not how. -/
namespace EvmListing

namespace Scan
variable {code : Bytes} {n n' : Nat}

lemma Sees.wider (hle : n ≤ n') (h : (trailing n).Sees code) : (trailing n').Sees code := by
  obtain ⟨i, hin, hi⟩ := h
  exact ⟨i, by omega, hi⟩

/-- A window as wide as the code leaves nothing out. -/
lemma sees_whole_iff (hle : code.length ≤ n) :
    (trailing n).Sees code ↔ Scan.anywhere.Sees code := by
  refine ⟨Sees.anywhere, ?_⟩
  rintro ⟨i, hi⟩
  exact ⟨i, by omega, hi⟩

lemma finds_whole (hle : code.length ≤ n) : (trailing n).finds code = Scan.anywhere.finds code := by
  rw [Bool.eq_iff_iff, finds_iff, finds_iff]
  exact sees_whole_iff hle

lemma sees_trailing_iff : (trailing n).Sees code ↔
    ∃ i, code.length ≤ i + n ∧ i + 1 < code.length ∧ MarkedAt code i := by
  constructor
  · rintro ⟨i, hin, hi⟩
    exact ⟨i, hin, hi.lt_length, hi⟩
  · rintro ⟨i, hin, -, hi⟩
    exact ⟨i, hin, hi⟩

end Scan

/-- A marked code has a least window in which the marker is seen. -/
lemma exists_least_window {code : Bytes} (h : Scan.anywhere.Sees code) :
    ∃ k ≤ code.length, ∀ n, (Scan.trailing n).Sees code ↔ k ≤ n := by
  classical
  have hwhole : (Scan.trailing code.length).Sees code := (Scan.sees_whole_iff (Nat.le_refl _)).mpr h
  have hseen : ∃ n, (Scan.trailing n).Sees code := ⟨_, hwhole⟩
  refine ⟨Nat.find hseen, Nat.find_min' hseen hwhole, fun n => ⟨Nat.find_min' hseen, fun hle => ?_⟩⟩
  exact (Nat.find_spec hseen).wider hle

namespace Metadata
variable {code : Bytes}

/-- Scans that see the marker split alike. -/
lemma split_of_sees {scan : Scan} (h : scan.Sees code) : split scan code = split .anywhere code := by
  rw [split, split, if_pos ((Scan.finds_iff _ _).mpr h),
    if_pos ((Scan.finds_iff _ _).mpr h.anywhere)]

theorem split_eq_self_iff (scan : Scan) (code : Bytes) :
    split scan code = .ok (code, none) ↔ scan.finds code = false := by
  rw [← Bool.not_eq_true, Scan.finds_iff]
  exact ⟨fun h => (split_ok h).2, split_of_not_sees⟩

/-- A wider window sees no less. Where the marker is seen, the split is that of the whole code, and
where it is not, the code stays as it is. So there is one width from which on a code is split, always
in the same way. -/
theorem window_decides_whether (code : Bytes) :
    (∀ n, (Scan.trailing n).finds code = true ↔ ∃ i, code.length ≤ i + n ∧ i + 1 < code.length ∧
      code[i]? = some 0xA2 ∧ code[i + 1]? = some 0x64) ∧
    (∀ n n', n ≤ n' → (Scan.trailing n).finds code = true → (Scan.trailing n').finds code = true) ∧
    (∀ n, (Scan.trailing n).finds code = true → Scan.anywhere.finds code = true) ∧
    (∀ n, code.length ≤ n → (Scan.trailing n).finds code = Scan.anywhere.finds code) ∧
    (∀ n, (split (.trailing n) code = .ok (code, none) ∨
        split (.trailing n) code = split .anywhere code) ∧
      (split (.trailing n) code = .ok (code, none) ↔ (Scan.trailing n).finds code = false)) ∧
    ∃ k ≤ code.length, ∀ n,
      ((Scan.trailing n).finds code = true ↔ Scan.anywhere.finds code = true ∧ k ≤ n) ∧
      split (.trailing n) code = if k ≤ n then split .anywhere code else .ok (code, none) := by
  simp only [Scan.finds_iff]
  refine ⟨fun n => Scan.sees_trailing_iff, fun n n' => Scan.Sees.wider, fun n => Scan.Sees.anywhere,
    fun n => Scan.finds_whole, fun n => ⟨?_, split_eq_self_iff _ _⟩, ?_⟩
  · by_cases h : (Scan.trailing n).Sees code
    · exact .inr (split_of_sees h)
    · exact .inl (split_of_not_sees h)
  · by_cases hmarked : Scan.anywhere.Sees code
    · obtain ⟨k, hle, hk⟩ := exists_least_window hmarked
      refine ⟨k, hle, fun n => ⟨by simp only [hk, hmarked, true_and], ?_⟩⟩
      split_ifs with hn
      · exact split_of_sees ((hk n).mpr hn)
      · exact split_of_not_sees fun h => hn ((hk n).mp h)
    · -- Without a marker every window leaves the code as it is.
      have hunseen (n : Nat) : ¬(Scan.trailing n).Sees code := fun h => hmarked h.anywhere
      refine ⟨0, Nat.zero_le _, fun n => ⟨by simp only [hunseen, hmarked, false_and], ?_⟩⟩
      rw [if_pos (Nat.zero_le n), split_of_not_sees (hunseen n), split_of_not_sees hmarked]

/-- A window that begins at the second byte of the marker does not see it. -/
example : let code : Bytes := [0x61, 0xA2, 0x64, 0xA0, 0x00, 0x01]
    (Scan.trailing 4).finds code = false ∧ (Scan.trailing 5).finds code = true := by decide

end Metadata
end EvmListing
