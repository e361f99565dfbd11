import Mathlib.Tactic.Lemma

/-! Readers take something from the front of their input or fail. What two of them do in turn is
what the second one makes of the first. -/
namespace EvmListing

section
variable {σ ε α β : Type} {r : StateT σ (Except ε) α} {s t : σ}

/-- A reader goes on from where the one before it stopped. -/
lemma bind_of_ok {x : α} (h : r s = .ok (x, t)) (f : α → StateT σ (Except ε) β) :
    (r >>= f) s = f x t := by
  change (r s >>= fun p => f p.1 p.2) = _
  rw [h]
  rfl

lemma bind_of_error {fault : ε} (h : r s = .error fault) (f : α → StateT σ (Except ε) β) :
    (r >>= f) s = .error fault := by
  change (r s >>= fun p => f p.1 p.2) = _
  rw [h]
  rfl

lemma map_of_ok {x : α} (h : r s = .ok (x, t)) (f : α → β) : (f <$> r) s = .ok (f x, t) := by
  rw [map_eq_pure_bind, bind_of_ok h]
  rfl

/-- Where two readers succeed in turn, both of them do. -/
lemma bind_ok {f : α → StateT σ (Except ε) β} {y : β} (h : (r >>= f) s = .ok (y, t)) :
    ∃ x u, r s = .ok (x, u) ∧ f x u = .ok (y, t) := by
  change (r s >>= fun p => f p.1 p.2) = _ at h
  cases hr : r s with
  | error fault =>
    rw [hr] at h
    cases h
  | ok p =>
    rw [hr] at h
    exact ⟨p.1, p.2, rfl, h⟩

lemma map_ok {f : α → β} {y : β} (h : (f <$> r) s = .ok (y, t)) :
    ∃ x, r s = .ok (x, t) ∧ f x = y := by
  rw [map_eq_pure_bind] at h
  obtain ⟨x, u, hx, hy⟩ := bind_ok h
  cases hy
  exact ⟨x, hx, rfl⟩

end

end EvmListing
