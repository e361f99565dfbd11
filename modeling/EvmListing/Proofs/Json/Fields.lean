import EvmListing.Proofs.Json.Rendering
import Mathlib.Data.List.Nodup

/-! Objects with fields that may be absent: each value is found under its name, and no name stands
there that has no value. -/
namespace EvmListing
namespace Json

/-- The members that have values. -/
def present (fields : List (String × Option Value)) : List (String × Value) :=
  fields.filterMap fun field => field.2.map (field.1, ·)

section
variable (fields : List (String × Option Value))

@[simp] lemma present_nil : present [] = [] := rfl

@[simp] lemma present_cons (key : String) (v : Option Value) :
    present ((key, v) :: fields) = v.toList.map (key, ·) ++ present fields := by
  cases v <;> rfl

lemma names_present : ((present fields).map Prod.fst).Sublist (fields.map Prod.fst) := by
  induction fields with
  | nil => exact .slnil
  | cons field fields ih =>
    obtain ⟨key, v⟩ := field
    cases v with
    | none => exact ih.cons key
    | some v => exact ih.cons_cons key

variable {fields}

/-- A field is found under its name, or missing if it has no value. -/
lemma get?_present (nodup : (fields.map Prod.fst).Nodup) {key : String} {v : Option Value}
    (h : (key, v) ∈ fields) : (Value.object (present fields)).get? key = v := by
  change (present fields).lookup key = v
  induction fields with
  | nil => cases h
  | cons field fields ih =>
    obtain ⟨k, u⟩ := field
    obtain ⟨hfresh, hnodup⟩ := List.nodup_cons.mp nodup
    cases h with
    | head =>
      cases v with
      | none =>
        refine List.lookup_eq_none_iff.mpr fun m hm => bne_iff_ne.mpr ?_
        rintro rfl
        exact hfresh ((names_present fields).subset (List.mem_map_of_mem hm))
      | some v => exact List.lookup_cons_self
    | tail _ h =>
      have hne : (key == k) = false := by
        rw [beq_eq_false_iff_ne]
        rintro rfl
        exact hfresh (List.mem_map.mpr ⟨_, h, rfl⟩)
      cases u with
      | none => exact ih hnodup h
      | some u =>
        rw [present_cons]
        change List.lookup key ((k, u) :: present fields) = v
        rw [List.lookup_cons, hne]
        exact ih hnodup h

lemma distinct_some {v : Value} (h : v.Distinct) : ∀ u ∈ some v, u.Distinct := by
  rintro u ⟨⟩
  exact h

lemma distinct_map {α : Type} {f : α → Value} {o : Option α} (h : ∀ x ∈ o, (f x).Distinct) :
    ∀ u ∈ o.map f, u.Distinct := by
  intro u hu
  obtain ⟨x, hx, rfl⟩ := Option.map_eq_some_iff.mp hu
  exact h x hx

/-- An object of fields with different names is distinct if their values are. -/
lemma distinct_present (nodup : (fields.map Prod.fst).Nodup)
    (h : ∀ field ∈ fields, ∀ v ∈ field.2, v.Distinct) : (Value.object (present fields)).Distinct := by
  refine .object (nodup.sublist (names_present fields)) fun m hm => ?_
  obtain ⟨field, hfield, hm⟩ := List.mem_filterMap.mp hm
  obtain ⟨v, hv, rfl⟩ := Option.map_eq_some_iff.mp hm
  exact h field hfield v hv

end

end Json

namespace Document

@[simp] lemma memberValues_nil : memberValues [] = [] := rfl

@[simp] lemma memberValues_cons (key : String) (d : Document) (ms : List (String × Document)) :
    memberValues ((key, d) :: ms) = (key, d.value) :: memberValues ms := rfl

@[simp] lemma memberValues_append (ms ns : List (String × Document)) :
    memberValues (ms ++ ns) = memberValues ms ++ memberValues ns := by
  simp only [memberValues_eq, List.map_append]

@[simp] lemma memberValues_optional {α : Type} (key : String) (f : α → Document) (o : Option α) :
    memberValues (optional key f o) = (o.map fun x => (f x).value).toList.map (key, ·) := by
  cases o <;> rfl

lemma nat?_number (n : Nat) : (value (.number n)).nat? = some n := by
  have hdigits : (!(Nat.toDigits 10 n).isEmpty && (Nat.toDigits 10 n).all Char.isDigit) = true := by
    rw [Bool.and_eq_true, Bool.not_eq_true', List.isEmpty_eq_false_iff, List.all_eq_true]
    exact ⟨Nat.toDigits_ne_nil, fun c hc => Nat.isDigit_of_mem_toDigits (by decide) (by decide) hc⟩
  rw [value, Json.Value.nat?, if_pos hdigits, Nat.ofDigitChars_toDigits (by decide) (by decide)]

/-- A field with a number shows the number under its name. -/
lemma nat?_present {fields : List (String × Option Json.Value)}
    (nodup : (fields.map Prod.fst).Nodup) {key : String} {n : Nat}
    (h : (key, some (number n).value) ∈ fields) :
    ((Json.Value.object (Json.present fields)).get? key).bind Json.Value.nat? = some n := by
  rw [Json.get?_present nodup h]
  exact nat?_number n

end Document
end EvmListing
