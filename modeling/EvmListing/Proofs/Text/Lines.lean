import EvmListing.Proofs.Json.Unambiguity
import Mathlib.Data.List.Basic

/-! Texts made of parts that a separator ends. As long as it stands in none of the parts, the text
tells what the parts are. -/
namespace EvmListing.Text

/-- Whether a text goes on one line. -/
def OnOneLine (s : List Char) : Prop := '\n' ∉ s

instance : DecidablePred OnOneLine := fun s => inferInstanceAs (Decidable ('\n' ∉ s))

@[simp] theorem onOneLine_append {s t : List Char} :
    OnOneLine (s ++ t) ↔ OnOneLine s ∧ OnOneLine t := by
  simp [OnOneLine]

/-- What is joined goes on one line if its parts do. -/
theorem onOneLine_intercalate {sep : List Char} (hsep : OnOneLine sep) :
    ∀ {ss : List (List Char)}, (∀ s ∈ ss, OnOneLine s) → OnOneLine (sep.intercalate ss)
  | [], _ => List.not_mem_nil
  | [s], h => by simpa using h s List.mem_cons_self
  | s :: s' :: ss, h => by
    obtain ⟨hs, hrest⟩ := List.forall_mem_cons.mp h
    have ih := onOneLine_intercalate hsep hrest
    simp [hs, hsep, ih]

/-- The lines given, each with its end. -/
def lines (ls : List String) : String := String.join (ls.map (· ++ "\n"))

/-- What stands before the first separator is told by the text, and so is what comes after it. -/
theorem part_unique {sep : Char} {s t r r' : List Char} (hs : sep ∉ s) (ht : sep ∉ t)
    (h : s ++ sep :: r = t ++ sep :: r') : s = t ∧ r = r' := by
  have hstop (r : List Char) : ∀ c ∈ (sep :: r).head?, ¬c ≠ sep := by simp
  obtain ⟨hst, hrest⟩ := Json.run_unique (p := (· ≠ sep)) (fun c hc => ne_of_mem_of_not_mem hc hs)
    (fun c hc => ne_of_mem_of_not_mem hc ht) (hstop r) (hstop r') h
  exact ⟨hst, (List.cons.inj hrest).2⟩

theorem lines_singleton (l : String) : lines [l] = l ++ "\n" := by simp [lines]

@[simp] theorem toList_lines (ls : List String) :
    (lines ls).toList = ls.flatMap fun l => l.toList ++ ['\n'] := by
  simp [lines, List.flatMap_map]

theorem lines_append (ls ms : List String) : lines (ls ++ ms) = lines ls ++ lines ms := by
  rw [← String.toList_inj]
  simp

theorem lines_injective {ls ms : List String} (hl : ∀ l ∈ ls, OnOneLine l.toList)
    (hm : ∀ m ∈ ms, OnOneLine m.toList) (h : lines ls = lines ms) : ls = ms := by
  have hchars := congrArg String.toList h
  rw [toList_lines, toList_lines] at hchars
  clear h
  induction ls generalizing ms with
  | nil =>
    cases ms with
    | nil => rfl
    | cons m ms => simp at hchars
  | cons l ls ih =>
    cases ms with
    | nil => simp at hchars
    | cons m ms =>
      obtain ⟨hl, hls⟩ := List.forall_mem_cons.mp hl
      obtain ⟨hm, hms⟩ := List.forall_mem_cons.mp hm
      simp only [List.flatMap_cons, List.append_assoc, List.singleton_append] at hchars
      obtain ⟨hfirst, hrest⟩ := part_unique hl hm hchars
      rw [String.toList_inj.mp hfirst, ih hls hms hrest]

/-- The lines of a text, each up to its end. What comes after the last end is none. -/
def linesOf (s : String) : List String := (s.toList.splitOn '\n').dropLast.map String.ofList

/-- A text whose end is that of a line. -/
theorem linesOf_end (s : String) :
    linesOf (s ++ "\n") = (s.toList.splitOn '\n').map String.ofList := by
  have hchars : (s ++ "\n").toList = s.toList ++ '\n' :: [] := by simp
  rw [linesOf, hchars, List.splitOn_append_cons_self, List.splitOn_nil, List.dropLast_concat]

/-- Lines with an end each are lines with an end between them, and one more at the end. -/
lemma flatMap_end : ∀ {ls : List (List Char)}, ls ≠ [] →
    ls.flatMap (· ++ ['\n']) = ['\n'].intercalate ls ++ ['\n']
  | [], h => absurd rfl h
  | [l], _ => by simp
  | l :: l' :: ls, _ => by
    have ih := flatMap_end (List.cons_ne_nil l' ls)
    rw [List.flatMap_cons, ih]
    simp

/-- A text whose end is that of a line is its lines. -/
theorem lines_linesOf (s : String) : lines (linesOf (s ++ "\n")) = s ++ "\n" := by
  have hparts := flatMap_end (List.splitOn_ne_nil '\n' s.toList)
  rw [List.intercalate_splitOn] at hparts
  rw [← String.toList_inj, linesOf_end, toList_lines, List.flatMap_map]
  simpa using hparts

/-- Where a line ends, a text can be cut in two without changing its lines. -/
theorem linesOf_append (s t : String) :
    linesOf (s ++ "\n" ++ t) = linesOf (s ++ "\n") ++ linesOf t := by
  have hchars : (s ++ "\n" ++ t).toList = s.toList ++ '\n' :: t.toList := by simp
  rw [linesOf_end, linesOf, hchars, List.splitOn_append_cons_self,
    List.dropLast_append_of_ne_nil (List.splitOn_ne_nil _ _), List.map_append, linesOf]

theorem linesOf_cons {l : String} (h : OnOneLine l.toList) (t : String) :
    linesOf (l ++ "\n" ++ t) = l :: linesOf t := by
  rw [linesOf_append, linesOf_end, List.splitOn_eq_singleton h]
  simp

theorem linesOf_lines {ls : List String} (h : ∀ l ∈ ls, OnOneLine l.toList) :
    linesOf (lines ls) = ls := by
  induction ls with
  | nil => rfl
  | cons l ls ih =>
    obtain ⟨hl, hls⟩ := List.forall_mem_cons.mp h
    have hcons : lines (l :: ls) = l ++ "\n" ++ lines ls := by simp [lines]
    rw [hcons, linesOf_cons hl, ih hls]

end EvmListing.Text
