import EvmListing.Proofs.Text.Lines

/-! Comments: lines that begin with a semicolon. A text put into a comment can leave it where it ends
a line. -/
namespace EvmListing.Text

def IsComment (line : String) : Prop := line.toList.head? = some ';'

instance : DecidablePred IsComment := fun _ => inferInstanceAs (Decidable (_ = _))

/-- Whether a text put into a comment leaves only comments: wherever it ends a line, another comment
begins. -/
def StaysComment : List Char → Prop
  | [] => True
  | c :: s => (c = '\n' → s.head? = some ';') ∧ StaysComment s

instance decidableStaysComment : DecidablePred StaysComment
  | [] => inferInstanceAs (Decidable True)
  | _ :: s => have := decidableStaysComment s; inferInstanceAs (Decidable (_ ∧ _))

/-- The first part of a text begins as the text does, unless this begins with the end of a line. -/
lemma head?_splitOn {s l : List Char} {ls : List (List Char)} (h : s.splitOn '\n' = l :: ls) :
    l.head? = some ';' ↔ s.head? = some ';' := by
  cases s with
  | nil =>
    cases h
    exact Iff.rfl
  | cons c s =>
    obtain ⟨l', ls', hl'⟩ := List.exists_cons_of_ne_nil (List.splitOn_ne_nil '\n' s)
    rw [List.splitOn_cons_eq_if_modifyHead, hl'] at h
    by_cases hc : c = '\n'
    · rw [if_pos (beq_iff_eq.mpr hc)] at h
      cases h
      simp [hc]
    · rw [if_neg (by simpa using hc)] at h
      cases h
      rfl

lemma staysComment_iff (s : List Char) :
    StaysComment s ↔ ∀ line ∈ (s.splitOn '\n').tail, line.head? = some ';' := by
  induction s with
  | nil => simp [StaysComment]
  | cons c s ih =>
    obtain ⟨l, ls, hl⟩ := List.exists_cons_of_ne_nil (List.splitOn_ne_nil '\n' s)
    rw [StaysComment, ih, List.splitOn_cons_eq_if_modifyHead, hl]
    by_cases hc : c = '\n'
    · simp [hc, head?_splitOn hl]
    · simp [hc]

/-- A text is made of comments if and only if it begins as one and stays one. -/
theorem isComment_linesOf_iff (s : String) :
    (∀ line ∈ linesOf (s ++ "\n"), IsComment line) ↔
      s.toList.head? = some ';' ∧ StaysComment s.toList := by
  obtain ⟨l, ls, hl⟩ := List.exists_cons_of_ne_nil (List.splitOn_ne_nil '\n' s.toList)
  rw [linesOf_end, staysComment_iff, hl, ← head?_splitOn hl]
  simp [IsComment]

lemma staysComment_of_onOneLine {s : List Char} (h : OnOneLine s) : StaysComment s := by
  rw [staysComment_iff, List.splitOn_eq_singleton h]
  exact nofun

lemma staysComment_append_left {before : List Char} (h : OnOneLine before) (s : List Char) :
    StaysComment (before ++ s) ↔ StaysComment s := by
  induction before with
  | nil => rfl
  | cons c before ih =>
    have hc : c ≠ '\n' := ne_of_mem_of_not_mem List.mem_cons_self h
    have hbefore : OnOneLine before := fun hmem => h (List.mem_cons_of_mem c hmem)
    rw [List.cons_append, StaysComment, ih hbefore]
    simp [hc]

lemma staysComment_append_right {after : List Char} (h : OnOneLine after)
    (hfirst : after.head? ≠ some ';') (s : List Char) :
    StaysComment (s ++ after) ↔ StaysComment s := by
  induction s with
  | nil => simp [StaysComment, staysComment_of_onOneLine h]
  | cons c s ih =>
    rw [List.cons_append, StaysComment, StaysComment, ih]
    cases s with
    | nil => simp [hfirst]
    | cons c' s => rfl

end EvmListing.Text
