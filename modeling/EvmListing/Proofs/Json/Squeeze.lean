import EvmListing.Proofs.Json.Rendering

/-! JSON texts without the blanks between their tokens. However a document is laid out, what is left
of its text is the text on one line. -/
namespace EvmListing.Json

/-- Where a character of a JSON text stands. -/
inductive Place where
  | between
  | inside
  /-- Inside a string, behind a backslash. -/
  | escaped
  deriving DecidableEq, Repr

/-- The place behind a character. -/
def Place.next : Place → Char → Place
  | between, c => if c = '"' then inside else between
  | inside, c => if c = '"' then between else if c = '\\' then escaped else inside
  | escaped, _ => inside

/-- The characters that are laid between tokens. -/
def IsFiller (c : Char) : Prop := c = ' ' ∨ c = '\n'

instance : DecidablePred IsFiller := fun _ => inferInstanceAs (Decidable (_ ∨ _))

/-- What is left without the spaces and line ends that stand outside strings. -/
def squeezeFrom : Place → List Char → List Char
  | _, [] => []
  | place, c :: s =>
    if place = .between ∧ IsFiller c then squeezeFrom place s
    else c :: squeezeFrom (place.next c) s

def squeeze (s : String) : String := String.ofList (squeezeFrom .between s.toList)

example : squeeze "[\"a \\\" b\" ,\n 1]" = "[\"a \\\" b\",1]" := by decide

/-- Whether a text that begins and ends outside strings leaves another one. -/
def Leaves (s t : List Char) : Prop :=
  ∀ r, squeezeFrom .between (s ++ r) = t ++ squeezeFrom .between r

lemma leaves_nil : Leaves [] [] := fun _ => rfl

lemma Leaves.append {s s' t t' : List Char} (h : Leaves s t) (h' : Leaves s' t') :
    Leaves (s ++ s') (t ++ t') := by
  intro r
  rw [List.append_assoc, h, h', List.append_assoc]

lemma Leaves.flatMap {α : Type} {f g : α → List Char} {xs : List α}
    (h : ∀ x ∈ xs, Leaves (f x) (g x)) : Leaves (xs.flatMap f) (xs.flatMap g) := by
  induction xs with
  | nil => exact leaves_nil
  | cons x xs ih =>
    obtain ⟨hx, hxs⟩ := List.forall_mem_cons.mp h
    exact hx.append (ih hxs)

lemma leaves_filler {s : List Char} (h : ∀ c ∈ s, IsFiller c) : Leaves s [] := by
  intro r
  induction s with
  | nil => rfl
  | cons c s ih =>
    obtain ⟨hc, hs⟩ := List.forall_mem_cons.mp h
    rw [List.cons_append, squeezeFrom, if_pos ⟨rfl, hc⟩, ih hs]

/-- Characters of tokens other than strings. -/
lemma leaves_plain {s : List Char} (h : ∀ c ∈ s, ¬IsFiller c ∧ c ≠ '"') : Leaves s s := by
  intro r
  induction s with
  | nil => rfl
  | cons c s ih =>
    obtain ⟨⟨hc, hquote⟩, hs⟩ := List.forall_mem_cons.mp h
    have hnext : Place.between.next c = .between := if_neg hquote
    rw [List.cons_append, squeezeFrom, if_neg fun hfiller => hc hfiller.2, hnext, ih hs]
    rfl

lemma squeezeFrom_inside {c : Char} (hquote : c ≠ '"') (hslash : c ≠ '\\') (r : List Char) :
    squeezeFrom .inside (c :: r) = c :: squeezeFrom .inside r := by
  have hnext : Place.inside.next c = .inside := by rw [Place.next, if_neg hquote, if_neg hslash]
  rw [squeezeFrom, if_neg fun hfiller => Place.noConfusion hfiller.1, hnext]

/-- Nothing is taken out of a string, and no escape ends it. -/
lemma squeezeFrom_escape (c : Char) (r : List Char) :
    squeezeFrom .inside (Document.escape c ++ r) =
      Document.escape c ++ squeezeFrom .inside r := by
  have hhex : ∀ d < 16, Nat.digitChar d ≠ '"' ∧ Nat.digitChar d ≠ '\\' := by decide
  unfold Document.escape
  split_ifs with hquote hslash _ _ _ _ _ hcontrol
  iterate 7 rfl
  · have hhigh := hhex (c.toNat / 16) (by omega)
    have hlow := hhex (c.toNat % 16) (by omega)
    have hpair := squeezeFrom_inside hhigh.1 hhigh.2 (Nat.digitChar (c.toNat % 16) :: r)
    rw [squeezeFrom_inside hlow.1 hlow.2] at hpair
    exact congrArg (['\\', 'u', '0', '0'] ++ ·) hpair
  · exact squeezeFrom_inside hquote hslash r

lemma leaves_quote (s : String) : Leaves (Document.quote s) (Document.quote s) := by
  have hbody (cs r : List Char) :
      squeezeFrom .inside (cs.flatMap Document.escape ++ '"' :: r) =
        cs.flatMap Document.escape ++ '"' :: squeezeFrom .between r := by
    induction cs with
    | nil => rfl
    | cons c cs ih =>
      rw [List.flatMap_cons, List.append_assoc, squeezeFrom_escape, ih, List.append_assoc]
  intro r
  simp only [Document.quote, List.cons_append, List.append_assoc, List.nil_append]
  exact congrArg ('"' :: ·) (hbody s.toList r)

end Json

namespace Document
open Json

variable {layout : Layout} (keeps : layout.Keeps IsFiller) (depth : Nat)
include keeps

lemma leaves_lineBreak : Leaves (layout.lineBreak depth) [] :=
  leaves_filler (keeps.lineBreak depth)

lemma leaves_enclose {left right : Char} {α : Type} {f g : α → List Char} {xs : List α}
    (hleft : ¬IsFiller left ∧ left ≠ '"') (hright : ¬IsFiller right ∧ right ≠ '"')
    (h : ∀ x ∈ xs, Leaves (f x) (g x)) :
    Leaves (enclose layout depth left right (xs.map f))
      (enclose onOneLine depth left right (xs.map g)) := by
  have hplain {c : Char} (hc : ¬IsFiller c ∧ c ≠ '"') : Leaves [c] [c] :=
    leaves_plain (by simpa using hc)
  have hbreak := leaves_lineBreak keeps
  cases xs with
  | nil => exact (hplain hleft).append (hplain hright)
  | cons x xs =>
    obtain ⟨hx, hxs⟩ := List.forall_mem_cons.mp h
    have hmore : Leaves (xs.flatMap fun x => [','] ++ (layout.lineBreak (depth + 1) ++ f x))
        (xs.flatMap fun x => [','] ++ ([] ++ g x)) :=
      .flatMap fun y hy => (hplain (by decide)).append ((hbreak _).append (hxs y hy))
    have hall := (hplain hleft).append ((hbreak (depth + 1)).append (hx.append
      (hmore.append ((hbreak depth).append (hplain hright)))))
    simpa [enclose, onOneLine, List.flatMap_map] using hall

lemma leaves_render (d : Document) :
    Leaves (render layout depth d) (render onOneLine depth d) := by
  induction d using Document.induction generalizing depth with
  | bool value =>
    cases value <;> exact leaves_plain (by simp [render, IsFiller])
  | number value =>
    refine leaves_plain fun c hc => ?_
    have hdigit := Nat.isDigit_of_mem_toDigits (by decide) (by decide) hc
    refine ⟨?_, ?_⟩
    · rintro (rfl | rfl) <;> cases hdigit
    · rintro rfl
      cases hdigit
  | text content => exact leaves_quote content
  | list items ih =>
    rw [render, render, renderItems_eq, renderItems_eq]
    exact leaves_enclose keeps depth (by decide) (by decide) fun d hd => ih d hd (depth + 1)
  | object members ih =>
    rw [render, render, renderMembers_eq, renderMembers_eq]
    refine leaves_enclose keeps depth (by decide) (by decide) fun m hm => ?_
    have hcolon : Leaves [':'] [':'] := leaves_plain (by simp [IsFiller])
    have hmember := (leaves_quote m.1).append (hcolon.append
      ((leaves_filler keeps.afterColon).append (ih m hm (depth + 1))))
    simpa [renderMember, onOneLine] using hmember

omit keeps

/-- Whichever way a document is laid out, only its layout is squeezed out. -/
theorem squeeze_pretty (d : Document) : squeeze (d.pretty ++ "\n") = d.compact := by
  have hkeeps : indented.Keeps IsFiller := {
    lineBreak := fun depth c hc => by
      simp only [indented, List.mem_cons, List.mem_replicate] at hc
      obtain rfl | ⟨-, rfl⟩ := hc <;> decide
    afterColon := by simp [indented, IsFiller] }
  have h := leaves_render hkeeps 0 d ['\n']
  have hend : squeezeFrom .between ['\n'] = [] := rfl
  rw [hend, List.append_nil] at h
  rw [squeeze, pretty, compact, String.toList_append, String.toList_ofList]
  exact congrArg String.ofList h

end Document
end EvmListing
