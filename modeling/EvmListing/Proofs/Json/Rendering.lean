import EvmListing.Document
import EvmListing.Proofs.Json.Unambiguity
import EvmListing.Proofs.Numeral

/-! The text of a document is JSON for the value that the document stands for, whichever way it is
laid out. -/
namespace EvmListing.Document
open Json (Gap Piece Spells)

mutual

/-- The value that a document stands for. -/
def value : Document → Json.Value
  | bool value => .bool value
  | number value => .number (Nat.toDigits 10 value)
  | text content => .string content
  | list items => .array (itemValues items)
  | object members => .object (memberValues members)

def itemValues : List Document → List Json.Value
  | [] => []
  | item :: items => value item :: itemValues items

def memberValues : List (String × Document) → List (String × Json.Value)
  | [] => []
  | (key, d) :: members => (key, value d) :: memberValues members

end

theorem itemValues_eq (items : List Document) : itemValues items = items.map value := by
  induction items with
  | nil => rfl
  | cons item items ih => rw [itemValues, ih, List.map_cons]

theorem memberValues_eq (members : List (String × Document)) :
    memberValues members = members.map fun m => (m.1, m.2.value) := by
  induction members with
  | nil => rfl
  | cons m members ih => rw [memberValues, ih, List.map_cons]

theorem renderItems_eq (layout : Layout) (depth : Nat) (items : List Document) :
    renderItems layout depth items = items.map (render layout depth) := by
  induction items with
  | nil => rfl
  | cons item items ih => rw [renderItems, ih, List.map_cons]

/-- The text of a member. -/
def renderMember (layout : Layout) (depth : Nat) (m : String × Document) : List Char :=
  quote m.1 ++ ':' :: layout.afterColon ++ render layout depth m.2

theorem renderMembers_eq (layout : Layout) (depth : Nat) (members : List (String × Document)) :
    renderMembers layout depth members = members.map (renderMember layout depth) := by
  induction members with
  | nil => rfl
  | cons m members ih => rw [renderMembers, ih, List.map_cons, renderMember]

/-- What holds of a document whenever it holds of its parts holds of all documents. -/
@[elab_as_elim]
theorem induction {motive : Document → Prop} (bool : ∀ value, motive (.bool value))
    (number : ∀ value, motive (.number value)) (text : ∀ content, motive (.text content))
    (list : ∀ items, (∀ d ∈ items, motive d) → motive (.list items))
    (object : ∀ members, (∀ m ∈ members, motive m.2) → motive (.object members)) :
    ∀ d, motive d
  | .bool value => bool value
  | .number value => number value
  | .text content => text content
  | .list items => list items fun d _ => induction bool number text list object d
  | .object members => object members fun m _ => induction bool number text list object m.2
termination_by d => sizeOf d
decreasing_by
  · have := List.sizeOf_lt_of_mem ‹d ∈ items›
    simp only [Document.list.sizeOf_spec]
    omega
  · have := List.sizeOf_lt_of_mem ‹m ∈ members›
    obtain ⟨key, d⟩ := m
    simp only [Document.object.sizeOf_spec, Prod.mk.sizeOf_spec] at this ⊢
    omega

theorem written_escape (c : Char) : Json.Written c (escape c) := by
  have hcode : ∀ n < 0x20,
      Json.hexNumber ['0', '0', Nat.digitChar (n / 16), Nat.digitChar (n % 16)] = some n := by
    decide
  unfold escape
  split_ifs with hquote hslash hb ht hn hf hr hcontrol
  · subst hquote
    exact .named rfl
  · subst hslash
    exact .named rfl
  · subst hb
    exact .named rfl
  · subst ht
    exact .named rfl
  · subst hn
    exact .named rfl
  · subst hf
    exact .named rfl
  · subst hr
    exact .named rfl
  · exact .numbered (.one rfl (hcode c.toNat hcontrol))
  · exact .plain (Nat.le_of_not_lt hcontrol) ⟨hquote, hslash⟩

theorem quoted_quote (s : String) : Json.Quoted s (quote s) := by
  have hbody (cs : List Char) : Json.Body cs (cs.flatMap escape ++ ['"']) := by
    induction cs with
    | nil => exact .done
    | cons c cs ih =>
      rw [List.flatMap_cons, List.append_assoc]
      exact .more (written_escape c) ih
  exact ⟨_, hbody s.toList, rfl⟩

theorem isNumber_toDigits (n : Nat) : Json.IsNumber (Nat.toDigits 10 n) := by
  have hdigits : ∀ c ∈ Nat.toDigits 10 n, c.isDigit := fun c hc =>
    Nat.isDigit_of_mem_toDigits (by decide) (by decide) hc
  have hwhole : Json.Whole (Nat.toDigits 10 n) := by
    rcases Nat.eq_zero_or_pos n with rfl | hn
    · exact .zero
    · obtain ⟨d, ds, hds, hd⟩ := toDigits_first (by decide : 1 < 10) (by decide) hn
      rw [hds] at hdigits ⊢
      exact .positive ⟨hdigits d List.mem_cons_self, hd⟩
        fun c hc => hdigits c (List.mem_cons_of_mem d hc)
  simpa using Json.IsNumber.parts (.inl rfl) hwhole .none .none

/-- Whether all that a layout puts between the tokens is of some kind. -/
structure Layout.Keeps (p : Char → Prop) (layout : Layout) : Prop where
  lineBreak : ∀ depth, ∀ c ∈ layout.lineBreak depth, p c
  afterColon : ∀ c ∈ layout.afterColon, p c

/-- Parts with the same gap before each and a gap after the last. -/
def spread {α : Type} (before last : Gap) : List α → List (Piece α)
  | [] => []
  | [x] => [⟨before, x, last⟩]
  | x :: y :: xs => ⟨before, x, .none⟩ :: spread before last (y :: xs)

theorem map_spread {α β : Type} (f : α → β) (before last : Gap) (xs : List α) :
    (spread before last xs).map (fun p => f p.content) = xs.map f := by
  fun_induction spread with
  | case1 => rfl
  | case2 => rfl
  | case3 x y xs ih =>
    rw [List.map_cons, ih]
    rfl

section
variable {α : Type} (text : α → List Char) (close : Char) (before last : Gap)

theorem series_spread (x : α) (xs : List α) :
    Json.series text close .none (spread before last (x :: xs)) =
      before.chars ++ (text x ++ (xs.flatMap (fun y => ',' :: (before.chars ++ text y)) ++
        (last.chars ++ [close]))) := by
  induction xs generalizing x with
  | nil => rfl
  | cons y ys ih =>
    obtain ⟨p, ps, hp⟩ : ∃ p ps, spread before last (y :: ys) = p :: ps := by
      cases ys <;> exact ⟨_, _, rfl⟩
    have hrest : Json.rest text close .none (p :: ps) =
        ',' :: Json.series text close .none (p :: ps) := rfl
    rw [spread, hp, Json.series, hrest, ← hp, ih, List.flatMap_cons]
    simp only [List.cons_append, List.append_assoc]

variable {layout : Layout} {depth : Nat} {before last : Gap}

/-- Brackets with their elements as a series of parts. -/
theorem enclose_eq (left : Char) (hbefore : before.chars = layout.lineBreak (depth + 1))
    (hlast : last.chars = layout.lineBreak depth) (xs : List α) :
    enclose layout depth left close (xs.map text) =
      left :: Json.series text close .none (spread before last xs) := by
  cases xs with
  | nil => rfl
  | cons x xs =>
    rw [series_spread, List.map_cons, enclose, List.flatMap_map, hbefore, hlast]
    simp only [List.cons_append, List.append_assoc]

end

lemma mem_of_mem_spread {α : Type} {before last : Gap} {xs : List α} {p : Piece α}
    (h : p ∈ spread before last xs) : p.content ∈ xs := by
  have hmem : p.content ∈ (spread before last xs).map fun p => id p.content :=
    List.mem_map.mpr ⟨p, h, rfl⟩
  rwa [map_spread, List.map_id] at hmem

section
variable {layout : Layout} (blank : layout.Keeps Json.IsBlank) (depth : Nat)

def Layout.Keeps.gap : Gap := ⟨layout.lineBreak depth, blank.lineBreak depth⟩

/-- An element of a list as it is laid out. -/
def item (layout : Layout) (depth : Nat) (d : Document) : Json.Item :=
  ⟨d.value, render layout depth d⟩

/-- A member of an object as it is laid out. -/
def member (m : String × Document) : Json.Member where
  name := m.1
  key := quote m.1
  quoted := quoted_quote m.1
  beforeColon := .none
  afterColon := ⟨layout.afterColon, blank.afterColon⟩
  item := item layout depth m.2

lemma text_member : Json.Member.text ∘ member blank depth = renderMember layout depth := by
  funext m
  simp [Json.Member.text, member, renderMember, item, Gap.none]

include blank

lemma spells_list {items : List Document}
    (h : ∀ d ∈ items, Spells d.value (render layout (depth + 1) d)) :
    Spells (value (list items)) (render layout depth (list items)) := by
  have hparts := Spells.array .none
    (spread (blank.gap (depth + 1)) (blank.gap depth) (items.map (item layout (depth + 1))))
    fun p hp => by
      obtain ⟨d, hd, hitem⟩ := List.mem_map.mp (mem_of_mem_spread hp)
      exact hitem ▸ h d hd
  rw [← enclose_eq Json.Item.text ']' '[' rfl rfl, List.map_map,
    map_spread Json.Item.value, List.map_map] at hparts
  rw [value, itemValues_eq, render, renderItems_eq]
  exact hparts

lemma spells_object {members : List (String × Document)}
    (h : ∀ m ∈ members, Spells m.2.value (render layout (depth + 1) m.2)) :
    Spells (value (object members)) (render layout depth (object members)) := by
  have hparts := Spells.object .none
    (spread (blank.gap (depth + 1)) (blank.gap depth) (members.map (member blank (depth + 1))))
    fun p hp => by
      obtain ⟨m, hm, hmember⟩ := List.mem_map.mp (mem_of_mem_spread hp)
      exact hmember ▸ h m hm
  rw [← enclose_eq Json.Member.text '\x7d' '\x7b' rfl rfl, List.map_map, text_member,
    map_spread Json.Member.entry, List.map_map] at hparts
  rw [value, memberValues_eq, render, renderMembers_eq]
  exact hparts

theorem spells_render (d : Document) : Spells d.value (render layout depth d) := by
  induction d using Document.induction generalizing depth with
  | bool value =>
    cases value with
    | true => exact .yes
    | false => exact .no
  | number value => exact .number (isNumber_toDigits value)
  | text content => exact .string (quoted_quote content)
  | list items ih => exact spells_list blank depth fun d hd => ih d hd (depth + 1)
  | object members ih => exact spells_object blank depth fun m hm => ih m hm (depth + 1)

end

/-- Whether a character is no control of the first block. -/
def Printable (c : Char) : Prop := 0x20 ≤ c.toNat

instance : DecidablePred Printable := fun c => inferInstanceAs (Decidable (0x20 ≤ c.toNat))

lemma printable_escape (c : Char) : ∀ x ∈ escape c, Printable x := by
  have hhex : ∀ d < 16, Printable (Nat.digitChar d) := by decide
  have hpair {k : Char} (hk : Printable k) : ∀ x ∈ ['\\', k], Printable x := by
    simpa [Printable] using hk
  unfold escape
  split_ifs with _ _ _ _ _ _ _ hcontrol
  iterate 7 exact hpair (by decide)
  · have hhigh := hhex (c.toNat / 16) (by omega)
    have hlow := hhex (c.toNat % 16) (by omega)
    simpa [Printable] using ⟨hhigh, hlow⟩
  · simpa [Printable] using hcontrol

lemma printable_quote (s : String) : ∀ x ∈ quote s, Printable x := by
  intro x hx
  simp only [quote, List.cons_append, List.mem_cons, List.mem_append, List.mem_flatMap,
    List.not_mem_nil, or_false] at hx
  obtain rfl | ⟨c, -, hx⟩ | rfl := hx
  · decide
  · exact printable_escape c x hx
  · decide

lemma printable_digits (n : Nat) : ∀ x ∈ Nat.toDigits 10 n, Printable x := by
  intro x hx
  have hdigit := Nat.isDigit_of_mem_toDigits (by decide) (by decide) hx
  simp only [Char.isDigit, Bool.and_eq_true, decide_eq_true_eq] at hdigit
  exact Nat.le_trans (by decide) hdigit.1

section
variable {layout : Layout} (keeps : layout.Keeps Printable) (depth : Nat)
include keeps

lemma printable_enclose {left right : Char} {parts : List (List Char)} (hleft : Printable left)
    (hright : Printable right) (h : ∀ part ∈ parts, ∀ x ∈ part, Printable x) :
    ∀ x ∈ enclose layout depth left right parts, Printable x := by
  have hcomma : Printable ',' := by decide
  intro x hx
  cases parts with
  | nil =>
    simp only [enclose, List.mem_cons, List.not_mem_nil, or_false] at hx
    obtain rfl | rfl := hx
    · exact hleft
    · exact hright
  | cons part parts =>
    simp only [enclose, List.cons_append, List.mem_cons, List.mem_append, List.mem_flatMap,
      List.not_mem_nil, or_false] at hx
    obtain rfl | (((hx | hx) | ⟨part', hpart, rfl | hx | hx⟩) | hx) | rfl := hx
    · exact hleft
    · exact keeps.lineBreak _ x hx
    · exact h part List.mem_cons_self x hx
    · exact hcomma
    · exact keeps.lineBreak _ x hx
    · exact h part' (List.mem_cons_of_mem part hpart) x hx
    · exact keeps.lineBreak _ x hx
    · exact hright

theorem printable_render (d : Document) : ∀ x ∈ render layout depth d, Printable x := by
  induction d using Document.induction generalizing depth with
  | bool value =>
    cases value <;> simp [render, Printable]
  | number value => exact printable_digits value
  | text content => exact printable_quote content
  | list items ih =>
    rw [render, renderItems_eq]
    refine printable_enclose keeps depth (by decide) (by decide) fun part hpart => ?_
    obtain ⟨d, hd, rfl⟩ := List.mem_map.mp hpart
    exact ih d hd (depth + 1)
  | object members ih =>
    rw [render, renderMembers_eq]
    refine printable_enclose keeps depth (by decide) (by decide) fun part hpart => ?_
    obtain ⟨m, hm, rfl⟩ := List.mem_map.mp hpart
    intro x hx
    simp only [renderMember, List.mem_append, List.mem_cons] at hx
    obtain (hx | rfl | hx) | hx := hx
    · exact printable_quote m.1 x hx
    · decide
    · exact keeps.afterColon x hx
    · exact ih m hm (depth + 1) x hx

end

lemma onOneLine_keeps (p : Char → Prop) : onOneLine.Keeps p where
  lineBreak _ := nofun
  afterColon := nofun

lemma indented_keeps : indented.Keeps Json.IsBlank where
  lineBreak depth c hc := by
    simp only [indented, List.mem_cons, List.mem_replicate] at hc
    obtain rfl | ⟨-, rfl⟩ := hc <;> simp [Json.IsBlank]
  afterColon := by simp [indented, Json.IsBlank]

/-- A text of a document stands for the value of the document and for no other. -/
theorem isText_render_iff {layout : Layout} (blank : layout.Keeps Json.IsBlank) (depth : Nat)
    (d : Document) (w : Json.Value) : Json.IsText w (render layout depth d) ↔ w = d.value := by
  have h : Json.IsText d.value (render layout depth d) :=
    ⟨.none, .none, _, spells_render blank depth d, (List.append_nil _).symm⟩
  exact ⟨fun hw => hw.unique h, fun hw => hw ▸ h⟩

theorem isText_compact_iff (d : Document) (w : Json.Value) :
    Json.IsText w d.compact.toList ↔ w = d.value := by
  rw [compact, String.toList_ofList]
  exact isText_render_iff (onOneLine_keeps _) 0 d w

lemma isText_compact (d : Document) : Json.IsText d.value d.compact.toList :=
  (isText_compact_iff d _).mpr rfl

theorem isText_pretty_iff (d : Document) (w : Json.Value) :
    Json.IsText w d.pretty.toList ↔ w = d.value := by
  rw [pretty, String.toList_ofList]
  exact isText_render_iff indented_keeps 0 d w

/-- The end of a line takes nothing away from a text and adds nothing to it. -/
theorem isText_prettyLine_iff (d : Document) (w : Json.Value) :
    Json.IsText w (d.pretty ++ "\n").toList ↔ w = d.value := by
  have h : Json.IsText d.value (d.pretty ++ "\n").toList := by
    rw [String.toList_append]
    exact ((isText_pretty_iff d d.value).mpr rfl).append_blank (by simp [Json.IsBlank])
  exact ⟨fun hw => hw.unique h, fun hw => hw ▸ h⟩

end EvmListing.Document
