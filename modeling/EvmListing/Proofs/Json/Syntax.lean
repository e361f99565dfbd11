import EvmListing.Proofs.Json.Unambiguity
import Mathlib.Data.List.Forall2

/-! The texts of JSON values by the grammar alone. An escape may hold half of a surrogate pair
without the other half, so some of these texts stand for no value; but it is told where they end. -/
namespace EvmListing.Json

/-- The characters of a string up to its closing mark. -/
inductive IsBody : List Char → Prop
  | done : IsBody ['"']
  | plain {c : Char} {t : List Char} (printable : 0x20 ≤ c.toNat) (free : c ≠ '"' ∧ c ≠ '\\')
      (rest : IsBody t) : IsBody (c :: t)
  | named {name : Char} {t : List Char} (known : (namedEscape? name).isSome) (rest : IsBody t) :
      IsBody ('\\' :: name :: t)
  | numbered {ds t : List Char} (four : ds.length = 4) (digits : (hexNumber ds).isSome)
      (rest : IsBody t) : IsBody ('\\' :: 'u' :: (ds ++ t))

def IsString (s : List Char) : Prop := ∃ t, IsBody t ∧ s = '"' :: t

/-- A member of an object by the texts of its key and its value. -/
structure Entry where
  key : List Char
  literal : IsString key
  beforeColon : Gap
  afterColon : Gap
  value : List Char

def Entry.text (e : Entry) : List Char :=
  e.key ++ (e.beforeColon.chars ++ ':' :: (e.afterColon.chars ++ e.value))

/-- The texts of values, without blanks around them. -/
inductive IsValue : List Char → Prop
  | null : IsValue ['n', 'u', 'l', 'l']
  | yes : IsValue ['t', 'r', 'u', 'e']
  | no : IsValue ['f', 'a', 'l', 's', 'e']
  | number {s : List Char} (form : IsNumber s) : IsValue s
  | string {s : List Char} (form : IsString s) : IsValue s
  | array (inside : Gap) (parts : List (Piece (List Char))) (all : ∀ p ∈ parts, IsValue p.content) :
      IsValue ('[' :: series id ']' inside parts)
  | object (inside : Gap) (parts : List (Piece Entry))
      (all : ∀ p ∈ parts, IsValue p.content.value) :
      IsValue ('\x7b' :: series Entry.text '\x7d' inside parts)

lemma IsValue.begins {s : List Char} (h : IsValue s) : Begins s := by
  have hdigit {c : Char} (hc : c.isDigit ∨ c = '-') : ¬IsBlank c ∧ c ≠ ']' ∧ c ≠ '\x7d' := by
    refine ⟨fun hblank => hblank.not_inNumber ?_, ?_, ?_⟩
    · exact hc.imp id fun hminus => by simp [hminus]
    · rintro rfl
      exact absurd hc (by decide)
    · rintro rfl
      exact absurd hc (by decide)
  cases h with
  | number form =>
    obtain ⟨c, t, rfl, hc⟩ := form.first
    exact ⟨c, t, rfl, hdigit hc⟩
  | string form =>
    obtain ⟨t, -, rfl⟩ := form
    exact ⟨_, _, rfl, by simp [IsBlank], by decide, by decide⟩
  | _ => exact ⟨_, _, rfl, by simp [IsBlank], by decide, by decide⟩

lemma Entry.begins (e : Entry) : Begins e.text := by
  obtain ⟨t, -, ht⟩ := e.literal
  exact ⟨'"', _, by rw [text, ht, List.cons_append], by simp [IsBlank], by decide, by decide⟩

/-- The text of an object, with blanks around it. -/
structure ObjectText where
  before : Gap
  inside : Gap
  after : Gap
  parts : List (Piece Entry)
  values : ∀ p ∈ parts, IsValue p.content.value

def ObjectText.entries (t : ObjectText) : List Entry := t.parts.map (·.content)

def ObjectText.text (t : ObjectText) : String :=
  String.ofList (t.before.chars ++
    ('\x7b' :: series Entry.text '\x7d' t.inside t.parts ++ t.after.chars))

/-! ### Texts that stand for values -/

lemma Written.isBody {c : Char} {s t : List Char} (h : Written c s) (rest : IsBody t) :
    IsBody (s ++ t) := by
  cases h with
  | plain printable free => exact .plain printable free rest
  | named known => exact .named (Option.isSome_of_eq_some known) rest
  | numbered number =>
    cases number with
    | one four value => exact .numbered four (Option.isSome_of_eq_some value) rest
    | two four four' first second =>
      have hlow := rest.numbered four' (Option.isSome_of_eq_some second)
      have hhigh := hlow.numbered four (Option.isSome_of_eq_some first)
      simpa using hhigh

lemma Body.isBody {cs t : List Char} (h : Body cs t) : IsBody t := by
  induction h with
  | done => exact .done
  | more first _ ih => exact first.isBody ih

lemma Quoted.isString {name : String} {s : List Char} (h : Quoted name s) : IsString s := by
  obtain ⟨t, ht, rfl⟩ := h
  exact ⟨t, ht.isBody, rfl⟩

def Member.toEntry (m : Member) : Entry where
  key := m.key
  literal := m.quoted.isString
  beforeColon := m.beforeColon
  afterColon := m.afterColon
  value := m.item.text

def Piece.map {α β : Type} (f : α → β) (p : Piece α) : Piece β := ⟨p.before, f p.content, p.after⟩

section
variable {α β : Type} (f : α → β) (text : β → List Char) (close : Char)

lemma rest_map (gap : Gap) (ps : List (Piece α)) :
    rest text close gap (ps.map (Piece.map f)) = rest (text ∘ f) close gap ps := by
  induction ps generalizing gap with
  | nil => rfl
  | cons p ps ih =>
    rw [List.map_cons, rest, ih]
    rfl

lemma series_map (inside : Gap) (ps : List (Piece α)) :
    series text close inside (ps.map (Piece.map f)) = series (text ∘ f) close inside ps := by
  cases ps with
  | nil => rfl
  | cons p ps =>
    rw [List.map_cons, series, rest_map]
    rfl

end

/-- Each text of a value is one by the grammar. -/
theorem Spells.isValue {v : Value} {s : List Char} (h : Spells v s) : IsValue s := by
  induction h with
  | null => exact .null
  | yes => exact .yes
  | no => exact .no
  | number form => exact .number form
  | string form => exact .string form.isString
  | array inside parts _ ih =>
    have harray := IsValue.array inside (parts.map (Piece.map Item.text)) fun p hp => by
      obtain ⟨q, hq, rfl⟩ := List.mem_map.mp hp
      exact ih q hq
    rwa [series_map] at harray
  | object inside parts _ ih =>
    have hobject := IsValue.object inside (parts.map (Piece.map Member.toEntry)) fun p hp => by
      obtain ⟨q, hq, rfl⟩ := List.mem_map.mp hp
      exact ih q hq
    rwa [series_map] at hobject

/-- Whether a member is written for a name and a value. -/
def Entry.Writes (e : Entry) (m : String × Value) : Prop := Quoted m.1 e.key ∧ Spells m.2 e.value

/-- A text that stands for an object is that of its members, in their order. -/
theorem exists_objectText {members : List (String × Value)} {text : String}
    (h : IsText (.object members) text.toList) :
    ∃ t : ObjectText, t.text = text ∧ List.Forall₂ Entry.Writes t.entries members := by
  obtain ⟨before, after, core, hcore, htext⟩ := h
  generalize hv : Value.object members = v at hcore
  cases hcore with
  | object inside parts all =>
    obtain rfl := Value.object.inj hv
    have hvalues : ∀ p ∈ parts.map (Piece.map Member.toEntry), IsValue p.content.value := by
      intro p hp
      obtain ⟨q, hq, rfl⟩ := List.mem_map.mp hp
      exact (all q hq).isValue
    refine ⟨⟨before, inside, after, _, hvalues⟩, ?_, ?_⟩
    · rw [← String.toList_inj, htext, ObjectText.text, String.toList_ofList, series_map]
      rfl
    · rw [ObjectText.entries, List.map_map, List.forall₂_map_left_iff, List.forall₂_map_right_iff,
        List.forall₂_same]
      exact fun p hp => ⟨p.content.quoted, all p hp⟩
  | _ => cases hv

end EvmListing.Json
