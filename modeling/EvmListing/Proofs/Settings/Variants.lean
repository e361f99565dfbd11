import EvmListing.Proofs.Settings.Values

/-! Variants in JSON, and with them the values of all fields: a field is read from the values that
it may have and from no others. -/
namespace EvmListing.Settings
open Json
open Utf8 (encode)

/-- Something is found by its name if no two have one name. -/
lemma find?_name_iff {α : Type} {name : α → String} {xs : List α} (nodup : (xs.map name).Nodup)
    {x : α} {s : List Char} :
    (xs.find? fun y => encode (name y).toList == encode s) = some x ↔
      x ∈ xs ∧ (name x).toList = s := by
  constructor
  · intro hfind
    have hname := List.find?_some hfind
    rw [beq_iff_eq, Utf8.encode_injective.eq_iff] at hname
    exact ⟨List.mem_of_find?_eq_some hfind, hname⟩
  · rintro ⟨hmem, rfl⟩
    induction xs with
    | nil => cases hmem
    | cons y xs ih =>
      obtain ⟨hfresh, hnodup⟩ := List.nodup_cons.mp nodup
      cases hmem with
      | head => exact List.find?_cons_of_pos (beq_self_eq_true _)
      | tail _ hmem =>
        rw [List.find?_cons_of_neg, ih hnodup hmem]
        rw [beq_iff_eq, Utf8.encode_injective.eq_iff, String.toList_inj]
        exact fun heq => hfresh (List.mem_map.mpr ⟨x, hmem, heq.symm⟩)

/-! ### Variants -/

/-- A variant with the values that may belong to its name. -/
structure Choice (α : Type) where
  variant : Variant α
  means : α → Value → Prop
  takes : Takes variant.content means

def Choice.plain {α : Type} (name : String) (value : α) : Choice α where
  variant := .plain name value
  means y v := v = .null ∧ value = y
  takes ht stops gap y u := by
    have h := takes_unit.map (fun _ => value) ht stops gap y u
    simp only [exists_const] at h
    exact h

/-- Whether a value stands for one with a given name: the name alone, or with what belongs to it. -/
def Choice.Holds {α : Type} (choice : Choice α) (x : α) (v : Value) : Prop :=
  choice.variant.alone = some x ∧ v = .string choice.variant.name ∨
    ∃ w, choice.means x w ∧ v = .object [(choice.variant.name, w)]

section
variable {α : Type}

/-- What a name alone stands for. -/
def nameAlone (v : Variant α) : Scanner (Except Problem α) :=
  match v.alone with
  | some value => return .ok value
  | none => return .error (.invalidType .unitVariant "newtype variant")

/-- What follows the name of a variant in an object. -/
def variantContent (v : Variant α) : Scanner (Except Problem α) := do
  colon
  let value ← v.content
  match ← peekToken with
  | some Ascii.closeBrace =>
    let _ ← next
    return .ok value
  | some _ => fail .expectedValue
  | none => fail .endInObject

/-- What follows the brace of an object that stands for a variant. -/
def variantMember (variants : List (Variant α)) : Scanner (Except Problem α) := do
  let v ← match ← peekToken with
    | none => failAtNext .endInObject
    | some Ascii.quote => do
      let _ ← next
      variantName variants
    | some Ascii.closeBrace => failAtNext .expectedValue
    | some _ => failAtNext .keyNotString
  variantContent v

lemma variantContent_iff (choice : Choice α) {t : List Char} (h : IsValue t)
    (gap gap' last : Gap) (ps : List (Piece Entry)) (r : List Char) (x : α) (u : Bytes) :
    variantContent choice.variant (encode (gap.chars ++ ':' :: (gap'.chars ++
        (t ++ (rest Entry.text '\x7d' last ps ++ r))))) = .ok (.ok x, u) ↔
      ps = [] ∧ (∃ w, choice.means x w ∧ Spells w t) ∧ u = encode r := by
  have hstops : Stops (rest Entry.text '\x7d' last ps ++ r) := rest_stops (.inr rfl) last ps
  have htakes := choice.takes h hstops gap'
  rw [variantContent, bind_of_ok (colon_encode gap _)]
  constructor
  · intro hread
    obtain ⟨y, u', hy, hread⟩ := bind_ok hread
    obtain ⟨hmeans, rfl⟩ := (htakes y u').mp hy
    cases ps with
    | nil =>
      rw [rest, List.append_assoc, peekToken_gap] at hread
      cases hread
      exact ⟨rfl, hmeans, rfl⟩
    | cons p ps =>
      rw [rest, List.append_assoc, peekToken_gap] at hread
      cases hread
  · rintro ⟨rfl, hmeans, rfl⟩
    rw [bind_of_ok ((htakes x _).mpr ⟨hmeans, rfl⟩), rest, List.append_assoc, peekToken_gap]
    rfl

lemma variantName_iff {variants : List (Variant α)} (nodup : (variants.map (·.name)).Nodup)
    {t : List Char} (h : IsBody t) (r : List Char) (v : Variant α) (u : Bytes) :
    variantName variants (encode (t ++ r)) = .ok (v, u) ↔
      v ∈ variants ∧ Body v.name.toList t ∧ u = encode r := by
  constructor
  · intro hread
    obtain ⟨bs, u', hstring, hread⟩ := bind_ok hread
    obtain ⟨cs, hcs, rfl, rfl⟩ := (h.string_iff r).mp hstring
    cases hfind : variants.find? fun w => encode w.name.toList == encode cs with
    | none =>
      simp only [hfind] at hread
      cases hread
    | some w =>
      simp only [hfind] at hread
      cases hread
      obtain ⟨hmem, rfl⟩ := (find?_name_iff nodup).mp hfind
      exact ⟨hmem, hcs, rfl⟩
  · rintro ⟨hmem, hbody, rfl⟩
    have hfind := (find?_name_iff nodup).mpr ⟨hmem, rfl⟩
    rw [variantName, bind_of_ok ((h.string_iff r).mpr ⟨_, hbody, rfl, rfl⟩), hfind]
    rfl

lemma spells_singleton {name : String} {w : Value} {t : List Char}
    (h : Spells (.object [(name, w)]) t) : ∃ (e : Entry) (before after : Gap),
      Quoted name e.key ∧ Spells w e.value ∧
        t = '\x7b' :: (before.chars ++ (e.text ++ (after.chars ++ ['\x7d']))) := by
  generalize hv : Value.object [(name, w)] = v at h
  cases h with
  | object inside parts all =>
    obtain ⟨p, rfl, hp⟩ := List.map_eq_singleton_iff.mp (Value.object.inj hv).symm
    obtain ⟨rfl, rfl⟩ := Prod.mk.inj hp
    exact ⟨p.content.toEntry, p.before, p.after, p.content.quoted, all p List.mem_cons_self, rfl⟩
  | _ => cases hv

lemma variant_quote (variants : List (Variant α)) (gap : Gap) (t : List Char) :
    variant variants (encode (gap.chars ++ '"' :: t)) =
      (variantName variants >>= nameAlone) (encode t) := by
  rw [variant, peekToken_gap]
  rfl

lemma variant_brace (variants : List (Variant α)) (gap : Gap) (t : List Char) :
    variant variants (encode (gap.chars ++ '\x7b' :: t)) = variantMember variants (encode t) := by
  rw [variant, peekToken_gap]
  rfl

lemma variantMember_quote (variants : List (Variant α)) (gap : Gap) (t : List Char) :
    variantMember variants (encode (gap.chars ++ '"' :: t)) =
      (variantName variants >>= variantContent) (encode t) := by
  rw [variantMember, peekToken_gap]
  rfl

lemma variantMember_ne_ok (variants : List (Variant α)) (gap : Gap) (t : List Char)
    (p : Except Problem α × Bytes) :
    variantMember variants (encode (gap.chars ++ '\x7d' :: t)) ≠ .ok p := by
  rw [variantMember, peekToken_gap]
  exact nofun

variable {choices : List (Choice α)} (nodup : (choices.map (·.variant.name)).Nodup)
include nodup

/-- A variant is read from its name or from an object whose only key is its name. -/
theorem variant_iff {t r : List Char} (h : IsValue t) (gap : Gap) (x : α) (u : Bytes) :
    variant (choices.map (·.variant)) (encode (gap.chars ++ (t ++ r))) = .ok (.ok x, u) ↔
      (∃ v, (∃ c ∈ choices, c.Holds x v) ∧ Spells v t) ∧ u = encode r := by
  have hnames : ((choices.map (·.variant)).map (·.name)).Nodup := by
    rwa [List.map_map]
  constructor
  · intro hread
    obtain ⟨o, t', hpeek, hbranch⟩ := bind_ok hread
    split at hbranch
    · cases hbranch
    · obtain ⟨s, rfl, -⟩ := h.of_peek (c := '"') (by decide) hpeek
      rw [List.cons_append, variant_quote] at hread
      obtain ⟨v, u', hname, hread⟩ := bind_ok hread
      obtain ⟨hmem, hbody, rfl⟩ := (variantName_iff hnames h.isBody r v u').mp hname
      obtain ⟨choice, hchoice, rfl⟩ := List.mem_map.mp hmem
      cases halone : choice.variant.alone with
      | none =>
        simp only [nameAlone, halone] at hread
        cases hread
      | some value =>
        simp only [nameAlone, halone] at hread
        cases hread
        exact ⟨⟨_, ⟨choice, hchoice, .inl ⟨halone, rfl⟩⟩, .string ⟨s, hbody, rfl⟩⟩, rfl⟩
    · obtain ⟨s, rfl, -⟩ := h.of_peek (c := '\x7b') (by decide) hpeek
      obtain ⟨inside, parts, all, rfl⟩ := h.members
      cases parts with
      | nil =>
        rw [List.cons_append, variant_brace, series, List.append_assoc] at hread
        exact (variantMember_ne_ok _ inside r _ hread).elim
      | cons p ps =>
        obtain ⟨s, hs, hkey⟩ := p.content.literal
        rw [List.cons_append, variant_brace, series, Entry.text, hkey] at hread
        simp only [List.append_assoc, List.cons_append] at hread
        rw [variantMember_quote] at hread
        obtain ⟨v, u', hname, hread⟩ := bind_ok hread
        obtain ⟨hmem, hbody, rfl⟩ := (variantName_iff hnames hs _ v u').mp hname
        obtain ⟨choice, hchoice, rfl⟩ := List.mem_map.mp hmem
        obtain ⟨rfl, ⟨w, hw, hspells⟩, rfl⟩ := (variantContent_iff choice
          (all p List.mem_cons_self) ..).mp hread
        have hquoted : Quoted choice.variant.name p.content.key := ⟨s, hbody, hkey⟩
        have hobject := Spells.object inside [⟨p.before, ⟨_, _, hquoted, p.content.beforeColon,
          p.content.afterColon, ⟨w, p.content.value⟩⟩, p.after⟩] (by simpa using hspells)
        exact ⟨⟨_, ⟨choice, hchoice, .inr ⟨w, hw, rfl⟩⟩, hobject⟩, rfl⟩
    · cases hbranch
  · rintro ⟨⟨v, ⟨choice, hchoice, ⟨halone, rfl⟩ | ⟨w, hw, rfl⟩⟩, hv⟩, rfl⟩
    · obtain ⟨s, hbody, rfl⟩ : Quoted choice.variant.name t := by
        cases hv with
        | string form => exact form
      have hname := (variantName_iff hnames hbody.isBody r choice.variant _).mpr
        ⟨List.mem_map_of_mem hchoice, hbody, rfl⟩
      rw [List.cons_append, variant_quote, bind_of_ok hname, nameAlone, halone]
      rfl
    · obtain ⟨e, before, after, ⟨s, hbody, hkey⟩, hvalue, rfl⟩ := spells_singleton hv
      have hname := (variantName_iff hnames hbody.isBody (e.beforeColon.chars ++ ':' ::
        (e.afterColon.chars ++ (e.value ++ (rest Entry.text '\x7d' after [] ++ r))))
        choice.variant _).mpr ⟨List.mem_map_of_mem hchoice, hbody, rfl⟩
      have hcontent := (variantContent_iff choice hvalue.isValue e.beforeColon e.afterColon after []
        r x _).mpr ⟨rfl, ⟨w, hw, hvalue⟩, rfl⟩
      rw [List.cons_append, variant_brace, Entry.text, hkey]
      simp only [List.append_assoc, List.cons_append]
      rw [variantMember_quote]
      rw [rest] at hname hcontent
      simp only [List.append_assoc] at hname hcontent
      exact (bind_of_ok hname _).trans hcontent

end

/-! ### Fields -/

/-- A field with its value. -/
inductive Setting where
  | stripMetadata (value : Bool)
  | scan (value : Scan)
  | unassigned (value : Policy)

def Setting.field : Setting → Field
  | stripMetadata _ => .stripMetadata
  | scan _ => .scan
  | unassigned _ => .unassigned

/-- Whether a value names one thing among several: as a string, or as an object with null. -/
def Names (name : String) (v : Value) : Prop := v = .string name ∨ v = .object [(name, .null)]

/-- Whether a field has its value from a JSON value. -/
def Setting.Holds : Setting → Value → Prop
  | stripMetadata value, v => v = .bool value
  | scan .anywhere, v => Names "anywhere" v
  | scan (.trailing n), v => ∃ w, w.nat? = some n ∧ n < 2^64 ∧ v = .object [("trailing", w)]
  | unassigned .sentinel, v => Names "sentinel" v
  | unassigned .reject, v => Names "reject" v

def Fields.put (fields : Fields) : Setting → Fields
  | .stripMetadata value => { fields with stripMetadata := some value }
  | .scan value => { fields with scan := some value }
  | .unassigned value => { fields with unassigned := some value }

def trailing : Choice Scan where
  variant := { name := "trailing", alone := none, content := Scan.trailing <$> size }
  means scan w := ∃ n, (w.nat? = some n ∧ n < 2^64) ∧ .trailing n = scan
  takes := takes_size.map Scan.trailing

def scanChoices : List (Choice Scan) := [.plain "anywhere" .anywhere, trailing]

def policyChoices : List (Choice Policy) := [.plain "sentinel" .sentinel, .plain "reject" .reject]

lemma holds_plain {α : Type} {name : String} {value x : α} {v : Value} :
    (Choice.plain name value).Holds x v ↔ x = value ∧ Names name v := by
  constructor
  · rintro (⟨halone, rfl⟩ | ⟨w, ⟨rfl, rfl⟩, rfl⟩)
    · exact ⟨(Option.some.inj halone).symm, .inl rfl⟩
    · exact ⟨rfl, .inr rfl⟩
  · rintro ⟨rfl, rfl | rfl⟩
    · exact .inl ⟨rfl, rfl⟩
    · exact .inr ⟨.null, ⟨rfl, rfl⟩, rfl⟩

lemma holds_trailing {scan : Scan} {v : Value} : trailing.Holds scan v ↔
    ∃ n, scan = .trailing n ∧ (Setting.scan (.trailing n)).Holds v := by
  constructor
  · rintro (⟨halone, -⟩ | ⟨w, ⟨n, ⟨hn, hlt⟩, rfl⟩, rfl⟩)
    · cases halone
    · exact ⟨n, rfl, w, hn, hlt, rfl⟩
  · rintro ⟨n, rfl, w, hn, hlt, rfl⟩
    exact .inr ⟨w, ⟨n, ⟨hn, hlt⟩, rfl⟩, rfl⟩

lemma holds_scan {scan : Scan} {v : Value} :
    (∃ c ∈ scanChoices, c.Holds scan v) ↔ (Setting.scan scan).Holds v := by
  simp only [scanChoices, List.mem_cons, List.not_mem_nil, or_false, exists_eq_or_imp,
    exists_eq_left, holds_plain, holds_trailing]
  cases scan <;> simp [Setting.Holds]

lemma holds_unassigned {policy : Policy} {v : Value} :
    (∃ c ∈ policyChoices, c.Holds policy v) ↔ (Setting.unassigned policy).Holds v := by
  simp only [policyChoices, List.mem_cons, List.not_mem_nil, or_false, exists_eq_or_imp,
    exists_eq_left, holds_plain]
  cases policy <;> simp [Setting.Holds]

section
variable {t r : List Char} (h : IsValue t) (gap : Gap) (fields fields' : Fields) (u : Bytes)
include h

lemma readVariant_iff {α : Type} (choices : List (Choice α))
    (nodup : (choices.map (·.variant.name)).Nodup) (put : α → Fields) :
    (variant (choices.map (·.variant)) >>= fun value => return value.map put : Scanner _)
        (encode (gap.chars ++ (t ++ r))) = .ok (.ok fields', u) ↔
      ∃ x, (∃ v, (∃ c ∈ choices, c.Holds x v) ∧ Spells v t) ∧ fields' = put x ∧ u = encode r := by
  constructor
  · intro hread
    obtain ⟨value, u', hvalue, hread⟩ := bind_ok hread
    cases value with
    | error problem => cases hread
    | ok x =>
      cases hread
      obtain ⟨hx, rfl⟩ := (variant_iff nodup h gap x u).mp hvalue
      exact ⟨x, hx, rfl, rfl⟩
  · rintro ⟨x, hx, rfl, rfl⟩
    rw [bind_of_ok ((variant_iff nodup h gap x _).mpr ⟨hx, rfl⟩)]
    rfl

/-- The value of a field is read if it is one of the field's values. -/
theorem read_iff (stops : Stops r) (field : Field) :
    fields.read field (encode (gap.chars ++ (t ++ r))) = .ok (.ok fields', u) ↔
      ∃ x : Setting, x.field = field ∧ (∃ v, x.Holds v ∧ Spells v t) ∧ fields' = fields.put x ∧
        u = encode r := by
  cases field with
  | stripMetadata =>
    constructor
    · intro hread
      obtain ⟨value, u', hvalue, hread⟩ := bind_ok hread
      cases hread
      obtain ⟨hx, rfl⟩ := (takes_bool h stops gap value u).mp hvalue
      exact ⟨.stripMetadata value, rfl, hx, rfl, rfl⟩
    · rintro ⟨x, hx, hvalue, rfl, rfl⟩
      cases x <;> cases hx
      exact bind_of_ok ((takes_bool h stops gap _ _).mpr ⟨hvalue, rfl⟩) _
  | scan =>
    refine (readVariant_iff h gap fields' u scanChoices (by decide) _).trans ?_
    simp only [holds_scan]
    constructor
    · rintro ⟨x, hx, rfl, rfl⟩
      exact ⟨.scan x, rfl, hx, rfl, rfl⟩
    · rintro ⟨x, hx, hvalue, rfl, rfl⟩
      cases x <;> cases hx
      exact ⟨_, hvalue, rfl, rfl⟩
  | unassigned =>
    refine (readVariant_iff h gap fields' u policyChoices (by decide) _).trans ?_
    simp only [holds_unassigned]
    constructor
    · rintro ⟨x, hx, rfl, rfl⟩
      exact ⟨.unassigned x, rfl, hx, rfl, rfl⟩
    · rintro ⟨x, hx, hvalue, rfl, rfl⟩
      cases x <;> cases hx
      exact ⟨_, hvalue, rfl, rfl⟩

end

end EvmListing.Settings
