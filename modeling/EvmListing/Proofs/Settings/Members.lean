import EvmListing.Proofs.Settings.Variants

/-! The members of an object are read into fields one by one: each gives a field that was not given
before, or has another name and is passed over. -/
namespace EvmListing.Settings
open Json
open Utf8 (encode)

/-- Whether a member gives a field its value. -/
def Gives (e : Entry) (x : Setting) : Prop :=
  Quoted x.field.key e.key ∧ ∃ v, x.Holds v ∧ Spells v e.value

/-- Whether the name of a member is that of no field. -/
def Foreign (e : Entry) : Prop := ∃ name, Quoted name e.key ∧ ∀ field : Field, field.key ≠ name

/-- Reading the members of an object into fields. -/
inductive Collects : Fields → List Entry → Fields → Prop
  | done (fields : Fields) : Collects fields [] fields
  | field {fields fields' : Fields} {e : Entry} {es : List Entry} {x : Setting} (gives : Gives e x)
      (fresh : fields.has x.field = false) (more : Collects (fields.put x) es fields') :
      Collects fields (e :: es) fields'
  | foreign {fields fields' : Fields} {e : Entry} {es : List Entry} (other : Foreign e)
      (more : Collects fields es fields') : Collects fields (e :: es) fields'

/-- What is done with the name of a member and its value. -/
def member (bound : Nat) (fields : Fields) : Scanner (Except Problem Fields) := do
  let key ← string
  match Field.ofKey? key with
  | none =>
    colon
    skipValue
    members bound false fields
  | some field =>
    if fields.has field then return .error (.duplicateField field.key)
    colon
    match ← fields.read field with
    | .error problem => return .error problem
    | .ok fields => members bound false fields

lemma members_succ (bound : Nat) (first : Bool) (fields : Fields) :
    members (bound + 1) first fields =
      nextKey first >>= fun more => if !more then pure (.ok fields) else member bound fields := rfl

/-- The opening mark of a key, if it is the next token. -/
def keyMark : Option UInt8 → Scanner Bool
  | some Ascii.quote => do
    let _ ← next
    return true
  | some Ascii.closeBrace => failAtNext .trailingComma
  | some _ => failAtNext .keyNotString
  | none => failAtNext .endInValue

lemma nextKey_close (first : Bool) (gap : Gap) (r : List Char) :
    nextKey first (encode (gap.chars ++ '\x7d' :: r)) = .ok (false, encode ('\x7d' :: r)) := by
  rw [nextKey, peekToken_gap]
  rfl

lemma nextKey_first (gap : Gap) (r : List Char) :
    nextKey true (encode (gap.chars ++ '"' :: r)) = .ok (true, encode r) := by
  rw [nextKey, peekToken_gap]
  rfl

lemma nextKey_comma (gap gap' : Gap) (r : List Char) :
    nextKey false (encode (gap.chars ++ ',' :: (gap'.chars ++ '"' :: r))) =
      .ok (true, encode r) := by
  rw [nextKey, peekToken_gap]
  change (peekToken >>= keyMark) (encode (gap'.chars ++ '"' :: r)) = _
  rw [peekToken_gap]
  rfl

lemma ofKey?_iff {name : List Char} {field : Field} :
    Field.ofKey? (encode name) = some field ↔ field.key.toList = name := by
  have hmem : field ∈ [Field.stripMetadata, .scan, .unassigned] := by cases field <;> decide
  exact (find?_name_iff (by decide)).trans (and_iff_right hmem)

section
variable {e : Entry} {k r : List Char} (hkey : e.key = '"' :: k) (hk : IsBody k)
  (hvalue : IsValue e.value) (stops : Stops r) (bound : Nat) (fields fields' : Fields) (u : Bytes)
include hkey hk hvalue stops

/-- A member either gives a field that was not given before, or has another name. -/
lemma member_iff :
    member bound fields (encode (k ++ (e.beforeColon.chars ++ ':' :: (e.afterColon.chars ++
        (e.value ++ r))))) = .ok (.ok fields', u) ↔
      (∃ x, Gives e x ∧ fields.has x.field = false ∧
        members bound false (fields.put x) (encode r) = .ok (.ok fields', u)) ∨
      Foreign e ∧ members bound false fields (encode r) = .ok (.ok fields', u) := by
  have hcolon := colon_encode e.beforeColon (e.afterColon.chars ++ (e.value ++ r))
  have hskip := hvalue.skip e.afterColon stops
  constructor
  · intro h
    obtain ⟨bs, u', hstring, h⟩ := bind_ok h
    obtain ⟨cs, hcs, rfl, rfl⟩ := (hk.string_iff _).mp hstring
    have hquoted : Quoted (String.ofList cs) e.key := ⟨k, by rwa [String.toList_ofList], hkey⟩
    cases hfield : Field.ofKey? (encode cs) with
    | none =>
      simp only [hfield] at h
      rw [bind_of_ok hcolon, bind_of_ok hskip] at h
      refine .inr ⟨⟨_, hquoted, fun field heq => ?_⟩, h⟩
      rw [ofKey?_iff.mpr (by rw [heq, String.toList_ofList])] at hfield
      cases hfield
    | some field =>
      obtain rfl := ofKey?_iff.mp hfield
      rw [String.ofList_toList] at hquoted
      cases hfresh : fields.has field with
      | true =>
        simp only [hfield, hfresh, if_true] at h
        cases h
      | false =>
        simp only [hfield, hfresh, Bool.false_eq_true, if_false] at h
        rw [bind_of_ok hcolon] at h
        obtain ⟨result, u', hresult, h⟩ := bind_ok h
        cases result with
        | error problem => cases h
        | ok fields₁ =>
          obtain ⟨x, rfl, hx, rfl, rfl⟩ := (read_iff hvalue _ _ _ _ stops _).mp hresult
          exact .inl ⟨x, ⟨hquoted, hx⟩, hfresh, h⟩
  · rintro (⟨x, ⟨⟨t, ht, hquoted⟩, hx⟩, hfresh, h⟩ | ⟨⟨name, ⟨t, ht, hquoted⟩, hother⟩, h⟩)
    · obtain rfl := (List.cons.inj (hkey.symm.trans hquoted)).2
      have hfield := ofKey?_iff.mpr (rfl : x.field.key.toList = _)
      have hresult := (read_iff hvalue e.afterColon fields _ _ stops _).mpr ⟨x, rfl, hx, rfl, rfl⟩
      rw [member, bind_of_ok ((hk.string_iff _).mpr ⟨_, ht, rfl, rfl⟩)]
      simp only [hfield, hfresh, Bool.false_eq_true, if_false]
      rw [bind_of_ok hcolon, bind_of_ok hresult]
      exact h
    · obtain rfl := (List.cons.inj (hkey.symm.trans hquoted)).2
      have hfield : Field.ofKey? (encode name.toList) = none := by
        cases hfield : Field.ofKey? (encode name.toList) with
        | none => rfl
        | some field => exact absurd (String.toList_inj.mp (ofKey?_iff.mp hfield)) (hother field)
      rw [member, bind_of_ok ((hk.string_iff _).mpr ⟨_, ht, rfl, rfl⟩)]
      simp only [hfield]
      rw [bind_of_ok hcolon, bind_of_ok hskip]
      exact h

end

/-- The members that are left, with what stands in front of them, up to the closing brace. -/
def left (first : Bool) (gap : Gap) (ps : List (Piece Entry)) : List Char :=
  if first then series Entry.text '\x7d' gap ps else rest Entry.text '\x7d' gap ps

lemma nextKey_left (first : Bool) (gap : Gap) {p : Piece Entry} (ps : List (Piece Entry))
    {k : List Char} (hkey : p.content.key = '"' :: k) (r : List Char) :
    nextKey first (encode (left first gap (p :: ps) ++ r)) = .ok (true, encode (k ++
      (p.content.beforeColon.chars ++ ':' :: (p.content.afterColon.chars ++
        (p.content.value ++ (left false p.after ps ++ r)))))) := by
  cases first with
  | true =>
    simp only [left, series, Entry.text, hkey, if_true, List.append_assoc, List.cons_append]
    exact nextKey_first p.before _
  | false =>
    simp only [left, rest, Entry.text, hkey, Bool.false_eq_true, if_false, List.append_assoc,
      List.cons_append]
    exact nextKey_comma gap p.before _

theorem members_iff {ps : List (Piece Entry)} (values : ∀ p ∈ ps, IsValue p.content.value)
    {bound : Nat} (hbound : ps.length < bound) (first : Bool) (gap : Gap) (r : List Char)
    (fields fields' : Fields) (u : Bytes) :
    members bound first fields (encode (left first gap ps ++ r)) = .ok (.ok fields', u) ↔
      Collects fields (ps.map (·.content)) fields' ∧ u = encode ('\x7d' :: r) := by
  induction ps generalizing bound first gap fields with
  | nil =>
    obtain ⟨bound, rfl⟩ := Nat.exists_eq_succ_of_ne_zero (Nat.ne_of_gt hbound)
    have hleft : left first gap [] ++ r = gap.chars ++ '\x7d' :: r := by
      cases first <;> simp [left, series, rest]
    rw [members_succ, hleft, bind_of_ok (nextKey_close first gap r)]
    constructor
    · intro h
      cases h
      exact ⟨.done _, rfl⟩
    · rintro ⟨⟨⟩, rfl⟩
      rfl
  | cons p ps ih =>
    obtain ⟨bound, rfl⟩ := Nat.exists_eq_succ_of_ne_zero (Nat.ne_zero_of_lt hbound)
    obtain ⟨hp, hps⟩ := List.forall_mem_cons.mp values
    obtain ⟨k, hk, hkey⟩ := p.content.literal
    have hlength : ps.length < bound := Nat.lt_of_succ_lt_succ hbound
    have hstops : Stops (left false p.after ps ++ r) := rest_stops (.inr rfl) p.after ps
    rw [members_succ, bind_of_ok (nextKey_left first gap ps hkey r), List.map_cons]
    refine (member_iff hkey hk hp hstops bound fields fields' u).trans ?_
    simp only [ih hps hlength]
    constructor
    · rintro (⟨x, hx, hfresh, hmore, rfl⟩ | ⟨hother, hmore, rfl⟩)
      · exact ⟨.field hx hfresh hmore, rfl⟩
      · exact ⟨.foreign hother hmore, rfl⟩
    · rintro ⟨h, rfl⟩
      cases h with
      | field hx hfresh hmore => exact .inl ⟨_, hx, hfresh, hmore, rfl⟩
      | foreign hother hmore => exact .inr ⟨hother, hmore, rfl⟩

/-- What is done after the brace that opens the settings. -/
def objectReader : Scanner Settings := do
  let s ← get
  let fields ← members (s.length + 1) true {}
  let settings ← close closeObject afterObject fields
  if (← peekToken).isSome then failAtNext .trailingCharacters
  return settings

lemma reader_brace (gap : Gap) (r : List Char) :
    reader (encode (gap.chars ++ '\x7b' :: r)) = objectReader (encode r) := by
  rw [reader, peekToken_gap]
  rfl

lemma close_object (fields : Fields) (r : List Char) :
    close closeObject afterObject (.ok fields) (encode ('\x7d' :: r)) =
      .ok (fields.settings, encode r) := rfl

/-- Each member takes a byte at least. -/
lemma length_left (first : Bool) (gap : Gap) (ps : List (Piece Entry)) (r : List Char) :
    ps.length ≤ (encode (left first gap ps ++ r)).length := by
  have hchars : ps.length ≤ (left first gap ps).length := by
    induction ps generalizing first gap with
    | nil => exact Nat.zero_le _
    | cons p ps ih =>
      obtain ⟨c, t, htext, -⟩ := p.content.begins
      have hps : ps.length ≤ (rest Entry.text '\x7d' p.after ps).length := ih false p.after
      cases first <;> simp [left, series, rest, htext] <;> omega
  calc
    ps.length ≤ (left first gap ps).length := hchars
    _ ≤ (encode (left first gap ps)).length := Utf8.length_le_encode _
    _ ≤ (encode (left first gap ps ++ r)).length := by
      rw [Utf8.encode_append, List.length_append]
      exact Nat.le_add_right _ _

lemma ofJson_eq_ok_iff {text : String} {s : Settings} :
    ofJson text = .ok s ↔ ∃ u, reader (encode text.toList) = .ok (s, u) := by
  cases h : reader (encode text.toList) with
  | error fault => simp [ofJson, h]
  | ok p => simp [ofJson, h, Prod.ext_iff]

/-- The settings are those of the fields that the members give. -/
theorem ofJson_iff (t : ObjectText) (s : Settings) :
    ofJson t.text = .ok s ↔ ∃ fields, Collects {} t.entries fields ∧ s = fields.settings := by
  have htext : t.text.toList = t.before.chars ++ '\x7b' ::
      (left true t.inside t.parts ++ t.after.chars) := String.toList_ofList
  have hlength := Nat.lt_succ_of_le (length_left true t.inside t.parts t.after.chars)
  have hmembers := members_iff t.values hlength true t.inside t.after.chars {}
  rw [ofJson_eq_ok_iff, htext, reader_brace]
  constructor
  · rintro ⟨u, h⟩
    obtain ⟨_, _, ⟨⟩, h⟩ := bind_ok h
    obtain ⟨result, u₁, hresult, h⟩ := bind_ok h
    cases result with
    | error problem => cases h
    | ok fields =>
      obtain ⟨hfields, rfl⟩ := (hmembers fields u₁).mp hresult
      rw [bind_of_ok (close_object fields _)] at h
      obtain ⟨o, u₂, -, h⟩ := bind_ok h
      split at h
      · cases h
      · cases h
        exact ⟨fields, hfields, rfl⟩
  · rintro ⟨fields, hfields, rfl⟩
    have hget (bytes : Bytes) : (get : Scanner Bytes) bytes = .ok (bytes, bytes) := rfl
    refine ⟨[], ?_⟩
    rw [objectReader, bind_of_ok (hget _), bind_of_ok ((hmembers fields _).mpr ⟨hfields, rfl⟩),
      bind_of_ok (close_object fields _), bind_of_ok (peekToken_end t.after)]
    rfl

end EvmListing.Settings
