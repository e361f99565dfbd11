import EvmListing.Proofs.Json.Rendering
import EvmListing.Proofs.Settings.Members

/-! What an object says about the settings does not depend on the order of its members, nor on those
with other names: the settings are the default ones but for the fields that are given. -/
namespace EvmListing.Settings
open Json

/-- Whether a member has the name of a field. -/
def IsFor (field : Field) (e : Entry) : Prop := Quoted field.key e.key

/-- Whether each field is given at most once, with one of its values, and all other members have
other names. -/
structure Proper (es : List Entry) : Prop where
  each : ∀ e ∈ es, Foreign e ∨ ∃ x, Gives e x
  once : es.Pairwise fun e e' => ∀ field, ¬(IsFor field e ∧ IsFor field e')

theorem key_injective : Function.Injective Field.key := by
  intro field field' h
  cases field <;> cases field' <;> first | rfl | exact absurd h (by decide)

section
variable {e : Entry} {x y : Setting} {field : Field}

lemma IsFor.unique {field' : Field} (h : IsFor field e) (h' : IsFor field' e) : field = field' :=
  key_injective (Quoted.name_unique h h')

lemma Gives.isFor (h : Gives e x) : IsFor x.field e := h.1

lemma Foreign.not_isFor (h : Foreign e) : ¬IsFor field e := by
  obtain ⟨name, hname, hother⟩ := h
  exact fun hfor => hother field (Quoted.name_unique hfor hname)

lemma names_unique {m n : String} {v : Value} (h : Names m v) (h' : Names n v) : m = n := by
  obtain rfl | rfl := h <;> obtain h' | h' := h' <;> cases h' <;> rfl

lemma not_names_trailing {name : String} {n : Nat} {v : Value} (h : Names name v)
    (hne : name ≠ "trailing") : ¬(Setting.scan (.trailing n)).Holds v := by
  rintro ⟨w, -, -, rfl⟩
  obtain h | h := h <;> cases h
  exact hne rfl

lemma holds_unique (hfield : x.field = y.field) {v : Value} (hx : x.Holds v) (hy : y.Holds v) :
    x = y := by
  cases x with
  | stripMetadata a =>
    cases y <;> cases hfield
    cases hx
    cases hy
    rfl
  | scan a =>
    cases y <;> cases hfield
    rename_i b
    cases a with
    | anywhere =>
      cases b with
      | anywhere => rfl
      | trailing n => exact absurd hy (not_names_trailing hx (by decide))
    | trailing m =>
      cases b with
      | anywhere => exact absurd hx (not_names_trailing hy (by decide))
      | trailing n =>
        obtain ⟨w, hw, -, rfl⟩ := hx
        obtain ⟨w', hw', -, heq⟩ := hy
        cases heq
        cases Option.some.inj (hw.symm.trans hw')
        rfl
  | unassigned a =>
    cases y <;> cases hfield
    rename_i b
    cases a <;> cases b <;> first | rfl | exact absurd (names_unique hx hy) (by decide)

lemma Gives.unique (h : Gives e x) (h' : Gives e y) : x = y := by
  obtain ⟨hx, v, hv, hspells⟩ := h
  obtain ⟨hy, w, hw, hspells'⟩ := h'
  obtain rfl := hspells.unique hspells'
  exact holds_unique (IsFor.unique hx hy) hv hw

end

/-! ### What fields hold -/

def Fields.get? (fields : Fields) : Field → Option Setting
  | .stripMetadata => fields.stripMetadata.map .stripMetadata
  | .scan => fields.scan.map .scan
  | .unassigned => fields.unassigned.map .unassigned

def setting (s : Settings) : Field → Setting
  | .stripMetadata => .stripMetadata s.stripMetadata
  | .scan => .scan s.scan
  | .unassigned => .unassigned s.unassigned

lemma has_eq (fields : Fields) (field : Field) : fields.has field = (fields.get? field).isSome := by
  cases field <;> simp [Fields.has, Fields.get?]

lemma get?_put_self (fields : Fields) (x : Setting) : (fields.put x).get? x.field = some x := by
  cases x <;> rfl

lemma get?_put_of_ne (fields : Fields) {x : Setting} {field : Field} (h : x.field ≠ field) :
    (fields.put x).get? field = fields.get? field := by
  cases x <;> cases field <;> first | rfl | exact absurd rfl h

lemma has_put {fields : Fields} {x : Setting} {field : Field} :
    (fields.put x).has field = false ↔ x.field ≠ field ∧ fields.has field = false := by
  by_cases h : x.field = field
  · subst h
    simp [has_eq, get?_put_self]
  · simp [has_eq, get?_put_of_ne fields h, h]

lemma field_of_get? {fields : Fields} {field : Field} {x : Setting}
    (h : fields.get? field = some x) : x.field = field := by
  cases field <;> obtain ⟨_, -, rfl⟩ := Option.map_eq_some_iff.mp h <;> rfl

lemma setting_settings (fields : Fields) (field : Field) :
    fields.settings.setting field = (fields.get? field).getD (({} : Settings).setting field) := by
  obtain ⟨strip, scan, unassigned⟩ := fields
  cases field with
  | stripMetadata => cases strip <;> rfl
  | scan => cases scan <;> rfl
  | unassigned => cases unassigned <;> rfl

lemma setting_ext {s s' : Settings} (h : ∀ field, s.setting field = s'.setting field) : s = s' := by
  have hstrip := Setting.stripMetadata.inj (h .stripMetadata)
  have hscan := Setting.scan.inj (h .scan)
  have hunassigned := Setting.unassigned.inj (h .unassigned)
  cases s
  cases s'
  simp_all

section
variable {es : List Entry} {fields fields' : Fields}

lemma Proper.tail {e : Entry} (h : Proper (e :: es)) : Proper es where
  each e' he' := h.each e' (List.mem_cons_of_mem e he')
  once := (List.pairwise_cons.mp h.once).2

lemma Proper.given (h : Proper es) {e : Entry} (he : e ∈ es) {field : Field}
    (hfor : IsFor field e) : ∃ x, x.field = field ∧ Gives e x := by
  obtain hforeign | ⟨x, hx⟩ := h.each e he
  · exact absurd hfor hforeign.not_isFor
  · exact ⟨x, hx.isFor.unique hfor, hx⟩

/-- What is collected has a place for each field. -/
theorem Collects.proper (h : Collects fields es fields') :
    Proper es ∧ ∀ e ∈ es, ∀ field, IsFor field e → fields.has field = false := by
  induction h with
  | done => exact ⟨⟨nofun, .nil⟩, nofun⟩
  | @field fields fields' e es x gives fresh _ ih =>
    obtain ⟨⟨each, once⟩, hfree⟩ := ih
    refine ⟨⟨List.forall_mem_cons.mpr ⟨.inr ⟨x, gives⟩, each⟩, .cons ?_ once⟩,
      List.forall_mem_cons.mpr ⟨?_, ?_⟩⟩
    · rintro e' he' field ⟨hfor, hfor'⟩
      exact (has_put.mp (hfree e' he' field hfor')).1 (gives.isFor.unique hfor)
    · intro field hfor
      exact gives.isFor.unique hfor ▸ fresh
    · exact fun e' he' field hfor' => (has_put.mp (hfree e' he' field hfor')).2
  | @foreign fields fields' e es other _ ih =>
    obtain ⟨⟨each, once⟩, hfree⟩ := ih
    refine ⟨⟨List.forall_mem_cons.mpr ⟨.inl other, each⟩, .cons ?_ once⟩,
      List.forall_mem_cons.mpr ⟨?_, hfree⟩⟩
    · rintro e' - field ⟨hfor, -⟩
      exact other.not_isFor hfor
    · exact fun field hfor => (other.not_isFor hfor).elim

/-- Whatever order the members stand in, all that they give is collected, and nothing else. -/
theorem Collects.get?_eq (h : Collects fields es fields') {x : Setting} :
    fields'.get? x.field = some x ↔
      fields.get? x.field = some x ∨ ∃ e ∈ es, Gives e x := by
  induction h with
  | done => simp
  | @field fields fields' e es y gives fresh _ ih =>
    simp only [ih, List.mem_cons, exists_eq_or_imp]
    by_cases hfield : y.field = x.field
    · have hnone : fields.get? x.field = none := by
        rwa [hfield, has_eq, Option.isSome_eq_false_iff, Option.isNone_iff_eq_none] at fresh
      have hgives : y = x ↔ Gives e x := ⟨fun heq => heq ▸ gives, gives.unique⟩
      rw [hnone, ← hfield, get?_put_self, Option.some_inj, hgives]
      simp
    · have hnot : ¬Gives e x := fun hx => hfield (gives.isFor.unique hx.isFor)
      rw [get?_put_of_ne fields hfield]
      simp [hnot]
  | @foreign fields fields' e es other _ ih =>
    have hnot : ¬Gives e x := fun hx => other.not_isFor hx.isFor
    simp only [ih, List.mem_cons, exists_eq_or_imp]
    simp [hnot]

/-- Each field that is given finds its place free. -/
theorem Proper.collects (h : Proper es)
    (free : ∀ e ∈ es, ∀ field, IsFor field e → fields.has field = false) :
    ∃ fields', Collects fields es fields' := by
  induction es generalizing fields with
  | nil => exact ⟨fields, .done fields⟩
  | cons e es ih =>
    obtain ⟨hfree, hfrees⟩ := List.forall_mem_cons.mp free
    have hother := (List.pairwise_cons.mp h.once).1
    obtain hforeign | ⟨x, hx⟩ := h.each e List.mem_cons_self
    · obtain ⟨fields', hfields⟩ := ih h.tail hfrees
      exact ⟨fields', .foreign hforeign hfields⟩
    · have hput : ∀ e' ∈ es, ∀ field, IsFor field e' → (fields.put x).has field = false := by
        intro e' he' field hfor
        refine has_put.mpr ⟨fun heq => hother e' he' field ⟨heq ▸ hx.isFor, hfor⟩, ?_⟩
        exact hfrees e' he' field hfor
      obtain ⟨fields', hfields⟩ := ih h.tail hput
      exact ⟨fields', .field hx (hfree x.field hx.isFor) hfields⟩

end

/-! ### Settings -/

section
variable {t : ObjectText}

lemma exists_error {text : String} (h : ∀ s, ofJson text ≠ .ok s) :
    ∃ message, ofJson text = .error message := by
  cases hread : ofJson text with
  | error message => exact ⟨message, rfl⟩
  | ok s => exact absurd hread (h s)

/-- A field of the settings that are read is the one given, or the default one. -/
lemma Proper.ofJson (h : Proper t.entries) : ∃ s, ofJson t.text = .ok s ∧
    (∀ e ∈ t.entries, ∀ x, Gives e x → s.setting x.field = x) ∧
    ∀ field, (∀ e ∈ t.entries, ¬IsFor field e) →
      s.setting field = ({} : Settings).setting field := by
  have hfree : ∀ e ∈ t.entries, ∀ field, IsFor field e → ({} : Fields).has field = false :=
    fun _ _ field _ => by cases field <;> rfl
  obtain ⟨fields, hfields⟩ := h.collects hfree
  refine ⟨fields.settings, (ofJson_iff t _).mpr ⟨fields, hfields, rfl⟩, ?_, ?_⟩
  · intro e he x hx
    rw [setting_settings, hfields.get?_eq.mpr (.inr ⟨e, he, hx⟩), Option.getD_some]
  · intro field hnone
    cases hfield : fields.get? field with
    | none => rw [setting_settings, hfield, Option.getD_none]
    | some x =>
      obtain rfl := field_of_get? hfield
      obtain hempty | ⟨e, he, hx⟩ := hfields.get?_eq.mp hfield
      · cases x <;> cases hempty
      · exact absurd hx.isFor (hnone e he)

lemma Proper.ofJson_congr (h : Proper t.entries) {t' : ObjectText} (h' : Proper t'.entries)
    (same : ∀ x, (∃ e ∈ t'.entries, Gives e x) ↔ ∃ e ∈ t.entries, Gives e x) :
    Settings.ofJson t'.text = Settings.ofJson t.text := by
  obtain ⟨s, hs, hgiven, hdefault⟩ := h.ofJson
  obtain ⟨s', hs', hgiven', hdefault'⟩ := h'.ofJson
  have heq : s' = s := by
    refine setting_ext fun field => ?_
    by_cases hfield : ∃ x : Setting, x.field = field ∧ ∃ e ∈ t.entries, Gives e x
    · obtain ⟨x, rfl, hx⟩ := hfield
      obtain ⟨e', he', hx'⟩ := (same x).mpr hx
      obtain ⟨e, he, hx⟩ := hx
      rw [hgiven e he x hx, hgiven' e' he' x hx']
    · rw [hdefault, hdefault']
      · intro e' he' hfor
        obtain ⟨x, hx, hgives⟩ := h'.given he' hfor
        exact hfield ⟨x, hx, (same x).mp ⟨e', he', hgives⟩⟩
      · intro e he hfor
        obtain ⟨x, hx, hgives⟩ := h.given he hfor
        exact hfield ⟨x, hx, e, he, hgives⟩
  rw [hs, hs', heq]

lemma Proper.perm {es es' : List Entry} (h : Proper es) (hperm : es'.Perm es) : Proper es' where
  each e he := h.each e (hperm.mem_iff.mp he)
  once := (hperm.pairwise_iff fun {_ _} hpair field hfor => hpair field hfor.symm).mpr h.once

lemma proper_of_ofJson {s : Settings} (h : Settings.ofJson t.text = .ok s) : Proper t.entries := by
  obtain ⟨fields, hfields, -⟩ := (ofJson_iff t s).mp h
  exact hfields.proper.1

/-- The settings are the default ones but for the fields that an object gives, whatever else it
holds and however it is laid out; and there are none if it gives a field twice or with another value
than one of the field's. -/
theorem object_gives_fields (t : ObjectText) :
    (Proper t.entries → ∃ s, ofJson t.text = .ok s ∧
      (∀ e ∈ t.entries, ∀ x, Gives e x → s.setting x.field = x) ∧
      ∀ field, (∀ e ∈ t.entries, ¬IsFor field e) →
        s.setting field = ({} : Settings).setting field) ∧
    (∀ t' : ObjectText, Proper t.entries → t'.entries.Perm t.entries →
      ofJson t'.text = ofJson t.text) ∧
    (∀ t' : ObjectText, Proper t.entries → Proper t'.entries →
      (∀ x, (∃ e ∈ t'.entries, Gives e x) ↔ ∃ e ∈ t.entries, Gives e x) →
      ofJson t'.text = ofJson t.text) ∧
    (∀ field e e', [e, e'].Sublist t.entries → IsFor field e → IsFor field e' →
      ∃ message, ofJson t.text = .error message) ∧
    ∀ field, ∀ e ∈ t.entries, IsFor field e →
      (∀ (x : Setting) (v : Value), x.field = field → x.Holds v → ¬Spells v e.value) →
      ∃ message, ofJson t.text = .error message := by
  refine ⟨Proper.ofJson, fun t' h hperm => ?_, fun t' h h' => h.ofJson_congr h', ?_, ?_⟩
  · exact h.ofJson_congr (h.perm hperm) fun x => by simp only [hperm.mem_iff]
  · intro field e e' hsub hfor hfor'
    refine exists_error fun s hs => ?_
    have honce := (proper_of_ofJson hs).once.sublist hsub
    exact (List.pairwise_cons.mp honce).1 e' List.mem_cons_self field ⟨hfor, hfor'⟩
  · intro field e he hfor hnone
    refine exists_error fun s hs => ?_
    obtain ⟨x, hx, -, v, hv, hspells⟩ := (proper_of_ofJson hs).given he hfor
    exact hnone x v hx hv hspells

end

theorem object_gives_fields_once :
    ofJson "\x7b\"unknown_opcodes\":\"reject\",\"x\":[]\x7d" = .ok { unassigned := .reject } ∧
    ∃ message, ofJson "\x7b\"strip_metadata\":true,\"strip_metadata\":false\x7d" =
      .error message := by
  constructor
  · have htext := Document.isText_compact
      (.object [("unknown_opcodes", .text "reject"), ("x", .list [])])
    obtain ⟨t, ht, hentries⟩ := exists_objectText htext
    obtain ⟨e, es, ⟨hkey, hvalue⟩, hes, heq⟩ := List.forall₂_cons_right_iff.mp hentries
    obtain ⟨e', es', ⟨hkey', -⟩, hes', rfl⟩ := List.forall₂_cons_right_iff.mp hes
    obtain rfl := List.forall₂_nil_right_iff.mp hes'
    have hgives : Gives e (.unassigned .reject) := ⟨hkey, _, .inl rfl, hvalue⟩
    have hforeign : Foreign e' := ⟨"x", hkey', fun field => by cases field <;> decide⟩
    have hproper : Proper t.entries := by
      rw [heq]
      refine ⟨by simpa using ⟨.inr ⟨_, hgives⟩, .inl hforeign⟩, ?_⟩
      simpa using fun field _ => hforeign.not_isFor
    have hnone {field : Field} (hne : .unassigned ≠ field) : ∀ e ∈ t.entries, ¬IsFor field e := by
      rw [heq]
      simpa using ⟨fun hfor => hne (hgives.isFor.unique hfor), hforeign.not_isFor⟩
    obtain ⟨s, hs, hgiven, hdefault⟩ := (object_gives_fields t).1 hproper
    have hsettings : s = { unassigned := .reject } := by
      refine setting_ext fun field => ?_
      cases field with
      | unassigned => exact hgiven e (by simp [heq]) _ hgives
      | _ => exact hdefault _ (hnone (by decide))
    have hcompact : t.text = "\x7b\"unknown_opcodes\":\"reject\",\"x\":[]\x7d" :=
      ht.trans (by decide)
    rw [← hcompact, hs, hsettings]
  · have htext := Document.isText_compact
      (.object [("strip_metadata", .bool true), ("strip_metadata", .bool false)])
    obtain ⟨t, ht, hentries⟩ := exists_objectText htext
    obtain ⟨e, es, ⟨hkey, -⟩, hes, heq⟩ := List.forall₂_cons_right_iff.mp hentries
    obtain ⟨e', es', ⟨hkey', -⟩, hes', rfl⟩ := List.forall₂_cons_right_iff.mp hes
    obtain rfl := List.forall₂_nil_right_iff.mp hes'
    have hcompact : t.text = "\x7b\"strip_metadata\":true,\"strip_metadata\":false\x7d" :=
      ht.trans (by decide)
    rw [← hcompact]
    exact (object_gives_fields t).2.2.2.1 .stripMetadata e e' (heq ▸ List.Sublist.refl _) hkey hkey'

end EvmListing.Settings
