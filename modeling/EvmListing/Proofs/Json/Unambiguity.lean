import EvmListing.Proofs.Json.Grammar
import Mathlib.Tactic.Lemma

/-! A JSON text stands for one value. Each token tells by itself where it ends, except a number,
which goes on as far as there are characters of numbers; so two readings of one text agree token by
token. -/
namespace EvmListing.Json

/-- Two readings of a run of characters end it at the same place, if none of the characters may
follow it. -/
lemma run_unique {p : Char → Prop} {s t r r' : List Char} (hs : ∀ c ∈ s, p c) (ht : ∀ c ∈ t, p c)
    (hr : ∀ c ∈ r.head?, ¬p c) (hr' : ∀ c ∈ r'.head?, ¬p c) (h : s ++ r = t ++ r') :
    s = t ∧ r = r' := by
  induction s generalizing t with
  | nil =>
    cases t with
    | nil => exact ⟨rfl, h⟩
    | cons d t =>
      subst h
      exact absurd (ht d List.mem_cons_self) (hr d rfl)
  | cons c s ih =>
    cases t with
    | nil =>
      subst h
      exact absurd (hs c List.mem_cons_self) (hr' c rfl)
    | cons d t =>
      obtain ⟨rfl, hrest⟩ := List.cons.inj h
      obtain ⟨rfl, rfl⟩ := ih (fun x hx => hs x (List.mem_cons_of_mem c hx))
        (fun x hx => ht x (List.mem_cons_of_mem c hx)) hrest
      exact ⟨rfl, rfl⟩

/-- The characters of numbers. -/
def InNumber (c : Char) : Prop := c.isDigit ∨ c ∈ ['-', '+', '.', 'e', 'E']

lemma Gap.unique {g g' : Gap} {c d : Char} {r r' : List Char} (hc : ¬IsBlank c) (hd : ¬IsBlank d)
    (h : g.chars ++ c :: r = g'.chars ++ d :: r') : c = d ∧ r = r' := by
  have hhead {x : Char} {s : List Char} (hx : ¬IsBlank x) : ∀ y ∈ (x :: s).head?, ¬IsBlank y := by
    rintro y ⟨⟩
    exact hx
  exact List.cons.inj (run_unique g.blank g'.blank (hhead hc) (hhead hd) h).2

section
variable {s : List Char}

lemma Whole.inNumber (h : Whole s) : ∀ c ∈ s, InNumber c := by
  cases h with
  | zero => simp [InNumber]
  | positive first more =>
    intro c hc
    cases hc with
    | head => exact .inl first.1
    | tail _ hc => exact .inl (more c hc)

lemma Fraction.inNumber (h : Fraction s) : ∀ c ∈ s, InNumber c := by
  cases h with
  | none => simp
  | digits _ all =>
    intro c hc
    cases hc with
    | head => simp [InNumber]
    | tail _ hc => exact .inl (all c hc)

lemma Exponent.inNumber (h : Exponent s) : ∀ c ∈ s, InNumber c := by
  cases h with
  | none => simp
  | @digits e sign ds letter signed _ all =>
    intro c hc
    simp only [List.mem_cons, List.mem_append] at hc
    obtain rfl | hc | hc := hc
    · simp [InNumber, letter]
    · obtain rfl | rfl | rfl := signed <;> simp_all [InNumber]
    · exact .inl (all c hc)

lemma IsNumber.inNumber (h : IsNumber s) : ∀ c ∈ s, InNumber c := by
  cases h with
  | parts signed before after power =>
    intro c hc
    simp only [List.mem_append] at hc
    obtain hc | hc | hc | hc := hc
    · obtain rfl | rfl := signed <;> simp_all [InNumber]
    · exact before.inNumber c hc
    · exact after.inNumber c hc
    · exact power.inNumber c hc

lemma IsNumber.first (h : IsNumber s) : ∃ c t, s = c :: t ∧ (c.isDigit ∨ c = '-') := by
  cases h with
  | parts signed before _ _ =>
    obtain rfl | rfl := signed
    · cases before with
      | zero => exact ⟨_, _, rfl, .inl rfl⟩
      | positive first _ => exact ⟨_, _, rfl, .inl first.1⟩
    · exact ⟨_, _, rfl, .inr rfl⟩

end

section
variable {c d : Char} {s t r r' : List Char}

/-- The number of a character is not that of a surrogate. -/
lemma Numbered.unique (h : Numbered c s) (h' : Numbered d t) (heq : s ++ r = t ++ r') :
    c = d ∧ r = r' := by
  have hsurrogate {x : Char} {ds : List Char} {high : Nat} (hx : hexNumber ds = some x.toNat)
      (hh : hexNumber ds = some high) (leads : IsHighSurrogate high) : False := by
    have hvalid : x.toNat.isValidChar := x.valid
    cases Option.some.inj (hx.symm.trans hh)
    simp only [Nat.isValidChar, IsHighSurrogate] at hvalid leads
    omega
  cases h with
  | one four value =>
    cases h' with
    | one four' value' =>
      obtain ⟨rfl, rfl⟩ := List.append_inj heq (four.trans four'.symm)
      exact ⟨Char.toNat_inj.mp (Option.some.inj (value.symm.trans value')), rfl⟩
    | two four' _ first' _ leads' =>
      rw [List.append_assoc] at heq
      obtain ⟨rfl, -⟩ := List.append_inj heq (four.trans four'.symm)
      exact (hsurrogate value first' leads').elim
  | two four four₂ first second leads _ value =>
    cases h' with
    | one four' value' =>
      rw [List.append_assoc] at heq
      obtain ⟨rfl, -⟩ := List.append_inj heq (four.trans four'.symm)
      exact (hsurrogate value' first leads).elim
    | two four' four₂' first' second' _ _ value' =>
      simp only [List.append_assoc, List.cons_append] at heq
      obtain ⟨rfl, hrest⟩ := List.append_inj heq (four.trans four'.symm)
      have hlast := (List.cons.inj (List.cons.inj hrest).2).2
      obtain ⟨rfl, rfl⟩ := List.append_inj hlast (four₂.trans four₂'.symm)
      cases Option.some.inj (first.symm.trans first')
      cases Option.some.inj (second.symm.trans second')
      exact ⟨Char.toNat_inj.mp (value.trans value'.symm), rfl⟩

lemma Written.unique (h : Written c s) (h' : Written d t) (heq : s ++ r = t ++ r') :
    c = d ∧ r = r' := by
  have hu {x y : Char} (known : namedEscape? x = some y) : x ≠ 'u' := by
    rintro rfl
    cases known
  cases h with
  | plain _ free =>
    cases h' with
    | plain => exact List.cons.inj heq
    | named => exact absurd (List.cons.inj heq).1 free.2
    | numbered => exact absurd (List.cons.inj heq).1 free.2
  | named known =>
    cases h' with
    | plain _ free => exact absurd (List.cons.inj heq).1.symm free.2
    | named known' =>
      simp only [List.cons_append, List.nil_append, List.cons.injEq, true_and] at heq
      obtain ⟨rfl, rfl⟩ := heq
      exact ⟨Option.some.inj (known.symm.trans known'), rfl⟩
    | numbered => exact absurd (List.cons.inj (List.cons.inj heq).2).1 (hu known)
  | numbered number =>
    cases h' with
    | plain _ free => exact absurd (List.cons.inj heq).1.symm free.2
    | named known => exact absurd (List.cons.inj (List.cons.inj heq).2).1.symm (hu known)
    | numbered number' =>
      exact number.unique number' (List.cons.inj (List.cons.inj heq).2).2

/-- No spelling of a character is taken for the closing mark. -/
lemma Written.first (h : Written c s) : ∃ x u, s = x :: u ∧ x ≠ '"' := by
  cases h with
  | plain _ free => exact ⟨_, _, rfl, free.1⟩
  | named => exact ⟨_, _, rfl, by decide⟩
  | numbered => exact ⟨_, _, rfl, by decide⟩

lemma Body.unique {cs ds : List Char} (h : Body cs s) (h' : Body ds t) (heq : s ++ r = t ++ r') :
    cs = ds ∧ r = r' := by
  induction h generalizing ds t with
  | done =>
    cases h' with
    | done => exact ⟨rfl, (List.cons.inj heq).2⟩
    | more first rest =>
      obtain ⟨x, u, rfl, hx⟩ := first.first
      exact absurd (List.cons.inj heq).1.symm hx
  | more first rest ih =>
    cases h' with
    | done =>
      obtain ⟨x, u, rfl, hx⟩ := first.first
      exact absurd (List.cons.inj heq).1 hx
    | more first' rest' =>
      rw [List.append_assoc, List.append_assoc] at heq
      obtain ⟨rfl, heq⟩ := first.unique first' heq
      obtain ⟨rfl, rfl⟩ := ih rest' heq
      exact ⟨rfl, rfl⟩

lemma Quoted.unique {m n : String} (h : Quoted m s) (h' : Quoted n t) (heq : s ++ r = t ++ r') :
    m = n ∧ r = r' := by
  obtain ⟨u, hu, rfl⟩ := h
  obtain ⟨u', hu', rfl⟩ := h'
  obtain ⟨hchars, hrest⟩ := hu.unique hu' (List.cons.inj heq).2
  exact ⟨String.toList_inj.mp hchars, hrest⟩

lemma Quoted.name_unique {m n : String} (h : Quoted m s) (h' : Quoted n s) : m = n :=
  (h.unique h' (rfl : s ++ [] = s ++ [])).1

end

/-- Whether a number stops in front of a text. -/
def Stops (r : List Char) : Prop := ∀ c ∈ r.head?, ¬InNumber c

lemma stops_nil : Stops [] := fun _ hc => nomatch hc

lemma IsBlank.not_inNumber {c : Char} (h : IsBlank c) : ¬InNumber c := by
  simp only [IsBlank, List.mem_cons, List.not_mem_nil, or_false] at h
  obtain rfl | rfl | rfl | rfl := h <;> simp [InNumber]

lemma Gap.stops (gap : Gap) {r : List Char} (h : Stops r) : Stops (gap.chars ++ r) := by
  intro c hc
  cases hchars : gap.chars with
  | nil =>
    rw [hchars] at hc
    exact h c hc
  | cons d ds =>
    rw [hchars] at hc
    cases hc
    exact IsBlank.not_inNumber (gap.blank c (hchars ▸ List.mem_cons_self))

inductive Kind where
  | null
  | yes
  | no
  | number
  | string
  | array
  | object

def Value.kind : Value → Kind
  | null => .null
  | bool true => .yes
  | bool false => .no
  | number _ => .number
  | string _ => .string
  | array _ => .array
  | object _ => .object

/-- The kind of the values whose texts begin with a character. -/
def kind? (c : Char) : Option Kind :=
  if c.isDigit ∨ c = '-' then some .number
  else match c with
    | 'n' => some .null
    | 't' => some .yes
    | 'f' => some .no
    | '"' => some .string
    | '[' => some .array
    | '\x7b' => some .object
    | _ => none

lemma Spells.first {v : Value} {s : List Char} (h : Spells v s) :
    ∃ c t, s = c :: t ∧ kind? c = some v.kind := by
  cases h with
  | number form =>
    obtain ⟨c, t, rfl, hc⟩ := form.first
    exact ⟨c, t, rfl, if_pos hc⟩
  | string form =>
    obtain ⟨t, -, rfl⟩ := form
    exact ⟨_, _, rfl, rfl⟩
  | _ => exact ⟨_, _, rfl, rfl⟩

/-- Values with texts that begin alike are of one kind. -/
lemma Spells.kind_eq {v w : Value} {s t r r' : List Char} (h : Spells v s) (h' : Spells w t)
    (heq : s ++ r = t ++ r') : v.kind = w.kind := by
  obtain ⟨c, s, rfl, hc⟩ := h.first
  obtain ⟨d, t, rfl, hd⟩ := h'.first
  obtain ⟨rfl, -⟩ := List.cons.inj heq
  exact Option.some.inj (hc.symm.trans hd)

lemma IsBlank.kind?_eq_none {c : Char} (h : IsBlank c) : kind? c = none := by
  simp only [IsBlank, List.mem_cons, List.not_mem_nil, or_false] at h
  obtain rfl | rfl | rfl | rfl := h <;> rfl

/-- Whether a text begins with a character that is not blank and closes no brackets. -/
def Begins (s : List Char) : Prop :=
  ∃ c t, s = c :: t ∧ ¬IsBlank c ∧ c ≠ ']' ∧ c ≠ '\x7d'

lemma Spells.begins {v : Value} {s : List Char} (h : Spells v s) : Begins s := by
  obtain ⟨c, t, rfl, hc⟩ := h.first
  refine ⟨c, t, rfl, fun hb => ?_, ?_, ?_⟩
  · rw [hb.kind?_eq_none] at hc
    cases hc
  · rintro rfl
    cases hc
  · rintro rfl
    cases hc

lemma Member.begins (m : Member) : Begins m.text := by
  obtain ⟨t, -, ht⟩ := m.quoted
  exact ⟨'"', _, by rw [text, ht, List.cons_append], by simp [IsBlank], by decide, by decide⟩

/-- A gap ends where a value or a member begins. -/
lemma Gap.unique_of_begins {g g' : Gap} {s t r r' : List Char} (hs : Begins s) (ht : Begins t)
    (heq : g.chars ++ (s ++ r) = g'.chars ++ (t ++ r')) : s ++ r = t ++ r' := by
  obtain ⟨c, s, rfl, hc, -⟩ := hs
  obtain ⟨d, t, rfl, hd, -⟩ := ht
  rw [List.cons_append, List.cons_append] at heq ⊢
  obtain ⟨rfl, hrest⟩ := Gap.unique hc hd heq
  rw [hrest]

/-- The brackets that close. -/
def Closes (c : Char) : Prop := c = ']' ∨ c = '\x7d'

section
variable {c : Char} (h : Closes c)
include h

lemma Closes.not_blank : ¬IsBlank c := by
  obtain rfl | rfl := h <;> simp [IsBlank]

lemma Closes.not_inNumber : ¬InNumber c := by
  obtain rfl | rfl := h <;> simp [InNumber]

lemma Closes.ne_comma : c ≠ ',' := by
  obtain rfl | rfl := h <;> decide

lemma Closes.not_begins {g g' : Gap} {s r r' : List Char} (hs : Begins s) :
    g.chars ++ c :: r ≠ g'.chars ++ (s ++ r') := by
  obtain ⟨d, s, rfl, hd, hbracket, hbrace⟩ := hs
  intro heq
  obtain ⟨rfl, -⟩ := Gap.unique h.not_blank hd heq
  exact h.elim hbracket hbrace

end

section
variable {α β : Type} {text : α → List Char} {value : α → β} {close : Char} {r r' : List Char}
  {ps qs : List (Piece α)}

/-- Whether two parts are the same, up to spelling, if something begins with both of them. -/
def Agree (text : α → List Char) (value : α → β) (p q : Piece α) : Prop :=
  ∀ {r r' : List Char}, Stops r → Stops r' →
    p.before.chars ++ (text p.content ++ r) = q.before.chars ++ (text q.content ++ r') →
    value p.content = value q.content ∧ r = r'

lemma rest_stops (hclose : Closes close) (gap : Gap) (ps : List (Piece α)) :
    Stops (rest text close gap ps ++ r) := by
  cases ps with
  | nil =>
    rw [rest, List.append_assoc]
    refine gap.stops ?_
    rintro c ⟨⟩
    exact hclose.not_inNumber
  | cons p ps =>
    rw [rest, List.append_assoc]
    refine gap.stops ?_
    rintro c ⟨⟩
    simp [InNumber]

lemma rest_unique (hclose : Closes close) {gap gap' : Gap}
    (agree : ∀ p ∈ ps, ∀ q ∈ qs, Agree text value p q)
    (heq : rest text close gap ps ++ r = rest text close gap' qs ++ r') :
    ps.map (fun p => value p.content) = qs.map (fun q => value q.content) ∧ r = r' := by
  have hcomma : ¬IsBlank ',' := by simp [IsBlank]
  induction ps generalizing qs gap gap' with
  | nil =>
    cases qs with
    | nil =>
      simp only [rest, List.append_assoc, List.cons_append, List.nil_append] at heq
      exact ⟨rfl, (Gap.unique hclose.not_blank hclose.not_blank heq).2⟩
    | cons q qs =>
      simp only [rest, List.append_assoc, List.cons_append, List.nil_append] at heq
      exact absurd (Gap.unique hclose.not_blank hcomma heq).1 hclose.ne_comma
  | cons p ps ih =>
    cases qs with
    | nil =>
      simp only [rest, List.append_assoc, List.cons_append, List.nil_append] at heq
      exact absurd (Gap.unique hcomma hclose.not_blank heq).1.symm hclose.ne_comma
    | cons q qs =>
      simp only [rest, List.append_assoc, List.cons_append] at heq
      obtain ⟨hvalue, hrest⟩ := agree p List.mem_cons_self q List.mem_cons_self
        (rest_stops hclose _ ps) (rest_stops hclose _ qs) (Gap.unique hcomma hcomma heq).2
      obtain ⟨hvalues, rfl⟩ := ih (fun p hp q hq => agree p (List.mem_cons_of_mem _ hp) q
        (List.mem_cons_of_mem _ hq)) hrest
      exact ⟨by rw [List.map_cons, List.map_cons, hvalue, hvalues], rfl⟩

lemma series_unique (hclose : Closes close) {gap gap' : Gap}
    (begins : ∀ p ∈ ps, Begins (text p.content)) (begins' : ∀ q ∈ qs, Begins (text q.content))
    (agree : ∀ p ∈ ps, ∀ q ∈ qs, Agree text value p q)
    (heq : series text close gap ps ++ r = series text close gap' qs ++ r') :
    ps.map (fun p => value p.content) = qs.map (fun q => value q.content) ∧ r = r' := by
  cases ps with
  | nil =>
    cases qs with
    | nil => exact rest_unique hclose agree heq
    | cons q qs =>
      simp only [series, List.append_assoc, List.cons_append, List.nil_append] at heq
      exact absurd heq (hclose.not_begins (begins' q List.mem_cons_self))
  | cons p ps =>
    cases qs with
    | nil =>
      simp only [series, List.append_assoc, List.cons_append, List.nil_append] at heq
      exact absurd heq.symm (hclose.not_begins (begins p List.mem_cons_self))
    | cons q qs =>
      simp only [series, List.append_assoc] at heq
      obtain ⟨hvalue, hrest⟩ := agree p List.mem_cons_self q List.mem_cons_self
        (rest_stops hclose _ ps) (rest_stops hclose _ qs) heq
      obtain ⟨hvalues, rfl⟩ := rest_unique hclose (fun p hp q hq =>
        agree p (List.mem_cons_of_mem _ hp) q (List.mem_cons_of_mem _ hq)) hrest
      exact ⟨by rw [List.map_cons, List.map_cons, hvalue, hvalues], rfl⟩

end

/-- Whether a text that begins as a value's text does is one of that value, and no longer. -/
def Settles (v : Value) (s : List Char) : Prop :=
  ∀ {w : Value} {t r r' : List Char}, Spells w t → Stops r → Stops r' → s ++ r = t ++ r' →
    v = w ∧ r = r'

lemma Item.agree {p q : Piece Item} (hp : Spells p.content.value p.content.text)
    (settles : Settles p.content.value p.content.text)
    (hq : Spells q.content.value q.content.text) : Agree Item.text Item.value p q := by
  intro r r' hr hr' heq
  exact settles hq hr hr' (Gap.unique_of_begins hp.begins hq.begins heq)

lemma Member.agree {p q : Piece Member} (hp : Spells p.content.item.value p.content.item.text)
    (settles : Settles p.content.item.value p.content.item.text)
    (hq : Spells q.content.item.value q.content.item.text) :
    Agree Member.text Member.entry p q := by
  intro r r' hr hr' heq
  have hcolon : ¬IsBlank ':' := by simp [IsBlank]
  have hmember := Gap.unique_of_begins p.content.begins q.content.begins heq
  simp only [text, List.append_assoc, List.cons_append] at hmember
  obtain ⟨hname, hmore⟩ := p.content.quoted.unique q.content.quoted hmember
  have hitem := Gap.unique_of_begins hp.begins hq.begins (Gap.unique hcolon hcolon hmore).2
  obtain ⟨hvalue, hrest⟩ := settles hq hr hr' hitem
  exact ⟨by rw [entry, entry, hname, hvalue], hrest⟩

theorem Spells.settles {v : Value} {s : List Char} (h : Spells v s) : Settles v s := by
  induction h with
  | null =>
    intro w t r r' h' _ _ heq
    have hkind := Spells.null.kind_eq h' heq
    cases h' with
    | null => exact ⟨rfl, List.append_cancel_left heq⟩
    | _ => cases hkind
  | yes =>
    intro w t r r' h' _ _ heq
    have hkind := Spells.yes.kind_eq h' heq
    cases h' with
    | yes => exact ⟨rfl, List.append_cancel_left heq⟩
    | _ => cases hkind
  | no =>
    intro w t r r' h' _ _ heq
    have hkind := Spells.no.kind_eq h' heq
    cases h' with
    | no => exact ⟨rfl, List.append_cancel_left heq⟩
    | _ => cases hkind
  | number form =>
    intro w t r r' h' hr hr' heq
    have hkind := (Spells.number form).kind_eq h' heq
    cases h' with
    | number form' =>
      obtain ⟨rfl, rfl⟩ := run_unique form.inNumber form'.inNumber hr hr' heq
      exact ⟨rfl, rfl⟩
    | _ => cases hkind
  | string form =>
    intro w t r r' h' _ _ heq
    have hkind := (Spells.string form).kind_eq h' heq
    cases h' with
    | string form' =>
      obtain ⟨rfl, rfl⟩ := form.unique form' heq
      exact ⟨rfl, rfl⟩
    | _ => cases hkind
  | array inside parts all ih =>
    intro w t r r' h' _ _ heq
    have hkind := (Spells.array inside parts all).kind_eq h' heq
    cases h' with
    | array inside' parts' all' =>
      obtain ⟨hvalues, rfl⟩ := series_unique (.inl rfl) (fun p hp => (all p hp).begins)
        (fun q hq => (all' q hq).begins)
        (fun p hp q hq => Item.agree (all p hp) (ih p hp) (all' q hq)) (List.cons.inj heq).2
      exact ⟨congrArg Value.array hvalues, rfl⟩
    | _ => cases hkind
  | object inside parts all ih =>
    intro w t r r' h' _ _ heq
    have hkind := (Spells.object inside parts all).kind_eq h' heq
    cases h' with
    | object inside' parts' all' =>
      obtain ⟨hvalues, rfl⟩ := series_unique (.inr rfl) (fun p _ => p.content.begins)
        (fun q _ => q.content.begins)
        (fun p hp q hq => Member.agree (all p hp) (ih p hp) (all' q hq)) (List.cons.inj heq).2
      exact ⟨congrArg Value.object hvalues, rfl⟩
    | _ => cases hkind

lemma Spells.unique {v w : Value} {s : List Char} (h : Spells v s) (h' : Spells w s) : v = w :=
  (h.settles h' stops_nil stops_nil rfl).1

/-- No text is JSON for two values. -/
theorem IsText.unique {v w : Value} {s : List Char} (h : IsText v s) (h' : IsText w s) : v = w := by
  obtain ⟨before, after, core, hv, rfl⟩ := h
  obtain ⟨before', after', core', hw, heq⟩ := h'
  have hstops (gap : Gap) : Stops gap.chars := by simpa using gap.stops stops_nil
  exact (hv.settles hw (hstops after) (hstops after')
    (Gap.unique_of_begins hv.begins hw.begins heq)).1

end EvmListing.Json
