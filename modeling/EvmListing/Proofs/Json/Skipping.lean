import EvmListing.Json.Skip
import EvmListing.Proofs.Json.Numbers
import EvmListing.Proofs.Json.Strings

/-! Values that nobody asked for are passed over up to their ends, whatever they hold: only the
frames that are open tell where an element belongs. -/
namespace EvmListing.Json
open Utf8 (encode)

/-- Goes on with an element of the innermost frame. -/
def goOn (bound : Nat) : List Frame → Scanner Unit
  | [] => return
  | frame :: frames => do
    if frame = .object then skipKey
    skipWithin bound (frame :: frames)

/-- Goes on after a value in the given frames. -/
def resume (bound : Nat) (frames : List Frame) : Scanner Unit :=
  skipEnds false frames >>= goOn bound

/-- Whether a text is passed over as a value is, in any frames and before anything. -/
def Passed (t : List Char) : Prop :=
  ∀ (bound : Nat) (frames : List Frame) (gap : Gap) (r : List Char), Stops r →
    (encode (t ++ r)).length < bound → ∃ bound' > (encode r).length,
      skipWithin bound frames (encode (gap.chars ++ (t ++ r))) = resume bound' frames (encode r)

/-- Whether a text is passed over as an element of a frame is. -/
def PassedIn (frame : Frame) (t : List Char) : Prop :=
  ∀ (bound : Nat) (frames : List Frame) (gap : Gap) (r : List Char), Stops r →
    (encode (t ++ r)).length < bound → ∃ bound' > (encode r).length,
      goOn bound (frame :: frames) (encode (gap.chars ++ (t ++ r))) =
        resume bound' (frame :: frames) (encode r)

def Frame.open : Frame → Char
  | list => '['
  | object => '\x7b'

def Frame.close : Frame → Char
  | list => ']'
  | object => '\x7d'

lemma skipWithin_succ (bound : Nat) (frames : List Frame) :
    skipWithin (bound + 1) frames =
      skipStart >>= fun opened => skipEnds opened.isSome (opened.toList ++ frames) >>= goOn bound :=
  rfl

/-- A value without parts is read in one step. -/
lemma passed_of_skipStart {t : List Char} (given : t ≠ [])
    (h : ∀ (gap : Gap) (r : List Char), Stops r →
      skipStart (encode (gap.chars ++ (t ++ r))) = .ok (none, encode r)) : Passed t := by
  intro bound frames gap r stops hbound
  cases bound with
  | zero => cases hbound
  | succ bound =>
    obtain ⟨c, t, rfl⟩ := List.exists_cons_of_ne_nil given
    obtain ⟨b, bs, hb⟩ := List.exists_cons_of_ne_nil (Utf8.encode_cons_ne_nil c t)
    rw [Utf8.encode_append, hb, List.length_append, List.length_cons] at hbound
    refine ⟨bound, by omega, ?_⟩
    rw [skipWithin_succ, bind_of_ok (h gap r stops)]
    rfl

section
variable (frame : Frame) (frames : List Frame) (gap : Gap) (r : List Char)

lemma skipEnds_close (opened : Bool) :
    skipEnds opened (frame :: frames) (encode (gap.chars ++ frame.close :: r)) =
      skipEnds false frames (encode r) := by
  rw [skipEnds, peekToken_gap]
  cases frame <;> rfl

lemma skipEnds_comma :
    skipEnds false (frame :: frames) (encode (gap.chars ++ ',' :: r)) =
      .ok (frame :: frames, encode r) := by
  rw [skipEnds, peekToken_gap]
  cases frame <;> rfl

variable {frame frames gap r}

lemma skipEnds_begins {t : List Char} (h : Begins t) :
    skipEnds true (frame :: frames) (encode (gap.chars ++ (t ++ r))) =
      .ok (frame :: frames, encode (t ++ r)) := by
  obtain ⟨c, t, rfl, hblank, hbracket, hbrace⟩ := h
  obtain ⟨b, bs, hb⟩ := List.exists_cons_of_ne_nil (Utf8.encode_cons_ne_nil c (t ++ r))
  have hcloser : b ≠ frame.closer := by
    have hne : (encode (c :: (t ++ r))).head? ≠ some (UInt8.ofNat frame.close.toNat) := by
      refine Utf8.head?_ne ?_ fun heq => ?_
      · cases frame <;> decide
      · cases frame
        · exact hbracket (Option.some.inj heq)
        · exact hbrace (Option.some.inj heq)
    rintro rfl
    refine hne ?_
    rw [hb]
    cases frame <;> rfl
  rw [skipEnds, List.cons_append, bind_of_ok (peekToken_cons gap hblank _), hb]
  simp only [List.head?_cons, hcloser, if_false]
  rfl

section
variable {α : Type} {text : α → List Char} {parts : List (Piece α)} {bound : Nat}
  (each : ∀ p ∈ parts, PassedIn frame (text p.content))
include each

/-- From one element on, the frame is passed over up to its end. -/
lemma rest_resume (gap : Gap)
    (hbound : (encode (rest text frame.close gap parts ++ r)).length < bound) :
    ∃ bound' > (encode r).length,
      resume bound (frame :: frames) (encode (rest text frame.close gap parts ++ r)) =
        resume bound' frames (encode r) := by
  have hclose : Closes frame.close := by cases frame <;> simp [Closes, Frame.close]
  induction parts generalizing gap bound with
  | nil =>
    refine ⟨bound, Nat.lt_of_le_of_lt (Utf8.length_encode_le _ r) hbound, ?_⟩
    change (skipEnds false (frame :: frames) _ >>= fun p => goOn bound p.1 p.2) = _
    rw [rest, List.append_assoc, List.cons_append, List.nil_append, skipEnds_close]
    rfl
  | cons p ps ih =>
    obtain ⟨hp, hps⟩ := List.forall_mem_cons.mp each
    rw [rest, List.append_assoc, List.cons_append, List.append_assoc, List.append_assoc] at hbound ⊢
    have hrest : (encode (text p.content ++ (rest text frame.close p.after ps ++ r))).length <
        bound := by
      rw [← List.singleton_append, ← List.append_assoc, ← List.append_assoc] at hbound
      exact Nat.lt_of_le_of_lt (Utf8.length_encode_le _ _) hbound
    obtain ⟨bound', hbound', hresume⟩ := hp bound frames p.before _ (rest_stops hclose _ _) hrest
    obtain ⟨bound'', hbound'', heq⟩ := ih hps p.after hbound'
    refine ⟨bound'', hbound'', ?_⟩
    rw [← heq, ← hresume, resume, bind_of_ok (skipEnds_comma ..)]

/-- Brackets are passed over if what may stand between them is. -/
lemma passed_series (begins : ∀ p ∈ parts, Begins (text p.content)) (inside : Gap) :
    Passed (frame.open :: series text frame.close inside parts) := by
  intro bound frames gap r stops hbound
  have hstart : skipStart (encode (gap.chars ++ frame.open ::
      (series text frame.close inside parts ++ r))) =
      .ok (some frame, encode (series text frame.close inside parts ++ r)) := by
    rw [skipStart, peekToken_gap]
    cases frame <;> rfl
  cases bound with
  | zero => cases hbound
  | succ bound =>
    have hseries : (encode (series text frame.close inside parts ++ r)).length < bound := by
      rw [List.cons_append, Utf8.encode_cons, List.length_append] at hbound
      have hopen : 0 < (String.utf8EncodeChar frame.open).length := by cases frame <;> decide
      omega
    rw [List.cons_append, skipWithin_succ, bind_of_ok hstart]
    cases parts with
    | nil =>
      refine ⟨bound, Nat.lt_of_le_of_lt (Utf8.length_encode_le _ r) hseries, ?_⟩
      change (skipEnds true (frame :: frames) _ >>= fun p => goOn bound p.1 p.2) = _
      rw [series, List.append_assoc, List.cons_append, List.nil_append, skipEnds_close]
      rfl
    | cons p ps =>
      have hclose : Closes frame.close := by cases frame <;> simp [Closes, Frame.close]
      obtain ⟨hp, hps⟩ := List.forall_mem_cons.mp each
      rw [series, List.append_assoc, List.append_assoc] at hseries ⊢
      have hrest := Nat.lt_of_le_of_lt (Utf8.length_encode_le _ _) hseries
      obtain ⟨bound', hbound', hresume⟩ := hp bound frames .none _ (rest_stops hclose _ _) hrest
      obtain ⟨bound'', hbound'', heq⟩ := rest_resume hps p.after hbound'
      refine ⟨bound'', hbound'', ?_⟩
      rw [← heq, ← hresume]
      exact bind_of_ok (skipEnds_begins (begins p List.mem_cons_self)) _

end

end

lemma passed_literal {t : List Char} (given : t ≠ [])
    (h : ∀ r, skipStart (encode (t ++ r)) = .ok (none, encode r)) : Passed t := by
  refine passed_of_skipStart given fun gap r _ => ?_
  rw [skipStart, peekToken_gap]
  exact h r

lemma skipStart_digit {b : UInt8} (h : isDigit b = true) (t : Bytes) :
    skipStart (b :: t) = (skipNumber >>= fun _ => pure none) (b :: t) := by
  have hn : b = ⟨110#8⟩ → False := ne_of_isDigit h rfl
  have ht : b = ⟨116#8⟩ → False := ne_of_isDigit h rfl
  have hf : b = ⟨102#8⟩ → False := ne_of_isDigit h rfl
  have hminus : b = ⟨45#8⟩ → False := ne_of_isDigit h rfl
  have hquote : b = ⟨34#8⟩ → False := ne_of_isDigit h rfl
  have hbracket : b = ⟨91#8⟩ → False := ne_of_isDigit h rfl
  have hbrace : b = ⟨123#8⟩ → False := ne_of_isDigit h rfl
  have hpeek : peekToken (b :: t) = .ok (some b, b :: t) := by
    have hblank : ¬isBlank b = true := by
      simp only [isBlank, Bool.or_eq_true, beq_iff_eq, not_or]
      exact ⟨⟨⟨ne_of_isDigit h rfl, ne_of_isDigit h rfl⟩, ne_of_isDigit h rfl⟩, ne_of_isDigit h rfl⟩
    change Except.ok _ = _
    rw [List.dropWhile_cons_of_neg hblank]
    rfl
  rw [skipStart, bind_of_ok hpeek]
  simp only [h, if_true]

lemma IsNumber.passed {s : List Char} (h : IsNumber s) : Passed s := by
  obtain ⟨c, t, hc, -⟩ := h.first
  refine passed_of_skipStart (hc ▸ List.cons_ne_nil c t) fun gap r stops => ?_
  rw [skipStart, peekToken_gap]
  cases h with
  | @parts sign whole fraction exponent signed before after power =>
    have hskip := skipNumber_encode before after power stops
    obtain rfl | rfl := signed
    · obtain ⟨d, ds, rfl⟩ := List.exists_cons_of_ne_nil before.digits.1
      obtain ⟨b, hb, -, hencode⟩ := encode_digit (before.digits.2 d List.mem_cons_self)
        (ds ++ (fraction ++ (exponent ++ r)))
      simp only [List.append_assoc, List.cons_append, List.nil_append] at hskip ⊢
      change skipStart _ = _
      rw [hencode] at hskip ⊢
      rw [skipStart_digit hb, bind_of_ok hskip]
      rfl
    · simp only [List.append_assoc, List.cons_append, List.nil_append]
      change (skipNumber >>= fun _ => pure none) (encode (whole ++ _)) = _
      rw [bind_of_ok hskip]
      rfl

lemma IsString.passed {s : List Char} (h : IsString s) : Passed s := by
  obtain ⟨t, ht, rfl⟩ := h
  refine passed_of_skipStart (List.cons_ne_nil _ _) fun gap r _ => ?_
  rw [skipStart, peekToken_gap]
  change (skipString >>= fun _ => pure none) (encode (t ++ r)) = _
  rw [bind_of_ok (ht.skipString r)]
  rfl

lemma Passed.list {t : List Char} (h : Passed t) : PassedIn .list t :=
  fun bound frames => h bound (.list :: frames)

lemma skipKey_encode {s : List Char} (h : IsString s) (gap gap' : Gap) (r : List Char) :
    skipKey (encode (gap.chars ++ (s ++ (gap'.chars ++ ':' :: r)))) = .ok ((), encode r) := by
  obtain ⟨t, ht, rfl⟩ := h
  rw [skipKey, peekToken_gap]
  change (skipString >>= fun _ => colon) (encode (t ++ (gap'.chars ++ ':' :: r))) = _
  rw [bind_of_ok (ht.skipString _), colon_encode]

lemma Entry.passed {e : Entry} (h : Passed e.value) : PassedIn .object e.text := by
  intro bound frames gap r stops hbound
  have hkey := skipKey_encode e.literal gap e.beforeColon (e.afterColon.chars ++ (e.value ++ r))
  have hlength : (encode (e.value ++ r)).length < bound := by
    have htext : e.text ++ r = (e.key ++ (e.beforeColon.chars ++ ':' :: e.afterColon.chars)) ++
        (e.value ++ r) := by simp [Entry.text]
    rw [htext] at hbound
    exact Nat.lt_of_le_of_lt (Utf8.length_encode_le _ _) hbound
  obtain ⟨bound', hbound', heq⟩ := h bound (.object :: frames) e.afterColon r stops hlength
  refine ⟨bound', hbound', ?_⟩
  rw [← heq]
  simp only [Entry.text, List.append_assoc, List.cons_append]
  exact bind_of_ok hkey _

theorem IsValue.passed {t : List Char} (h : IsValue t) : Passed t := by
  induction h with
  | null => exact passed_literal (List.cons_ne_nil _ _) fun _ => rfl
  | yes => exact passed_literal (List.cons_ne_nil _ _) fun _ => rfl
  | no => exact passed_literal (List.cons_ne_nil _ _) fun _ => rfl
  | number form => exact form.passed
  | string form => exact form.passed
  | array inside parts all ih =>
    have hbegins : ∀ p ∈ parts, Begins (id p.content) := fun p hp => (all p hp).begins
    exact passed_series (fun p hp => (ih p hp).list) hbegins inside
  | object inside parts all ih =>
    exact passed_series (fun p hp => Entry.passed (ih p hp)) (fun p _ => p.content.begins) inside

/-- A value that nobody asked for is passed over, whatever comes before it and after it. -/
theorem IsValue.skip {t : List Char} (h : IsValue t) (gap : Gap) {r : List Char} (stops : Stops r) :
    skipValue (encode (gap.chars ++ (t ++ r))) = .ok ((), encode r) := by
  have hlength := Utf8.length_encode_le gap.chars (t ++ r)
  obtain ⟨bound, hbound, heq⟩ := h.passed _ [] gap r stops (Nat.lt_succ_of_le hlength)
  change skipWithin _ [] (encode (gap.chars ++ (t ++ r))) = _
  rw [heq]
  rfl

end EvmListing.Json
