import EvmListing.Proofs.Json.Fields
import EvmListing.Proofs.Settings.Reading
import EvmListing.Report

/-! Settings written as JSON are read back as they were, up to the greatest window that fits 64
bits; no greater window is read at all. -/
namespace EvmListing.Settings
open Json

/-- Whether the window, if there is one, is a number of bytes. -/
def Fits (s : Settings) : Prop := ∀ n, s.scan = .trailing n → n < 2^64

lemma holds_document (s : Settings) (fits : s.Fits) :
    (Setting.stripMetadata s.stripMetadata).Holds (Document.bool s.stripMetadata).value ∧
      (Setting.scan s.scan).Holds s.scan.document.value ∧
      (Setting.unassigned s.unassigned).Holds s.unassigned.document.value := by
  obtain ⟨strip, scan, unassigned⟩ := s
  refine ⟨rfl, ?_, ?_⟩
  · cases scan with
    | anywhere => exact .inl rfl
    | trailing n => exact ⟨_, Document.nat?_number n, fits n rfl, rfl⟩
  · cases unassigned with
    | sentinel => exact .inl rfl
    | reject => exact .inl rfl

/-- Any JSON text of settings is read as these settings. -/
theorem ofJson_of_isText {s : Settings} (fits : s.Fits) {text : String}
    (h : IsText s.document.value text.toList) : ofJson text = .ok s := by
  obtain ⟨hstrip, hscan, hunassigned⟩ := holds_document s fits
  obtain ⟨t, rfl, hentries⟩ := exists_objectText h
  obtain ⟨e₁, es₁, ⟨hkey₁, hvalue₁⟩, hes₁, heq⟩ := List.forall₂_cons_right_iff.mp hentries
  obtain ⟨e₂, es₂, ⟨hkey₂, hvalue₂⟩, hes₂, rfl⟩ := List.forall₂_cons_right_iff.mp hes₁
  obtain ⟨e₃, es₃, ⟨hkey₃, hvalue₃⟩, hes₃, rfl⟩ := List.forall₂_cons_right_iff.mp hes₂
  obtain rfl := List.forall₂_nil_right_iff.mp hes₃
  refine (ofJson_iff t s).mpr ⟨⟨some s.stripMetadata, some s.scan, some s.unassigned⟩, ?_, rfl⟩
  have hgives₁ : Gives e₁ (.stripMetadata s.stripMetadata) := ⟨hkey₁, _, hstrip, hvalue₁⟩
  have hgives₂ : Gives e₂ (.scan s.scan) := ⟨hkey₂, _, hscan, hvalue₂⟩
  have hgives₃ : Gives e₃ (.unassigned s.unassigned) := ⟨hkey₃, _, hunassigned, hvalue₃⟩
  rw [heq]
  exact .field hgives₁ rfl (.field hgives₂ rfl (.field hgives₃ rfl (.done _)))

lemma scan_document_injective {m n : Scan} (h : m.document.value = n.document.value) : m = n := by
  cases m with
  | anywhere =>
    cases n with
    | anywhere => rfl
    | trailing n => cases h
  | trailing m =>
    cases n with
    | anywhere => cases h
    | trailing n =>
      simp only [Scan.document, Document.value, Document.memberValues, Value.object.injEq,
        List.cons.injEq, Prod.mk.injEq, Value.number.injEq, true_and, and_true] at h
      rw [decimal_injective h]

lemma policy_document_injective {p q : Policy} (h : p.document.value = q.document.value) :
    p = q := by
  cases p <;> cases q <;> simp [Policy.document, Document.value] at h ⊢

theorem compact_injective {s s' : Settings} (h : s.document.compact = s'.document.compact) :
    s = s' := by
  have hvalue : s.document.value = s'.document.value := by
    rw [← Document.isText_compact_iff, ← h, Document.isText_compact_iff]
  obtain ⟨strip, scan, unassigned⟩ := s
  obtain ⟨strip', scan', unassigned'⟩ := s'
  simp only [Settings.document, Document.value, Document.memberValues, Value.object.injEq,
    List.cons.injEq, Prod.mk.injEq, Value.bool.injEq, true_and, and_true] at hvalue
  obtain ⟨rfl, hscan, hunassigned⟩ := hvalue
  rw [scan_document_injective hscan, policy_document_injective hunassigned]

/-- A window alone. -/
lemma isText_window (n : Nat) :
    IsText (.object [("metadata_scan", (Scan.trailing n).document.value)])
      ("\x7b\"metadata_scan\":\x7b\"trailing\":" ++ toString n ++ "\x7d\x7d").toList := by
  have hcompact : (Document.object [("metadata_scan", (Scan.trailing n).document)]).compact =
      "\x7b\"metadata_scan\":\x7b\"trailing\":" ++ toString n ++ "\x7d\x7d" := by
    rw [← String.toList_inj, Document.compact, Nat.toString_eq_ofList_toDigits]
    simp [Document.render, Document.renderMembers, Document.enclose, Document.onOneLine,
      Scan.document, Document.quote, Document.escape]
  rw [← hcompact]
  exact Document.isText_compact (.object [("metadata_scan", (Scan.trailing n).document)])

lemma holds_window {n : Nat} {x : Setting} (hfield : x.field = .scan)
    (h : x.Holds (Scan.trailing n).document.value) : x = .scan (.trailing n) ∧ n < 2^64 := by
  cases x <;> cases hfield
  rename_i scan
  cases scan with
  | anywhere => obtain h | h := h <;> simp [Scan.document, Document.value] at h
  | trailing m =>
    obtain ⟨w, hw, hm, heq⟩ := h
    simp only [Scan.document, Document.value, Document.memberValues, Value.object.injEq,
      List.cons.injEq, Prod.mk.injEq, true_and, and_true] at heq
    subst heq
    obtain rfl := Option.some.inj ((Document.nat?_number n).symm.trans hw)
    exact ⟨rfl, hm⟩

/-- A window alone is read if it fits, with the default for all else. -/
lemma ofJson_window (n : Nat) (s : Settings) :
    ofJson ("\x7b\"metadata_scan\":\x7b\"trailing\":" ++ toString n ++ "\x7d\x7d") = .ok s ↔
      n < 2^64 ∧ s = { scan := .trailing n } := by
  obtain ⟨t, ht, hentries⟩ := exists_objectText (isText_window n)
  obtain ⟨e, es, ⟨hkey, hvalue⟩, hes, heq⟩ := List.forall₂_cons_right_iff.mp hentries
  obtain rfl := List.forall₂_nil_right_iff.mp hes
  rw [← ht, ofJson_iff, heq]
  constructor
  · rintro ⟨fields, hfields, rfl⟩
    cases hfields with
    | field gives fresh more =>
      obtain ⟨hfor, v, hv, hspells⟩ := gives
      obtain rfl := hspells.unique hvalue
      obtain ⟨rfl, hn⟩ := holds_window (IsFor.unique hfor hkey) hv
      cases more
      exact ⟨hn, rfl⟩
    | foreign other _ =>
      have hscan : IsFor .scan e := hkey
      exact absurd hscan other.not_isFor
  · rintro ⟨hn, rfl⟩
    have hgives : Gives e (.scan (.trailing n)) :=
      ⟨hkey, _, ⟨_, Document.nat?_number n, hn, rfl⟩, hvalue⟩
    exact ⟨_, .field hgives rfl (.done _), rfl⟩

/-- Settings survive JSON, and different ones have different texts; a window is read as it is
written, or not at all from 2^64 on. -/
theorem settings_survive_json :
    (∀ s : Settings, s.Fits → ofJson s.document.compact = .ok s) ∧
    (∀ s s' : Settings, s ≠ s' → s.document.compact ≠ s'.document.compact) ∧
    ∀ n : Nat,
      (n < 2^64 → ofJson ("\x7b\"metadata_scan\":\x7b\"trailing\":" ++ toString n ++ "\x7d\x7d") =
        .ok { scan := .trailing n }) ∧
      (2^64 ≤ n → ∃ message,
        ofJson ("\x7b\"metadata_scan\":\x7b\"trailing\":" ++ toString n ++ "\x7d\x7d") =
          .error message) := by
  refine ⟨fun s fits => ofJson_of_isText fits (Document.isText_compact _),
    fun s s' => mt compact_injective, fun n => ⟨fun hn => ?_, fun hn => ?_⟩⟩
  · exact (ofJson_window n _).mpr ⟨hn, rfl⟩
  · exact exists_error fun s hs => Nat.not_lt.mpr hn ((ofJson_window n s).mp hs).1

theorem settings_survive_json_edge :
    ofJson ({ stripMetadata := false, scan := .trailing (2^64 - 1) } : Settings).document.compact =
      .ok { stripMetadata := false, scan := .trailing (2^64 - 1) } ∧
    ofJson ("\x7b\"metadata_scan\":\x7b\"trailing\":" ++ toString (2^64 - 1) ++ "\x7d\x7d") =
      .ok { scan := .trailing (2^64 - 1) } ∧
    ∃ message, ofJson ("\x7b\"metadata_scan\":\x7b\"trailing\":" ++ toString (2^64) ++ "\x7d\x7d") =
      .error message := by
  obtain ⟨hall, -, hwindow⟩ := settings_survive_json
  have fits : Fits { stripMetadata := false, scan := .trailing (2^64 - 1) } := by
    rintro n ⟨⟩
    decide
  exact ⟨hall _ fits, (hwindow (2^64 - 1)).1 (by decide), (hwindow (2^64)).2 (Nat.le_refl _)⟩

end EvmListing.Settings
