import EvmListing.Proofs.Cbor.Reading
import EvmListing.Proofs.Metadata.Partition

/-! What a split removes, and what comes of removing again. The marker only says that something is to
be removed; what is removed is told by the end of the code. -/
namespace EvmListing

lemma markedAt_front_iff {r code : Bytes} (h : r <+: code) (i : Nat) :
    MarkedAt r i ↔ MarkedAt code i ∧ i + 1 < r.length := by
  obtain ⟨rest, rfl⟩ := h
  constructor
  · intro hi
    have hlt := hi.lt_length
    refine ⟨?_, hlt⟩
    rw [MarkedAt, List.getElem?_append_left (by omega), List.getElem?_append_left hlt]
    exact hi
  · rintro ⟨hi, hlt⟩
    rw [MarkedAt, List.getElem?_append_left (by omega), List.getElem?_append_left hlt] at hi
    exact hi

namespace Metadata
open Cbor (Item IsMapHead)

section
variable {payload rest : Bytes} {entries : List (Item × Item)}

/-- A map begins with the head of one. -/
lemma isMapHead_of_item (h : Cbor.item payload = .ok (.map entries, rest)) :
    ∃ b ∈ payload.head?, IsMapHead b := by
  obtain ⟨length, u, r, hheader, -, -⟩ := Cbor.itemWith_map_ok h
  cases payload with
  | nil => cases hheader
  | cons b payload => exact ⟨b, rfl, Cbor.header_map hheader⟩

/-- The marker is the head of a map of two entries and that of a key of four bytes. -/
lemma entries_of_marker (h : Cbor.item (0xA2 :: 0x64 :: payload) = .ok (.map entries, rest)) :
    ∃ content key value other, content.length = 4 ∧ Utf8.decode? content = some key ∧
      entries = [(.text (String.ofList key), value), other] := by
  obtain ⟨length, u, r, hheader, hr, hentries⟩ := Cbor.itemWith_map_ok h
  cases hheader
  cases hr
  obtain ⟨first, u, more, hfirst, hmore, rfl⟩ := Cbor.exactly_ok hentries
  obtain ⟨other, u', none, -, hnone, rfl⟩ := Cbor.exactly_ok hmore
  cases hnone
  -- the key is read one level down, from where the second byte of the marker stands
  obtain ⟨v, hkey, -⟩ := Cbor.entry_ok hfirst
  obtain ⟨content, key, hlength, hdecode, hfirst⟩ := Cbor.itemWith_text_ok rfl (by decide) hkey
  refine ⟨content, key, first.2, other, hlength, hdecode, ?_⟩
  rw [← hfirst]

end

lemma ofPayload_nil : ofPayload [] = .error (.invalid .endOfInput 0) := rfl

section
variable {scan : Scan} {code runtime payload field : Bytes} {m : Metadata}

/-- What is left is the front of the code, and a map has at least one byte. -/
lemma Removed.shorter (h : Removed scan code runtime payload field m) :
    runtime <+: code ∧ runtime.length + 3 ≤ code.length := by
  obtain ⟨-, rfl, width, -, m', hm, -⟩ := h
  have hpayload : 0 < payload.length := by
    apply List.length_pos_iff.mpr
    rintro rfl
    cases ofPayload_nil.symm.trans hm
  refine ⟨⟨payload ++ field, (List.append_assoc _ _ _).symm⟩, ?_⟩
  rw [List.length_append, List.length_append, width, lengthField]
  omega

/-- What is removed is one map with text keys and a field with its length, so it begins with the head
of a map. Where it begins with the marker the map has two entries, the first of them under a key of
four bytes. -/
theorem split_removes_map (h : split scan code = .ok (runtime, some m)) :
    scan.Sees code ∧ ∃ payload field entries,
      code = runtime ++ payload ++ field ∧ field.length = 2 ∧ bigEndian field = payload.length ∧
      m.length = payload.length + 2 ∧
      Cbor.item payload = .ok (.map entries, []) ∧ (∀ e ∈ entries, ∃ key, e.1 = .text key) ∧
      (∃ b ∈ payload.head?, IsMapHead b) ∧
      ([0xA2, 0x64] <+: payload → ∃ content key value other, content.length = 4 ∧
        Utf8.decode? content = some key ∧ entries = [(.text (String.ofList key), value), other]) := by
  obtain ⟨payload, field, seen, parts, width, declared, m', hm, rfl⟩ := split_ok h
  obtain ⟨entries, hentries, hkeys⟩ := (ofPayload_ok_iff payload).mp ⟨m', hm⟩
  refine ⟨seen, payload, field, entries, parts, width, declared, rfl, hentries, hkeys,
    isMapHead_of_item hentries, ?_⟩
  rintro ⟨rest, rfl⟩
  exact entries_of_marker hentries

end

/-- A map that begins with the marker, behind a code of one byte. -/
theorem split_removes_marked_map :
    let code : Bytes := [0x00, 0xA2, 0x64, 0x61, 0x62, 0x63, 0x64, 0x01, 0x61, 0x61, 0x02, 0x00, 0x0A]
    split (.trailing 12) code =
        .ok ([0x00], some { extra := [("a", "2"), ("abcd", "1")], length := 12 }) ∧
      ∃ payload field, code = [0x00] ++ payload ++ field ∧ field.length = 2 ∧
        bigEndian field = payload.length ∧ ∃ b ∈ payload.head?, IsMapHead b := by
  intro code
  have hsplit : split (.trailing 12) code =
      .ok ([0x00], some { extra := [("a", "2"), ("abcd", "1")], length := 12 }) := rfl
  obtain ⟨-, payload, field, entries, parts, width, declared, -, -, -, head, -⟩ :=
    split_removes_map hsplit
  exact ⟨hsplit, payload, field, parts, width, declared, head⟩

/-- The marker may stand in the operand of a push, before the map that is removed. -/
theorem removed_without_marker :
    ¬∀ scan code runtime m, split scan code = .ok (runtime, some m) →
      [0xA2, 0x64] <+: code.drop runtime.length := by
  intro h
  have hmarker := h .anywhere [0x61, 0xA2, 0x64, 0xA0, 0x00, 0x01] [0x61, 0xA2, 0x64]
    { length := 3 } rfl
  exact absurd hmarker (by decide)

lemma strip_ok {code r : Bytes} (h : strip code = .ok r) :
    ∃ m, split .anywhere code = .ok (r, m) := by
  unfold strip at h
  cases hsplit : split .anywhere code with
  | error fault =>
    rw [hsplit] at h
    cases h
  | ok cut =>
    rw [hsplit] at h
    cases h
    exact ⟨cut.2, rfl⟩

lemma strip_of_unmarked {code : Bytes} (h : ¬∃ i, MarkedAt code i) : strip code = .ok code := by
  have unseen : ¬Scan.anywhere.Sees code := h
  rw [strip, split_of_not_sees unseen]
  rfl

/-- A code that holds the marker is shortened, if what is at its end is metadata. -/
lemma strip_shortens {code r : Bytes} (seen : ∃ i, MarkedAt code i) (h : strip code = .ok r) :
    r <+: code ∧ r.length + 3 ≤ code.length := by
  obtain ⟨m, hsplit⟩ := strip_ok h
  cases m with
  | none => exact absurd seen (split_ok hsplit).2
  | some m =>
    obtain ⟨payload, field, removed⟩ := split_ok hsplit
    exact removed.shorter

lemma strip_front {code r : Bytes} (h : strip code = .ok r) : r <+: code := by
  by_cases seen : ∃ i, MarkedAt code i
  · exact (strip_shortens seen h).1
  · rw [strip_of_unmarked seen] at h
    cases h
    exact List.prefix_rfl

theorem strip_eq_self_iff (code : Bytes) : strip code = .ok code ↔ ¬∃ i, MarkedAt code i := by
  refine ⟨fun h seen => ?_, strip_of_unmarked⟩
  have hlt := (strip_shortens seen h).2
  omega

/-- Stripping what was left by stripping changes nothing if and only if none of the markers of the
code is left in it. Otherwise it fails, or cuts off more. -/
theorem strip_idempotent_iff {code r : Bytes} (h : strip code = .ok r) :
    (strip r = .ok r ↔ ∀ i, MarkedAt code i → r.length ≤ i + 1) ∧
    ((∃ i, MarkedAt code i ∧ i + 1 < r.length) → (∃ fault, strip r = .error fault) ∨
      ∃ r', strip r = .ok r' ∧ r' <+: r ∧ r'.length + 3 ≤ r.length) := by
  have hmarked := markedAt_front_iff (strip_front h)
  constructor
  · rw [strip_eq_self_iff]
    simp only [hmarked, not_exists, not_and, Nat.not_lt]
  · rintro ⟨i, hi⟩
    have seen : ∃ i, MarkedAt r i := ⟨i, (hmarked i).mpr hi⟩
    cases hr : strip r with
    | error fault => exact .inl ⟨fault, rfl⟩
    | ok r' => exact .inr ⟨r', rfl, strip_shortens seen hr⟩

/-- The two bytes of the marker in the other order are none. -/
theorem strip_idempotent_reversed :
    let code : Bytes := [0x61, 0x64, 0xA2, 0xA2, 0x64, 0x61, 0x62, 0x63, 0x64, 0x01, 0x61, 0x61, 0x02,
      0x00, 0x0A]
    strip code = .ok [0x61, 0x64, 0xA2] ∧ strip [0x61, 0x64, 0xA2] = .ok [0x61, 0x64, 0xA2] ∧
      ∀ i, MarkedAt code i → 3 ≤ i + 1 := by
  intro code
  have hstrip : strip code = .ok [0x61, 0x64, 0xA2] := rfl
  exact ⟨hstrip, rfl, (strip_idempotent_iff hstrip).1.mp rfl⟩

/-- A marker in the operand of a push stays when the map behind it is removed. Then the operand is
taken for a length field. -/
theorem strip_not_idempotent :
    strip [0x61, 0xA2, 0x64, 0xA0, 0x00, 0x01] = .ok [0x61, 0xA2, 0x64] ∧
      strip [0x61, 0xA2, 0x64] = .error (.tooLong 41574 3) := ⟨rfl, rfl⟩

end Metadata
end EvmListing
