import EvmListing.Proofs.Metadata.Places
import EvmListing.Report
import Mathlib.Data.List.Basic

/-! When a code is split and where. The marker only decides whether the end of the code is looked
at; what stands there decides whether it is metadata. -/
namespace EvmListing

/-- Whether the marker stands at an index of a code. -/
def MarkedAt (code : Bytes) (i : Nat) : Prop := code[i]? = some 0xA2 ∧ code[i + 1]? = some 0x64

/-- Whether the marker stands at an index that a scan looks at. -/
def Scan.Sees (code : Bytes) : Scan → Prop
  | .anywhere => ∃ i, MarkedAt code i
  | .trailing window => ∃ i, code.length ≤ i + window ∧ MarkedAt code i

theorem marked_iff (bs : Bytes) : marked bs = true ↔ ∃ i, MarkedAt bs i := by
  induction bs with
  | nil => simp [marked, MarkedAt]
  | cons a bs ih =>
    cases bs with
    | nil => simp [marked, MarkedAt]
    | cons b rest =>
      rw [marked, Bool.or_eq_true, ih, Bool.and_eq_true, beq_iff_eq, beq_iff_eq]
      constructor
      · rintro (⟨rfl, rfl⟩ | ⟨i, hi⟩)
        · exact ⟨0, rfl, rfl⟩
        · exact ⟨i + 1, hi⟩
      · rintro ⟨i, hi⟩
        cases i with
        | zero => exact .inl ⟨Option.some.inj hi.1, Option.some.inj hi.2⟩
        | succ i => exact .inr ⟨i, hi⟩

/-- Looking at the end of a code is looking at its later indices. -/
theorem Scan.finds_iff (scan : Scan) (code : Bytes) : scan.finds code = true ↔ scan.Sees code := by
  rw [finds, marked_iff]
  cases scan with
  | anywhere => exact Iff.rfl
  | trailing window =>
    simp only [region, Sees, MarkedAt, List.getElem?_drop]
    constructor
    · rintro ⟨i, h⟩
      exact ⟨code.length - window + i, by omega, h⟩
    · rintro ⟨i, hle, h⟩
      refine ⟨i - (code.length - window), ?_⟩
      have hi : code.length - window + (i - (code.length - window)) = i := by omega
      rwa [← Nat.add_assoc, hi]

lemma MarkedAt.lt_length {code : Bytes} {i : Nat} (h : MarkedAt code i) : i + 1 < code.length :=
  (List.getElem?_eq_some_iff.mp h.2).1

lemma Scan.Sees.anywhere {scan : Scan} {code : Bytes} (h : scan.Sees code) :
    Scan.anywhere.Sees code := by
  cases scan with
  | anywhere => exact h
  | trailing window =>
    obtain ⟨i, -, hi⟩ := h
    exact ⟨i, hi⟩

/-- A marker has two bytes, so a code where it is seen has as many. -/
lemma Scan.Sees.two_le {scan : Scan} {code : Bytes} (h : scan.Sees code) : 2 ≤ code.length := by
  obtain ⟨i, hi⟩ := h.anywhere
  have := hi.lt_length
  omega

namespace Metadata
open Cbor (Item)

/-- Whether bytes are one item and nothing more, a map whose keys are all texts. -/
def IsTextMap (payload : Bytes) : Prop :=
  ∃ entries, Cbor.item payload = .ok (.map entries, []) ∧ ∀ e ∈ entries, ∃ key, e.1 = .text key

theorem ofEntries_ok_iff (m : Metadata) (entries : List (Item × Item)) :
    (∃ m', ofEntries m entries = .ok m') ↔ ∀ e ∈ entries, ∃ key, e.1 = .text key := by
  induction entries generalizing m with
  | nil => simp [ofEntries]
  | cons e entries ih =>
    obtain ⟨key, value⟩ := e
    cases key with
    | text key => simp [ofEntries, ih]
    | _ => simp [ofEntries]

/-- A record is made of the maps with text keys and of nothing else. -/
theorem ofPayload_ok_iff (payload : Bytes) :
    (∃ m, ofPayload payload = .ok m) ↔ IsTextMap payload := by
  unfold ofPayload
  split
  · next fault hitem => simp [IsTextMap, hitem]
  · next entries hitem =>
    have hkeys : IsTextMap payload ↔ ∀ e ∈ entries, ∃ key, e.1 = .text key := by
      simp [IsTextMap, hitem]
    rw [hkeys, ← ofEntries_ok_iff {}]
    cases ofEntries {} entries <;> simp [Except.mapError]
  · next item hmap hitem =>
    simp only [IsTextMap, hitem, reduceCtorEq, exists_false, false_iff]
    rintro ⟨entries, hentries, -⟩
    cases hentries
    exact hmap entries rfl
  · next item rest hmap hnil hitem =>
    simp only [IsTextMap, hitem, reduceCtorEq, exists_false, false_iff]
    rintro ⟨entries, hentries, -⟩
    cases hentries
    exact hmap entries rfl rfl

section
variable {scan : Scan} {code : Bytes}

theorem split_of_not_sees (h : ¬scan.Sees code) : split scan code = .ok (code, none) := by
  rw [← Scan.finds_iff] at h
  rw [split, if_neg h]

/-- A length field that promises more bytes than there are before it. -/
theorem split_of_short {front field : Bytes} (found : scan.finds (front ++ field) = true)
    (hfield : field.length = lengthField) (short : front.length < bigEndian field) :
    split scan (front ++ field) =
      .error (.tooLong (bigEndian field + lengthField) (front ++ field).length) := by
  have hlast : (front ++ field).drop ((front ++ field).length - lengthField) = field := by
    rw [List.length_append, hfield, Nat.add_sub_cancel, List.drop_left]
  have hlong : (front ++ field).length < bigEndian field + lengthField := by
    rw [List.length_append, hfield]
    exact Nat.add_lt_add_right short lengthField
  simp only [split, if_pos found, hlast, if_pos hlong]

/-- A length field that promises some of the bytes before it has these read as metadata. -/
theorem split_of_fits {runtime payload field : Bytes}
    (found : scan.finds (runtime ++ payload ++ field) = true) (hfield : field.length = lengthField)
    (declared : bigEndian field = payload.length) :
    split scan (runtime ++ payload ++ field) = (ofPayload payload).map fun m =>
      (runtime, some { m with length := payload.length + lengthField }) := by
  have hlength : (runtime ++ payload ++ field).length =
      runtime.length + (payload.length + lengthField) := by
    simp only [List.length_append, hfield, Nat.add_assoc]
  have hlast : (runtime ++ payload ++ field).drop
      ((runtime ++ payload ++ field).length - lengthField) = field := by
    rw [hlength, ← Nat.add_assoc, Nat.add_sub_cancel, ← List.length_append, List.drop_left]
  have hfits : ¬(runtime ++ payload ++ field).length < payload.length + lengthField := by omega
  have hstart : (runtime ++ payload ++ field).length - (payload.length + lengthField) =
      runtime.length := by omega
  have hpayload : ((runtime ++ payload ++ field).drop runtime.length).take payload.length =
      payload := by
    rw [List.append_assoc, List.drop_left, List.take_left]
  have hruntime : (runtime ++ payload ++ field).take runtime.length = runtime := by
    rw [List.append_assoc, List.take_left]
  simp only [split, if_pos found, hlast, declared, if_neg hfits, hstart, hpayload, hruntime]
  cases ofPayload payload <;> rfl

end

/-- What a split does with a code, by what stands at the end of the code. -/
inductive Cut (scan : Scan) : Bytes → Except Fault (Bytes × Option Metadata) → Prop
  | unmarked {code : Bytes} (unseen : ¬scan.Sees code) : Cut scan code (.ok (code, none))
  | short {front field : Bytes} (seen : scan.Sees (front ++ field))
      (hfield : field.length = lengthField) (short : front.length < bigEndian field) :
      Cut scan (front ++ field)
        (.error (.tooLong (bigEndian field + lengthField) (front ++ field).length))
  | fits {runtime payload field : Bytes} (seen : scan.Sees (runtime ++ payload ++ field))
      (hfield : field.length = lengthField) (declared : bigEndian field = payload.length) :
      Cut scan (runtime ++ payload ++ field) ((ofPayload payload).map fun m =>
        (runtime, some { m with length := payload.length + lengthField }))

theorem cut_split (scan : Scan) (code : Bytes) : Cut scan code (split scan code) := by
  by_cases seen : scan.Sees code
  · have found := (scan.finds_iff code).mpr seen
    obtain ⟨front, field, rfl, hfield⟩ :
        ∃ front field, code = front ++ field ∧ field.length = lengthField := by
      have htwo := seen.two_le
      refine ⟨_, _, (List.take_append_drop (code.length - lengthField) code).symm, ?_⟩
      rw [List.length_drop, lengthField]
      omega
    by_cases short : front.length < bigEndian field
    · rw [split_of_short found hfield short]
      exact .short seen hfield short
    · obtain ⟨runtime, payload, rfl, declared⟩ :
          ∃ runtime payload, front = runtime ++ payload ∧ bigEndian field = payload.length := by
        refine ⟨_, _, (List.take_append_drop (front.length - bigEndian field) front).symm, ?_⟩
        rw [List.length_drop]
        omega
      rw [split_of_fits found hfield declared]
      exact .fits seen hfield declared
  · rw [split_of_not_sees seen]
    exact .unmarked seen

/-- What a split took off the end of a code: the bytes of a map and the field with their number. -/
structure Removed (scan : Scan) (code runtime payload field : Bytes) (m : Metadata) : Prop where
  seen : scan.Sees code
  parts : code = runtime ++ payload ++ field
  width : field.length = lengthField
  declared : bigEndian field = payload.length
  record : ∃ m', ofPayload payload = .ok m' ∧ m = { m' with length := payload.length + lengthField }

/-- Only a code in which no marker is seen is left whole. -/
theorem split_ok {scan : Scan} {code runtime : Bytes} {found : Option Metadata}
    (h : split scan code = .ok (runtime, found)) :
    match found with
    | none => runtime = code ∧ ¬scan.Sees code
    | some m => ∃ payload field, Removed scan code runtime payload field m := by
  have hcut := cut_split scan code
  rw [h] at hcut
  generalize hresult : Except.ok (runtime, found) = result at hcut
  cases hcut with
  | unmarked unseen =>
    cases hresult
    exact ⟨rfl, unseen⟩
  | short => cases hresult
  | @fits runtime' payload field seen hfield declared =>
    cases hm : ofPayload payload with
    | error fault =>
      rw [hm] at hresult
      cases hresult
    | ok m =>
      rw [hm] at hresult
      cases hresult
      exact ⟨payload, field, seen, rfl, hfield, declared, m, hm, rfl⟩

/-- What was split off tells by how much the code is longer than its executable part. -/
theorem length_of_split {scan : Scan} {code runtime : Bytes} {m : Option Metadata}
    (h : split scan code = .ok (runtime, m)) :
    runtime.length + (m.map length).getD 0 = code.length := by
  cases m with
  | none =>
    obtain ⟨rfl, -⟩ := split_ok h
    rfl
  | some m =>
    obtain ⟨payload, field, -, rfl, width, -, m', -, rfl⟩ := split_ok h
    simp only [Option.map_some, Option.getD_some, List.length_append, width, Nat.add_assoc]

lemma Kept.ofPayload {P : Metadata → Prop} (kept : Kept P) {payload : Bytes} {m : Metadata}
    (hm : ofPayload payload = .ok m) : P m := by
  unfold Metadata.ofPayload at hm
  split at hm
  · cases hm
  · next entries _ =>
    cases hentries : Metadata.ofEntries {} entries with
    | error key =>
      rw [hentries] at hm
      cases hm
    | ok m' =>
      rw [hentries] at hm
      cases hm
      exact kept.ofEntries kept.empty hentries
  · cases hm
  · cases hm

theorem Kept.split {P : Metadata → Prop} (kept : Kept P) {scan : Scan} {code runtime : Bytes}
    {m : Metadata} (h : Metadata.split scan code = .ok (runtime, some m)) : P m := by
  obtain ⟨payload, field, -, -, -, -, m', hpayload, rfl⟩ := split_ok h
  exact kept.sized _ (kept.ofPayload hpayload)

/-- A code in which no marker is seen is left as it is. Any other one ends in a number of two bytes,
and is split exactly if it has as many bytes before the number as that says and these are a map with
text keys. Then the code is its executable part, the map and the number. In every other case the
metadata is malformed. -/
theorem split_partitions (scan : Scan) (code : Bytes) :
    (¬scan.Sees code → split scan code = .ok (code, none)) ∧
    (scan.Sees code → ∃ front field, code = front ++ field ∧ field.length = 2 ∧
      let declared := bigEndian field
      let payload := front.drop (front.length - declared)
      ((∃ runtime m, split scan code = .ok (runtime, some m)) ↔
        declared + 2 ≤ code.length ∧ IsTextMap payload) ∧
      (∀ runtime m, split scan code = .ok (runtime, some m) →
        code = runtime ++ payload ++ field ∧ payload.length = declared ∧
          m.length = declared + 2) ∧
      (¬(declared + 2 ≤ code.length ∧ IsTextMap payload) →
        ∃ detail, (split scan code).mapError Fault.toError =
          .error (.malformedMetadata detail))) := by
  refine ⟨split_of_not_sees, fun seen => ?_⟩
  have hcut := cut_split scan code
  generalize split scan code = result at hcut ⊢
  cases hcut with
  | unmarked unseen => exact absurd seen unseen
  | @short front field _ hfield short =>
    refine ⟨front, field, rfl, hfield, ?_⟩
    have hlong : ¬bigEndian field + 2 ≤ (front ++ field).length := by
      rw [List.length_append, hfield, lengthField]
      omega
    refine ⟨⟨?_, fun h => absurd h.1 hlong⟩, ?_, fun _ => ⟨_, rfl⟩⟩
    · rintro ⟨runtime, m, h⟩
      cases h
    · intro runtime m h
      cases h
  | @fits runtime payload field _ hfield declared =>
    refine ⟨runtime ++ payload, field, rfl, hfield, ?_⟩
    have hfits : payload.length + 2 ≤ (runtime ++ payload ++ field).length := by
      simp only [List.length_append, hfield, lengthField]
      omega
    have hdrop : (runtime ++ payload).drop ((runtime ++ payload).length - payload.length) =
        payload := by
      rw [List.length_append, Nat.add_sub_cancel, List.drop_left]
    simp only [declared, hdrop, hfits, true_and, ← ofPayload_ok_iff]
    cases ofPayload payload with
    | error fault =>
      refine ⟨⟨?_, ?_⟩, ?_, fun _ => ⟨_, rfl⟩⟩
      · rintro ⟨runtime', m', h⟩
        cases h
      · rintro ⟨m, h⟩
        cases h
      · intro runtime' m' h
        cases h
    | ok m =>
      refine ⟨⟨fun _ => ⟨m, rfl⟩, fun _ => ⟨_, _, rfl⟩⟩, ?_, fun h => absurd ⟨m, rfl⟩ h⟩
      intro runtime' m' h
      cases h
      exact ⟨rfl, rfl⟩

end Metadata
end EvmListing
