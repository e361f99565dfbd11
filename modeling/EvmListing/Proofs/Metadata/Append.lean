import EvmListing.Proofs.Cbor.RoundTrip
import EvmListing.Proofs.Metadata.Partition

/-! Metadata as compilers append it to a code: the encoded map, then its length in two bytes. The
split finds both again from the end, and what stands in front does not matter to it. -/
namespace EvmListing

/-- Whether a scan looks at no fewer than so many of the last bytes. -/
def Scan.Covers (size : Nat) : Scan → Prop
  | .anywhere => True
  | .trailing window => size ≤ window

instance (size : Nat) : DecidablePred (Scan.Covers size)
  | .anywhere => inferInstanceAs (Decidable True)
  | .trailing window => inferInstanceAs (Decidable (size ≤ window))

lemma Scan.Covers.exists_region {scan : Scan} {after : Bytes} (h : scan.Covers after.length)
    (before : Bytes) : ∃ front, scan.region (before ++ after) = front ++ after := by
  cases scan with
  | anywhere => exact ⟨before, rfl⟩
  | trailing window =>
    have hle : (before ++ after).length - window ≤ before.length := by
      rw [List.length_append]
      change after.length ≤ window at h
      omega
    exact ⟨_, List.drop_append_of_le_length hle⟩

/-- A marker stays one whatever is put in front. -/
lemma marked_append {after : Bytes} (h : marked after = true) (before : Bytes) :
    marked (before ++ after) = true := by
  induction before with
  | nil => exact h
  | cons b before ih =>
    rw [List.cons_append]
    cases hb : before ++ after with
    | nil =>
      rw [hb] at ih
      cases ih
    | cons c rest =>
      rw [hb] at ih
      rw [marked, ih, Bool.or_true]

namespace Metadata
open Cbor (Datum)

/-- The map of some entries. -/
def datum (entries : List (String × Datum)) : Datum :=
  .map (entries.map fun e => (.text e.1, e.2))

def payload (entries : List (String × Datum)) : Bytes := (datum entries).encode

/-- What compilers put after a code. -/
def trailer (entries : List (String × Datum)) : Bytes :=
  payload entries ++ toBigEndian lengthField (payload entries).length

/-- Whether the split of a code with metadata after it gives the code back, and a record of the
entries with the size of what stood after the code. -/
def Recovers (scan : Scan) (code : Bytes) (entries : List (String × Datum)) : Prop :=
  ∃ m, split scan (code ++ trailer entries) = .ok (code, some m) ∧
    m.length = (payload entries).length + 2 ∧ m.Holds (entries.map fun e => (e.1, e.2.item))

lemma item_datum (entries : List (String × Datum)) :
    (datum entries).item = .map ((entries.map fun e => (e.1, e.2.item)).map
      fun e => (.text e.1, e.2)) := by
  rw [datum, Datum.item, Datum.itemEntries_eq, List.map_map, List.map_map]
  rfl

section
variable {entries : List (String × Datum)}

theorem ofPayload_payload (plain : (datum entries).Within Cbor.maxDepth)
    (short : (payload entries).length < 2^64) :
    ∃ m, ofPayload (payload entries) = .ok m ∧ m.Holds (entries.map fun e => (e.1, e.2.item)) := by
  obtain ⟨m, hm, hh⟩ := holds_nil.ofEntries (entries.map fun e => (e.1, e.2.item))
  have hitem := Cbor.item_encode plain short []
  rw [List.append_nil, item_datum] at hitem
  refine ⟨m, ?_, hh⟩
  rw [ofPayload, payload, hitem]
  change (ofEntries {} _).mapError Fault.keyNotText = _
  rw [hm]
  rfl

/-- The length field leads to the start of the payload. -/
theorem split_trailer {scan : Scan} {code : Bytes} {m : Metadata}
    (found : scan.finds (code ++ trailer entries) = true)
    (short : (payload entries).length < 256^lengthField)
    (hm : ofPayload (payload entries) = .ok m) :
    split scan (code ++ trailer entries) =
      .ok (code, some { m with length := (payload entries).length + lengthField }) := by
  have hcode : code ++ trailer entries =
      code ++ payload entries ++ toBigEndian lengthField (payload entries).length :=
    (List.append_assoc _ _ _).symm
  rw [hcode] at found ⊢
  rw [split_of_fits found (toBigEndian_length _ _) (bigEndian_toBigEndian_of_lt short), hm]
  rfl

/-- The head of a map of two entries and that of a key of four bytes make the marker. -/
lemma marked_trailer {first second : String × Datum}
    (h : (Utf8.encode first.1.toList).length = 4) : marked (trailer [first, second]) = true := by
  have hp : payload [first, second] = 0xA2 :: 0x64 :: (Utf8.encode first.1.toList ++
      first.2.encode ++ Datum.encodeEntries [(.text second.1, second.2)]) := by
    rw [payload, datum, List.map_cons, Datum.encode, Datum.encodeEntries, Datum.encode, h]
    rfl
  rw [trailer, hp]
  rfl

end

end Metadata
end EvmListing
