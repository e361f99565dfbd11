import EvmListing.Proofs.Cbor.Extent
import EvmListing.Proofs.Metadata.Partition

/-! The bytes that a length field declares to be metadata. They are one whole map or none: with bytes
added or taken away at their end they are no metadata any more. -/
namespace EvmListing.Metadata

section
variable {payload : Bytes} {m : Metadata}

lemma ofPayload_append (h : ofPayload payload = .ok m) {more : Bytes} (hmore : more ≠ []) :
    ofPayload (payload ++ more) = .error (.leftover more.length) := by
  obtain ⟨entries, hitem, -⟩ := (ofPayload_ok_iff _).mp ⟨m, h⟩
  obtain ⟨b, more, rfl⟩ := List.exists_cons_of_ne_nil hmore
  rw [ofPayload, Cbor.item_append hitem, List.nil_append]

lemma ofPayload_of_cut {front rest : Bytes} (h : ofPayload (front ++ rest) = .ok m)
    (hrest : rest ≠ []) : ofPayload front = .error (.invalid .endOfInput front.length) := by
  obtain ⟨entries, hitem, -⟩ := (ofPayload_ok_iff _).mp ⟨m, h⟩
  rw [ofPayload, Cbor.item_of_cut hitem hrest]

/-- Metadata with bytes behind it is refused for these, metadata that is cut off for want of bytes. So
metadata never begins with other metadata. -/
theorem ofPayload_exact (h : ofPayload payload = .ok m) :
    (∀ more, more ≠ [] → (ofPayload (payload ++ more)).mapError Fault.toError =
      .error (.malformedMetadata s!"{more.length} unexpected bytes after the CBOR map")) ∧
    (∀ front, front <+: payload → front ≠ payload → (ofPayload front).mapError Fault.toError =
      .error (.malformedMetadata ("invalid CBOR: " ++
        "Io(Error \x7b kind: UnexpectedEof, message: \"failed to fill whole buffer\" \x7d)"))) ∧
    ∀ other m', ofPayload other = .ok m' → payload <+: other → payload = other := by
  refine ⟨fun more hmore => ?_, ?_, ?_⟩
  · rw [ofPayload_append h hmore]
    rfl
  · rintro front ⟨rest, rfl⟩ hne
    have hrest : rest ≠ [] := by
      rintro rfl
      exact hne (List.append_nil front).symm
    rw [ofPayload_of_cut h hrest]
    rfl
  · rintro other m' hother ⟨rest, rfl⟩
    by_contra hne
    have hrest : rest ≠ [] := by
      rintro rfl
      exact hne (List.append_nil payload).symm
    cases h.symm.trans (ofPayload_of_cut hother hrest)

/-- A map without a count, under a key in two chunks: it ends at the second of two breaks. -/
theorem ofPayload_exact_chunked :
    let payload : Bytes := [0xBF, 0x7F, 0x61, 0x61, 0x61, 0x62, 0xFF, 0x01, 0xFF]
    ofPayload payload = .ok { extra := [("ab", "1")] } ∧
      (ofPayload (payload ++ [0xFF, 0x00])).mapError Fault.toError =
        .error (.malformedMetadata "2 unexpected bytes after the CBOR map") ∧
      (ofPayload [0xBF, 0x7F, 0x61, 0x61, 0x61, 0x62, 0xFF]).mapError Fault.toError =
        .error (.malformedMetadata ("invalid CBOR: " ++
          "Io(Error \x7b kind: UnexpectedEof, message: \"failed to fill whole buffer\" \x7d)")) := by
  intro payload
  have hpayload : ofPayload payload = .ok { extra := [("ab", "1")] } := rfl
  obtain ⟨longer, cut, -⟩ := ofPayload_exact hpayload
  exact ⟨hpayload, longer [0xFF, 0x00] (by decide), cut _ (by decide) (by decide)⟩

end

end EvmListing.Metadata
