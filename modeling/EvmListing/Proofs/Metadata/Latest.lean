import EvmListing.Proofs.Metadata.Partition
import Mathlib.Data.List.Sort

/-! What a record depends on: of the entries of a map, the last one for each place. Entries under
different keys are for different places, so that their order does not matter. -/
namespace EvmListing.Metadata
open Cbor (Item)

/-- Entries under text keys, as a map has them. -/
def textual (entries : List (String × Item)) : List (Item × Item) :=
  entries.map fun e => (.text e.1, e.2)

/-- Whether a scan finds at the end of a code the bytes of a map with these entries, and the field
with their number. The size is that of both. -/
structure Bears (scan : Scan) (code runtime : Bytes) (size : Nat) (entries : List (Item × Item)) :
    Prop where
  seen : scan.Sees code
  parts : ∃ payload field, code = runtime ++ payload ++ field ∧ field.length = lengthField ∧
    bigEndian field = payload.length ∧ size = payload.length + lengthField ∧
    Cbor.item payload = .ok (.map entries, [])

/-- Whether every code with these entries at its end is split with a record, up to the size. -/
def RecordOf (m : Metadata) (entries : List (String × Item)) : Prop :=
  ∀ scan code runtime size, Bears scan code runtime size (textual entries) →
    split scan code = .ok (runtime, some { m with length := size })

/-- Whether a record has a value in a place. -/
def Shows (m : Metadata) (value : Item) : Place → Prop
  | .solc => m.solc = some (version value)
  | .ipfs => m.ipfs = some (render value)
  | .bzzr0 => m.bzzr0 = some (render value)
  | .bzzr1 => m.bzzr1 = some (render value)
  | .experimental => m.experimental = flag value
  | .extra key => m.extra.lookup key = some (render value)

/-- The key of the entries for a place. -/
def Place.key : Place → String
  | .solc => "solc"
  | .ipfs => "ipfs"
  | .bzzr0 => "bzzr0"
  | .bzzr1 => "bzzr1"
  | .experimental => "experimental"
  | .extra key => key

lemma key_place (key : String) (value : Item) : (place key value).key = key := by
  fun_cases place key value <;> rfl

/-- The places that entries are for, in order. -/
def places (entries : List (String × Item)) : List Place := entries.map fun e => place e.1 e.2

section
variable {p : Place} {value : Item} {entries others : List (String × Item)}

lemma mem_of_latest (h : latest p entries = some value) :
    ∃ e ∈ entries, place e.1 e.2 = p ∧ e.2 = value := by
  obtain ⟨e, he, rfl⟩ := Option.map_eq_some_iff.mp h
  have hmem := List.mem_filter.mp (List.mem_of_getLast? he)
  exact ⟨e, hmem.1, of_decide_eq_true hmem.2, rfl⟩

lemma exists_latest {e : String × Item} (he : e ∈ entries) :
    ∃ value, latest (place e.1 e.2) entries = some value := by
  have hne : (entries.filter fun e' => place e'.1 e'.2 = place e.1 e.2) ≠ [] :=
    List.ne_nil_of_mem (List.mem_filter.mpr ⟨he, decide_eq_true rfl⟩)
  rw [latest, List.getLast?_eq_some_getLast hne]
  exact ⟨_, rfl⟩

/-- Entries under different keys are for different places. -/
lemma nodup_places (nodup : (entries.map Prod.fst).Nodup) : (places entries).Nodup := by
  apply List.Nodup.of_map Place.key
  rw [places, List.map_map]
  have hkeys : (Place.key ∘ fun e : String × Item => place e.1 e.2) = Prod.fst := by
    funext e
    exact key_place e.1 e.2
  rwa [hkeys]

/-- Of entries for different places each is the last one for its own. -/
lemma latest_of_mem (nodup : (places entries).Nodup) {e : String × Item} (he : e ∈ entries) :
    latest (place e.1 e.2) entries = some e.2 := by
  obtain ⟨value, hvalue⟩ := exists_latest he
  obtain ⟨e', he', hplace, rfl⟩ := mem_of_latest hvalue
  have heq : e' = e := List.inj_on_of_nodup_map nodup he' he hplace
  rw [hvalue, heq]

lemma latest_eq_some_iff (nodup : (places entries).Nodup) :
    latest p entries = some value ↔ ∃ e ∈ entries, place e.1 e.2 = p ∧ e.2 = value := by
  constructor
  · exact mem_of_latest
  · rintro ⟨e, he, rfl, rfl⟩
    exact latest_of_mem nodup he

/-- The order of entries for different places does not matter. -/
theorem latest_perm (nodup : (places entries).Nodup) (perm : others.Perm entries) (p : Place) :
    latest p others = latest p entries := by
  have nodup' : (places others).Nodup := (perm.map _).nodup_iff.mpr nodup
  apply Option.ext
  intro value
  rw [latest_eq_some_iff nodup, latest_eq_some_iff nodup']
  simp only [perm.mem_iff]

end

section
variable {l l' : List (String × String)}

lemma lookup_eq_some_iff_mem (nodup : (l.map Prod.fst).Nodup) {key value : String} :
    l.lookup key = some value ↔ (key, value) ∈ l := by
  rw [List.lookup_eq_some_iff]
  constructor
  · rintro ⟨front, back, rfl, -⟩
    exact List.mem_append_right _ List.mem_cons_self
  · intro h
    obtain ⟨front, back, rfl⟩ := List.append_of_mem h
    refine ⟨front, back, rfl, fun e he => bne_iff_ne.mpr ?_⟩
    rw [List.map_append, List.map_cons] at nodup
    have hdisjoint := (List.nodup_append.mp nodup).2.2
    exact (hdisjoint e.1 (List.mem_map_of_mem he) key List.mem_cons_self).symm

/-- Entries in ascending order of their keys are told by what is found under each key. -/
lemma eq_of_lookup (ascending : (l.map Prod.fst).Pairwise (· < ·))
    (ascending' : (l'.map Prod.fst).Pairwise (· < ·)) (h : ∀ key, l.lookup key = l'.lookup key) :
    l = l' := by
  have hl : l.Pairwise (InvImage (· < ·) Prod.fst) :=
    (List.pairwise_map (f := Prod.fst)).mp ascending
  have hl' : l'.Pairwise (InvImage (· < ·) Prod.fst) :=
    (List.pairwise_map (f := Prod.fst)).mp ascending'
  refine hl.eq_of_mem_iff hl' fun e => ?_
  rw [← lookup_eq_some_iff_mem ascending.nodup, ← lookup_eq_some_iff_mem ascending'.nodup, h]

end

section
variable {m m' : Metadata} {entries others : List (String × Item)}

/-- Records of entries with the same last ones differ in nothing but the size. -/
theorem Holds.eq_of_latest (h : m.Holds entries) (h' : m'.Holds others)
    (same : ∀ p, latest p others = latest p entries) : m' = { m with length := m'.length } := by
  have hsolc : m'.solc = m.solc := by rw [h.solc, h'.solc, same]
  have hipfs : m'.ipfs = m.ipfs := by rw [h.ipfs, h'.ipfs, same]
  have hbzzr0 : m'.bzzr0 = m.bzzr0 := by rw [h.bzzr0, h'.bzzr0, same]
  have hbzzr1 : m'.bzzr1 = m.bzzr1 := by rw [h.bzzr1, h'.bzzr1, same]
  have hexperimental : m'.experimental = m.experimental := by
    rw [h.experimental, h'.experimental, same]
  have hextra : m'.extra = m.extra := by
    refine eq_of_lookup h'.ascending h.ascending fun key => ?_
    rw [h.extra, h'.extra, same]
  rw [← hsolc, ← hipfs, ← hbzzr0, ← hbzzr1, ← hexperimental, ← hextra]

lemma Holds.shows (h : m.Holds entries) {p : Place} {value : Item}
    (hp : latest p entries = some value) : m.Shows value p := by
  cases p with
  | solc => exact h.solc.trans (congrArg _ hp)
  | ipfs => exact h.ipfs.trans (congrArg _ hp)
  | bzzr0 => exact h.bzzr0.trans (congrArg _ hp)
  | bzzr1 => exact h.bzzr1.trans (congrArg _ hp)
  | experimental =>
    rw [Shows, h.experimental, hp]
    rfl
  | extra key => exact (h.extra key).trans (congrArg _ hp)

end

/-- The first key that is no text is the one that the entries are refused for. -/
lemma ofEntries_of_not_text (m : Metadata) {entries : List (Item × Item)}
    (h : ∃ e ∈ entries, ∀ key, e.1 ≠ .text key) :
    ∃ before key value after, entries = textual before ++ (key, value) :: after ∧
      (∀ t, key ≠ .text t) ∧ ofEntries m entries = .error key := by
  induction entries generalizing m with
  | nil =>
    obtain ⟨e, he, -⟩ := h
    cases he
  | cons e entries ih =>
    obtain ⟨key, value⟩ := e
    by_cases hkey : ∃ t, key = .text t
    · obtain ⟨t, rfl⟩ := hkey
      have hrest : ∃ e ∈ entries, ∀ key, e.1 ≠ .text key := by
        obtain ⟨e, he, hne⟩ := h
        cases he with
        | head => exact absurd rfl (hne t)
        | tail _ he => exact ⟨e, he, hne⟩
      -- what was recorded before the key that is no text is lost with the record
      obtain ⟨before, key, value', after, rfl, hne, herror⟩ := ih (m.put t value) hrest
      exact ⟨(t, value) :: before, key, value', after, rfl, hne, herror⟩
    · have hne (t : String) : key ≠ .text t := fun ht => hkey ⟨t, ht⟩
      refine ⟨[], key, value, entries, rfl, hne, ?_⟩
      cases key with
      | text t => exact absurd rfl (hne t)
      | _ => rfl

section
variable {scan : Scan} {code runtime : Bytes} {size : Nat}

/-- A split records the entries that it finds, whatever stands in front of them. -/
theorem Bears.split_eq {entries : List (Item × Item)} (h : Bears scan code runtime size entries) :
    split scan code = ((ofEntries {} entries).mapError Fault.keyNotText).map fun m =>
      (runtime, some { m with length := size }) := by
  obtain ⟨seen, payload, field, rfl, width, declared, rfl, hitem⟩ := h
  have hpayload : ofPayload payload = (ofEntries {} entries).mapError .keyNotText := by
    rw [ofPayload, hitem]
  rw [split_of_fits ((scan.finds_iff _).mpr seen) width declared, hpayload]

theorem Bears.holds {entries : List (String × Item)}
    (h : Bears scan code runtime size (textual entries)) :
    ∃ m, split scan code = .ok (runtime, some m) ∧ m.length = size ∧ m.Holds entries := by
  obtain ⟨m, hm, hh⟩ := holds_nil.ofEntries entries
  have hrecord : ofEntries {} (textual entries) = .ok m := hm
  refine ⟨{ m with length := size }, ?_, rfl, hh.withLength size⟩
  rw [h.split_eq, hrecord]
  rfl

end

theorem Holds.recordOf {m : Metadata} {entries others : List (String × Item)} (h : m.Holds entries)
    (same : ∀ p, latest p others = latest p entries) : m.RecordOf others := by
  intro scan code runtime size bears
  obtain ⟨m', hsplit, rfl, hm'⟩ := bears.holds
  rw [hsplit, ← h.eq_of_latest hm' same]

/-- The entries of a map are split off as a record of the last one for each place, the same record
for every map with the same last ones. So where the keys differ no order of the entries changes it,
and each entry is shown in a place that no other one is for. A key that is no text, wherever it
stands, leaves no record. -/
theorem split_shows_latest {scan : Scan} {code runtime : Bytes} {size : Nat}
    {entries : List (Item × Item)} (bears : Bears scan code runtime size entries) :
    (∀ es, entries = textual es →
      ∃ m, split scan code = .ok (runtime, some m) ∧ m.length = size ∧ m.Holds es ∧
        (∀ es', (∀ p, latest p es' = latest p es) → m.RecordOf es') ∧
        ((es.map Prod.fst).Nodup → (∀ es', es'.Perm es → m.RecordOf es') ∧
          (places es).Nodup ∧ ∀ e ∈ es, m.Shows e.2 (place e.1 e.2))) ∧
    ((∃ e ∈ entries, ∀ key, e.1 ≠ .text key) →
      ∃ before key value after, entries = textual before ++ (key, value) :: after ∧
        (∀ t, key ≠ .text t) ∧ (split scan code).mapError Fault.toError =
          .error (.malformedMetadata ("non-text key " ++ key.inspect))) := by
  constructor
  · rintro es rfl
    obtain ⟨m, hsplit, hlength, hm⟩ := bears.holds
    refine ⟨m, hsplit, hlength, hm, fun es' => hm.recordOf, fun nodup => ?_⟩
    have hplaces := nodup_places nodup
    refine ⟨fun es' perm => hm.recordOf (latest_perm hplaces perm), hplaces, fun e he => ?_⟩
    exact hm.shows (latest_of_mem hplaces he)
  · intro h
    obtain ⟨before, key, value, after, hentries, hne, herror⟩ := ofEntries_of_not_text {} h
    refine ⟨before, key, value, after, hentries, hne, ?_⟩
    rw [bears.split_eq, herror]
    rfl

/-- A compiler version and a value that is none under the same key, in either order. -/
theorem split_shows_latest_versions :
    let es : List (String × Item) := [("solc", .bytes [0, 8, 19]), ("solc", .null)]
    let code : Bytes := [0xFE, 0xA2, 0x64, 0x73, 0x6F, 0x6C, 0x63, 0x43, 0x00, 0x08, 0x13,
      0x64, 0x73, 0x6F, 0x6C, 0x63, 0xF6, 0x00, 0x10]
    let other : Bytes := [0xA2, 0x64, 0x73, 0x6F, 0x6C, 0x63, 0xF6,
      0x64, 0x73, 0x6F, 0x6C, 0x63, 0x43, 0x00, 0x08, 0x13, 0x00, 0x10]
    let m : Metadata := { solc := some "0.8.19", extra := [("solc", "Null")], length := 18 }
    Bears .anywhere code [0xFE] 18 (textual es) ∧
      Bears (.trailing 18) other [] 18 (textual es.reverse) ∧ m.Holds es ∧
      split .anywhere code = .ok ([0xFE], some m) ∧
      split (.trailing 18) other = .ok ([], some m) := by
  intro es code other m
  have bears : Bears .anywhere code [0xFE] 18 (textual es) :=
    ⟨⟨1, rfl, rfl⟩, (code.drop 1).take 16, [0x00, 0x10], rfl, rfl, rfl, rfl, rfl⟩
  have bears' : Bears (.trailing 18) other [] 18 (textual es.reverse) :=
    ⟨⟨0, by decide, rfl, rfl⟩, other.take 16, [0x00, 0x10], rfl, rfl, rfl, rfl, rfl⟩
  have hsplit : split .anywhere code = .ok ([0xFE], some m) := rfl
  obtain ⟨m', hsplit', -, hm, same, -⟩ := (split_shows_latest bears).1 es rfl
  cases hsplit.symm.trans hsplit'
  have hplaces : (places es).Nodup := by decide
  have record : m.RecordOf es.reverse := same es.reverse (latest_perm hplaces es.reverse_perm)
  exact ⟨bears, bears', hm, hsplit, record _ _ _ _ bears'⟩

example : (split .anywhere [0xA2, 0x64, 0x73, 0x6F, 0x6C, 0x63, 0xF6, 0x01, 0xF6, 0x00, 0x09]
    ).mapError Fault.toError = .error (.malformedMetadata "non-text key Integer(Integer(1))") := by
  rfl

end EvmListing.Metadata
