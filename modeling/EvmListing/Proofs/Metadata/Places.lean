import EvmListing.Metadata.Record
import Mathlib.Tactic.SplitIfs

/-! What a metadata record holds, without the order in which it was filled: each entry is for one
place, and a place shows the last entry for it. -/
namespace EvmListing.Metadata
open Cbor (Item)

/-- The places of a record. Keys that it has no field for have places of their own. -/
inductive Place where
  | solc
  | ipfs
  | bzzr0
  | bzzr1
  | experimental
  | extra (key : String)
  deriving DecidableEq

/-- The place that an entry is for. -/
def place : String → Item → Place
  | "solc", .bytes [_, _, _] => .solc
  | "solc", .text _ => .solc
  | "ipfs", .bytes _ => .ipfs
  | "bzzr0", .bytes _ => .bzzr0
  | "bzzr1", .bytes _ => .bzzr1
  | "experimental", .bool _ => .experimental
  | key, _ => .extra key

/-- The value of the last entry for a place. -/
def latest (p : Place) (entries : List (String × Item)) : Option Item :=
  (entries.filter fun e => place e.1 e.2 = p).getLast?.map Prod.snd

/-- A compiler version, three bytes being its three numbers. -/
def version : Item → String
  | .bytes [major, minor, patch] =>
    toString major.toNat ++ "." ++ toString minor.toNat ++ "." ++ toString patch.toNat
  | value => render value

def flag : Item → Bool
  | .bool value => value
  | _ => false

/-- Whether a record holds the entries of a map: in each place the last one for it, and nothing in
a place that none is for. -/
structure Holds (m : Metadata) (entries : List (String × Item)) : Prop where
  solc : m.solc = (latest .solc entries).map version
  ipfs : m.ipfs = (latest .ipfs entries).map render
  bzzr0 : m.bzzr0 = (latest .bzzr0 entries).map render
  bzzr1 : m.bzzr1 = (latest .bzzr1 entries).map render
  experimental : m.experimental = ((latest .experimental entries).map flag).getD false
  extra : ∀ key, m.extra.lookup key = (latest (.extra key) entries).map render
  ascending : (m.extra.map Prod.fst).Pairwise (· < ·)

@[simp] theorem latest_nil (p : Place) : latest p [] = none := rfl

@[simp] theorem latest_concat (p : Place) (entries : List (String × Item)) (key : String)
    (value : Item) :
    latest p (entries ++ [(key, value)]) =
      if place key value = p then some value else latest p entries := by
  unfold latest
  rw [List.filter_append]
  split_ifs with h <;> simp [h]

theorem lookup_insert_self (key value : String) (entries : List (String × String)) :
    (insert key value entries).lookup key = some value := by
  induction entries with
  | nil => exact List.lookup_cons_self
  | cons e entries ih =>
    obtain ⟨k, v⟩ := e
    unfold insert
    split_ifs with hlt heq
    · exact List.lookup_cons_self
    · exact List.lookup_cons_self
    · rw [List.lookup_cons, beq_eq_false_iff_ne.mpr heq, ih]

theorem lookup_insert_of_ne {key k : String} (h : k ≠ key) (value : String)
    (entries : List (String × String)) :
    (insert key value entries).lookup k = entries.lookup k := by
  have hne : (k == key) = false := beq_eq_false_iff_ne.mpr h
  induction entries with
  | nil => rw [insert, List.lookup_cons, hne]
  | cons e entries ih =>
    obtain ⟨k', v⟩ := e
    unfold insert
    split_ifs with hlt heq
    · rw [List.lookup_cons, hne]
    · rw [List.lookup_cons, List.lookup_cons, ← heq, hne]
    · rw [List.lookup_cons, List.lookup_cons, ih]

/-- Insertion adds no key but its own. -/
lemma mem_keys_insert {key value k : String} {entries : List (String × String)}
    (h : k ∈ (insert key value entries).map Prod.fst) : k = key ∨ k ∈ entries.map Prod.fst := by
  induction entries with
  | nil => exact List.mem_cons.mp h
  | cons e entries ih =>
    unfold insert at h
    split_ifs at h with hlt heq
    · exact List.mem_cons.mp h
    · exact (List.mem_cons.mp h).imp_right (List.mem_cons_of_mem _)
    · cases h with
      | head => exact .inr List.mem_cons_self
      | tail _ h => exact (ih h).imp_right (List.mem_cons_of_mem _)

theorem ascending_insert {key : String} (value : String) {entries : List (String × String)}
    (h : (entries.map Prod.fst).Pairwise (· < ·)) :
    ((insert key value entries).map Prod.fst).Pairwise (· < ·) := by
  induction entries with
  | nil => exact List.pairwise_singleton _ _
  | cons e entries ih =>
    obtain ⟨k, v⟩ := e
    obtain ⟨hhead, htail⟩ := List.pairwise_cons.mp h
    unfold insert
    split_ifs with hlt heq
    · refine List.pairwise_cons.mpr ⟨fun k' hk' => ?_, h⟩
      cases hk' with
      | head => exact hlt
      | tail _ hk' => exact String.lt_trans hlt (hhead k' hk')
    · subst heq
      exact List.pairwise_cons.mpr ⟨hhead, htail⟩
    · refine List.pairwise_cons.mpr ⟨fun k' hk' => ?_, ih htail⟩
      obtain rfl | hk' := mem_keys_insert hk'
      · exact String.not_le.mp fun hle => heq (String.le_antisymm hle (String.not_lt.mp hlt))
      · exact hhead k' hk'

/-- An entry without a field of its own is for the place of its own key. -/
lemma eq_of_place_eq_extra {key k : String} {value : Item} (h : place key value = .extra k) :
    k = key := by
  fun_cases place key value with
  | case7 => simpa [place] using h.symm
  | _ => cases h

/-- Recording an entry leaves its value in its place and the other places as they are. -/
theorem put_eq (m : Metadata) (key : String) (value : Item) :
    m.put key value =
      { solc := if place key value = .solc then some (version value) else m.solc
        ipfs := if place key value = .ipfs then some (render value) else m.ipfs
        bzzr0 := if place key value = .bzzr0 then some (render value) else m.bzzr0
        bzzr1 := if place key value = .bzzr1 then some (render value) else m.bzzr1
        experimental := if place key value = .experimental then flag value else m.experimental
        extra :=
          if place key value = .extra key then insert key (render value) m.extra else m.extra
        length := m.length } := by
  fun_cases Metadata.put m key value with
  | case1 major minor patch => rfl
  | case2 content => rfl
  | case3 content => rfl
  | case4 content => rfl
  | case5 content => rfl
  | case6 content => rfl
  | case7 h₁ h₂ h₃ h₄ h₅ h₆ =>
    have hp : place key value = .extra key := by
      unfold place
      split <;> grind
    simp only [hp, reduceCtorEq, if_false, if_true]

/-- What one more entry changes about what a record holds. -/
theorem Holds.put {m : Metadata} {entries : List (String × Item)} (h : m.Holds entries)
    (key : String) (value : Item) : (m.put key value).Holds (entries ++ [(key, value)]) := by
  rw [put_eq]
  refine ⟨?_, ?_, ?_, ?_, ?_, fun k => ?_, ?_⟩ <;> simp only [latest_concat]
  · rw [h.solc]
    split_ifs <;> rfl
  · rw [h.ipfs]
    split_ifs <;> rfl
  · rw [h.bzzr0]
    split_ifs <;> rfl
  · rw [h.bzzr1]
    split_ifs <;> rfl
  · rw [h.experimental]
    split_ifs <;> rfl
  · by_cases hk : k = key
    · subst hk
      split_ifs
      · exact lookup_insert_self _ _ _
      · exact h.extra k
    · have hne : place key value ≠ .extra k := fun hp => hk (eq_of_place_eq_extra hp)
      rw [if_neg hne, ← h.extra k]
      split_ifs
      · exact lookup_insert_of_ne hk _ _
      · rfl
  · split_ifs
    · exact ascending_insert _ h.ascending
    · exact h.ascending

theorem holds_nil : Holds {} [] where
  solc := rfl
  ipfs := rfl
  bzzr0 := rfl
  bzzr1 := rfl
  experimental := rfl
  extra _ := rfl
  ascending := .nil

/-- The size of what was removed says nothing about the entries. -/
theorem Holds.withLength {m : Metadata} {entries : List (String × Item)} (h : m.Holds entries)
    (length : Nat) : Holds { m with length := length } entries :=
  ⟨h.solc, h.ipfs, h.bzzr0, h.bzzr1, h.experimental, h.extra, h.ascending⟩

/-- Entries with text keys are all recorded, in addition to what a record holds already. -/
theorem Holds.ofEntries {m : Metadata} {done : List (String × Item)} (h : m.Holds done)
    (entries : List (String × Item)) :
    ∃ m', ofEntries m (entries.map fun e => (.text e.1, e.2)) = .ok m' ∧
      m'.Holds (done ++ entries) := by
  induction entries generalizing m done with
  | nil => exact ⟨m, rfl, by simpa using h⟩
  | cons e entries ih =>
    obtain ⟨m', hm', hh⟩ := ih (h.put e.1 e.2)
    exact ⟨m', hm', by simpa using hh⟩

/-- What holds of the empty record and of every record made from one that it holds of. -/
structure Kept (P : Metadata → Prop) : Prop where
  empty : P {}
  put : ∀ {m : Metadata} (key : String) (value : Item), P m → P (m.put key value)
  sized : ∀ {m : Metadata} (length : Nat), P m → P { m with length := length }

lemma Kept.ofEntries {P : Metadata → Prop} (kept : Kept P) {m m' : Metadata} (h : P m)
    {entries : List (Item × Item)} (hm : ofEntries m entries = .ok m') : P m' := by
  induction entries generalizing m with
  | nil =>
    cases hm
    exact h
  | cons e entries ih =>
    obtain ⟨key, value⟩ := e
    cases key with
    | text key => exact ih (kept.put key value h) hm
    | _ => cases hm

example : latest .solc [("solc", .text "0.8"), ("ipfs", .null), ("solc", .null)] =
    some (.text "0.8") := by rfl

end EvmListing.Metadata
