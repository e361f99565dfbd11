import EvmListing.Cbor.Reader
import EvmListing.Proofs.Readers
import Mathlib.Tactic.SplitIfs

/-! What a reader that gave an item found in its input. -/
namespace EvmListing.Cbor

section
variable {α β : Type} {r : Reader α} {s t : Bytes}

lemma take_ok {n : Nat} {field : Bytes} (h : take n s = .ok (field, t)) :
    field.length = n ∧ s = field ++ t := by
  simp only [take] at h
  split_ifs at h with hshort
  cases h
  rw [List.length_take] at hshort ⊢
  exact ⟨by omega, (List.take_append_drop n s).symm⟩

lemma exactly_ok {n : Nat} {xs : List α} (h : exactly r (n + 1) s = .ok (xs, t)) :
    ∃ x u rest, r s = .ok (x, u) ∧ exactly r n u = .ok (rest, t) ∧ xs = x :: rest := by
  obtain ⟨x, u, hx, hmore⟩ := bind_ok h
  obtain ⟨rest, u', hrest, hxs⟩ := bind_ok hmore
  cases hxs
  exact ⟨x, u, rest, hx, hrest, rfl⟩

lemma descend_ok {inner : Option (Reader Item)} {k : Reader Item → Reader α} {x : α}
    (h : descend inner k s = .ok (x, t)) : ∃ r, inner = some r ∧ k r s = .ok (x, t) := by
  cases inner with
  | none => cases h
  | some r => exact ⟨r, rfl, h⟩

end

lemma entry_ok {r : Reader Item} {s t : Bytes} {e : Item × Item} (h : entry r s = .ok (e, t)) :
    ∃ u, r s = .ok (e.1, u) ∧ r u = .ok (e.2, t) := by
  obtain ⟨key, u, hkey, hmore⟩ := bind_ok h
  obtain ⟨value, u', hvalue, he⟩ := bind_ok hmore
  cases he
  exact ⟨u, hkey, hvalue⟩

/-- The first bytes of maps: a count of entries or its width in the low bits, or none. -/
def IsMapHead (b : UInt8) : Prop := (0xA0 ≤ b ∧ b ≤ 0xBB) ∨ b = 0xBF

instance : DecidablePred IsMapHead := fun _ => inferInstanceAs (Decidable (_ ∨ _))

lemma isMapHead_of_major {b : UInt8} (hmajor : b.toNat / 32 = 5)
    (hinfo : b.toNat % 32 < 28 ∨ b.toNat % 32 = 31) : IsMapHead b := by
  rw [IsMapHead, UInt8.le_iff_toNat_le, UInt8.le_iff_toNat_le, ← UInt8.toNat_inj]
  change (160 ≤ b.toNat ∧ b.toNat ≤ 187) ∨ b.toNat = 191
  omega

lemma Header.major_of_ofNumber {major n : Nat} {length : Option Nat}
    (h : ofNumber major n = map length) : major = 5 := by
  revert h
  fun_cases ofNumber major n with
  | case6 => exact fun _ => rfl
  | _ => exact nofun

lemma Header.major_of_unbounded {major : Nat} {length : Option Nat}
    (h : unbounded? major = some (map length)) : major = 5 := by
  revert h
  fun_cases unbounded? major with
  | case4 => exact fun _ => rfl
  | _ => exact nofun

theorem header_map {b : UInt8} {rest t : Bytes} {length : Option Nat}
    (h : header (b :: rest) = .ok (.map length, t)) : IsMapHead b := by
  simp only [header] at h
  split at h
  · obtain ⟨hh, -⟩ := Prod.mk.inj (Except.ok.inj h)
    split at hh
    · cases hh
    · exact isMapHead_of_major (Header.major_of_ofNumber hh) (by omega)
  · split at h
    · cases htake : take (2 ^ (b.toNat % 32 - 24)) rest with
      | error fault =>
        rw [htake] at h
        cases h
      | ok p =>
        rw [htake] at h
        obtain ⟨hh, -⟩ := Prod.mk.inj (Except.ok.inj h)
        split at hh
        · exact isMapHead_of_major (Header.major_of_ofNumber hh) (by omega)
        · split at hh <;> cases hh
    · split at h
      · next found hfound =>
        obtain ⟨hinfo, hfound⟩ := Option.ite_none_right_eq_some.mp hfound
        cases h
        exact isMapHead_of_major (Header.major_of_unbounded hfound) (.inr hinfo)
      · cases h

section
variable {inner : Option (Reader Item)} {s t : Bytes}

lemma bignum_ne_map {number length : Nat} {entries : List (Item × Item)} :
    bignum number length s ≠ .ok (.map entries, t) := by
  intro h
  obtain ⟨content, u, -, hvalue⟩ := bind_ok h
  simp only at hvalue
  split_ifs at hvalue <;> cases hvalue

/-- A tag gives a tag or an integer. -/
lemma tagged_ne_map {number : Nat} {entries : List (Item × Item)} :
    tagged inner number s ≠ .ok (.map entries, t) := by
  intro h
  obtain ⟨s', u, -, hmore⟩ := bind_ok h
  obtain ⟨found, u', -, hitem⟩ := bind_ok hmore
  have hplain {v : Bytes} : (do
      set s'
      descend inner fun r => Item.tag number <$> r : Reader Item) v ≠ .ok (.map entries, t) := by
    intro htag
    obtain ⟨_, v', -, hinner⟩ := bind_ok htag
    obtain ⟨r, -, hmap⟩ := descend_ok hinner
    obtain ⟨_, -, he⟩ := map_ok hmap
    cases he
  split at hitem
  · split at hitem
    · exact bignum_ne_map hitem
    · exact hplain hitem
  · exact hplain hitem

/-- A map is read from the head of one and its entries. -/
theorem itemWith_map_ok {entries : List (Item × Item)}
    (h : itemWith inner s = .ok (.map entries, t)) :
    ∃ length u r, header s = .ok (.map length, u) ∧ inner = some r ∧
      sequence (entry r) length u = .ok (entries, t) := by
  obtain ⟨found, u, hfound, hitem⟩ := bind_ok h
  split at hitem
  case h_6 length =>
    obtain ⟨r, hr, hmap⟩ := descend_ok hitem
    obtain ⟨entries', hentries, he⟩ := map_ok hmap
    cases he
    exact ⟨length, u, r, hfound, hr, hentries⟩
  case h_3 | h_4 =>
    obtain ⟨_, -, he⟩ := map_ok hitem
    cases he
  case h_5 n =>
    obtain ⟨r, -, hmap⟩ := descend_ok hitem
    obtain ⟨_, -, he⟩ := map_ok hmap
    cases he
  case h_7 => exact absurd hitem tagged_ne_map
  all_goals cases hitem

/-- A text of at most one piece is read as a whole. -/
theorem itemWith_text_ok {n : Nat} {u : Bytes} (hh : header s = .ok (.text (some n), u))
    (short : n ≤ pieceSize) {x : Item} (h : itemWith inner s = .ok (x, t)) :
    ∃ content key, content.length = n ∧ Utf8.decode? content = some key ∧
      x = .text (String.ofList key) := by
  obtain ⟨found, u', hfound, hitem⟩ := bind_ok h
  rw [hh] at hfound
  cases hfound
  obtain ⟨key, hkey, rfl⟩ := map_ok hitem
  obtain ⟨s', u', hs, hcontent⟩ := bind_ok hkey
  simp only [if_pos short] at hcontent
  obtain ⟨content, v, htake, hdecoded⟩ := bind_ok hcontent
  cases hdecode : Utf8.decode? content with
  | none =>
    rw [hdecode] at hdecoded
    cases hdecoded
  | some text =>
    rw [hdecode] at hdecoded
    cases hdecoded
    exact ⟨content, key, (take_ok htake).1, hdecode, rfl⟩

end

end EvmListing.Cbor
