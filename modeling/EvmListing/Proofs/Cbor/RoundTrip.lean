import EvmListing.Proofs.Cbor.Datum
import EvmListing.Proofs.Readers

/-! Reading an encoded value gives the value and leaves the rest of the input. -/
namespace EvmListing.Cbor

lemma get_eq (s : Bytes) : (get : Reader Bytes) s = .ok (s, s) := rfl

theorem take_append {field : Bytes} {n : Nat} (h : field.length = n) (rest : Bytes) :
    take n (field ++ rest) = .ok (field, rest) := by
  simp [take, List.take_left' h, List.drop_left' h, h]

/-- A number below 24 stands in the first byte. -/
lemma header_short {major n : Nat} (hm : major < 7) (hn : n < 24) (rest : Bytes) :
    header (UInt8.ofNat (32*major + n) :: rest) = .ok (.ofNumber major n, rest) := by
  have hb : (UInt8.ofNat (32*major + n)).toNat = 32*major + n := by
    rw [UInt8.toNat_ofNat']
    omega
  have hmajor : (32*major + n) / 32 = major := by omega
  have hinfo : (32*major + n) % 32 = n := by omega
  have h7 : major ≠ 7 := by omega
  simp only [header, hb, hmajor, hinfo, if_pos hn, if_neg h7]

/-- A greater number stands in a field of 1, 2, 4 or 8 bytes after the first one. -/
lemma header_long {major k n : Nat} (hm : major < 7) (hk : k < 4) (hn : n < 256^2^k)
    (rest : Bytes) :
    header (UInt8.ofNat (32*major + (24 + k)) :: (toBigEndian (2^k) n ++ rest)) =
      .ok (.ofNumber major n, rest) := by
  have hb : (UInt8.ofNat (32*major + (24 + k))).toNat = 32*major + (24 + k) := by
    rw [UInt8.toNat_ofNat']
    omega
  have hmajor : (32*major + (24 + k)) / 32 = major := by omega
  have hinfo : (32*major + (24 + k)) % 32 = 24 + k := by omega
  have hshort : ¬24 + k < 24 := by omega
  have hlong : 24 + k < 28 := by omega
  have hfield : take (2^k) (toBigEndian (2^k) n ++ rest) = .ok (toBigEndian (2^k) n, rest) :=
    take_append (toBigEndian_length _ _) rest
  simp only [header, hb, hmajor, hinfo, if_neg hshort, if_pos hlong, Nat.add_sub_cancel_left,
    hfield]
  change Except.ok
    (if major < 7 then Header.ofNumber major (bigEndian (toBigEndian (2^k) n)) else _, rest) = _
  rw [if_pos hm, bigEndian_toBigEndian_of_lt hn]

theorem header_headerBytes {n : Nat} (major : Nat) (hm : major < 7) (hn : n < 2^64) (rest : Bytes) :
    header (headerBytes major n ++ rest) = .ok (.ofNumber major n, rest) := by
  unfold headerBytes
  split_ifs with h₀ h₁ h₂ h₃
  · exact header_short hm h₀ rest
  · exact header_long (k := 0) hm (by decide) h₁ rest
  · exact header_long (k := 1) hm (by decide) h₂ rest
  · exact header_long (k := 2) hm (by decide) h₃ rest
  · exact header_long (k := 3) hm (by decide) hn rest

/-- A reader that reads back what each element is written as reads back a list of them. -/
lemma exactly_flatMap {α β : Type} {r : Reader β} {write : α → Bytes} {value : α → β} {xs : List α}
    (h : ∀ x ∈ xs, ∀ rest, r (write x ++ rest) = .ok (value x, rest)) (rest : Bytes) :
    exactly r xs.length (xs.flatMap write ++ rest) = .ok (xs.map value, rest) := by
  induction xs with
  | nil => rfl
  | cons x xs ih =>
    have hx := h x List.mem_cons_self (xs.flatMap write ++ rest)
    have hxs := ih fun y hy => h y (List.mem_cons_of_mem x hy)
    rw [List.flatMap_cons, List.append_assoc, List.length_cons, exactly, bind_of_ok hx,
      bind_of_ok hxs]
    rfl

section
variable {inner : Option (Reader Item)} (rest : Bytes)

lemma itemWith_integer {n : Int} (least : -2^64 ≤ n) (greatest : n < 2^64) :
    itemWith inner ((Datum.integer n).encode ++ rest) = .ok (.integer n, rest) := by
  rw [Datum.encode, itemWith]
  split
  · next h =>
    have hh := header_headerBytes (n := n.toNat) 0 (by decide) (by omega) rest
    rw [bind_of_ok hh]
    change Except.ok (Item.integer n.toNat, rest) = _
    rw [Int.toNat_of_nonneg h]
  · next h =>
    have hh := header_headerBytes (n := (-1 - n).toNat) 1 (by decide) (by omega) rest
    rw [bind_of_ok hh]
    change Except.ok (Item.integer (-1 - (-1 - n).toNat), rest) = _
    rw [Int.toNat_of_nonneg (by omega)]
    congr
    omega

lemma itemWith_bytes {bs : Bytes} (h : bs.length < 2^64) :
    itemWith inner ((Datum.bytes bs).encode ++ rest) = .ok (.bytes bs, rest) := by
  have hh := header_headerBytes 2 (by decide) h (bs ++ rest)
  rw [Datum.encode, List.append_assoc, itemWith, bind_of_ok hh]
  exact map_of_ok (take_append rfl rest) Item.bytes

/-- A text of at most one piece is read as a whole. -/
lemma itemWith_text {t : String} (h : (Utf8.encode t.toList).length ≤ pieceSize) :
    itemWith inner ((Datum.text t).encode ++ rest) = .ok (.text t, rest) := by
  have hlt : (Utf8.encode t.toList).length < 2^64 := Nat.lt_of_le_of_lt h (by decide)
  have hh := header_headerBytes 3 (by decide) hlt (Utf8.encode t.toList ++ rest)
  have hcontent := take_append (rfl : (Utf8.encode t.toList).length = _) rest
  have htext : textString (some (Utf8.encode t.toList).length) (Utf8.encode t.toList ++ rest) =
      .ok (t.toList, rest) := by
    rw [textString, bind_of_ok (get_eq _)]
    simp only [if_pos h]
    rw [bind_of_ok hcontent, Utf8.decode?_encode]
    rfl
  rw [Datum.encode, List.append_assoc, itemWith, bind_of_ok hh]
  refine (map_of_ok htext _).trans ?_
  rw [String.ofList_toList]

lemma itemWith_bool (b : Bool) :
    itemWith inner ((Datum.bool b).encode ++ rest) = .ok (.bool b, rest) := by
  cases b <;> rfl

lemma itemWith_null : itemWith inner (Datum.null.encode ++ rest) = .ok (.null, rest) := rfl

end

/-- A container is read when the reader inside reads its parts. -/
lemma itemWith_array {r : Reader Item} {items : List Datum} (fits : items.length < 2^64)
    (h : ∀ x ∈ items, ∀ rest, r (x.encode ++ rest) = .ok (x.item, rest)) (rest : Bytes) :
    itemWith (some r) ((Datum.array items).encode ++ rest) =
      .ok ((Datum.array items).item, rest) := by
  have hh := header_headerBytes 4 (by decide) fits (Datum.encodeAll items ++ rest)
  rw [Datum.encode, Datum.item, Datum.itemAll_eq, List.append_assoc, itemWith, bind_of_ok hh,
    Datum.encodeAll_eq]
  exact map_of_ok (exactly_flatMap h rest) Item.array

lemma itemWith_map {r : Reader Item} {entries : List (Datum × Datum)} (fits : entries.length < 2^64)
    (hk : ∀ e ∈ entries, ∀ rest, r (e.1.encode ++ rest) = .ok (e.1.item, rest))
    (hv : ∀ e ∈ entries, ∀ rest, r (e.2.encode ++ rest) = .ok (e.2.item, rest)) (rest : Bytes) :
    itemWith (some r) ((Datum.map entries).encode ++ rest) =
      .ok ((Datum.map entries).item, rest) := by
  have hh := header_headerBytes 5 (by decide) fits (Datum.encodeEntries entries ++ rest)
  have hentry : ∀ e ∈ entries, ∀ rest, entry r ((e.1.encode ++ e.2.encode) ++ rest) =
      .ok ((e.1.item, e.2.item), rest) := by
    intro e he rest
    rw [List.append_assoc, entry, bind_of_ok (hk e he _), bind_of_ok (hv e he rest)]
    rfl
  rw [Datum.encode, Datum.item, Datum.itemEntries_eq, List.append_assoc, itemWith, bind_of_ok hh,
    Datum.encodeEntries_eq]
  exact map_of_ok (exactly_flatMap hentry rest) Item.map

namespace Datum

/-- A part is no longer than the whole. -/
lemma length_le_flatMap {α : Type} (write : α → Bytes) {xs : List α} {x : α} (hx : x ∈ xs) :
    (write x).length ≤ (xs.flatMap write).length := by
  obtain ⟨before, after, rfl⟩ := List.append_of_mem hx
  simp only [List.flatMap_append, List.flatMap_cons, List.length_append]
  omega

/-- There are no more parts than bytes, if none is empty. -/
lemma count_le_flatMap {α : Type} {write : α → Bytes} (h : ∀ x, write x ≠ []) (xs : List α) :
    xs.length ≤ (xs.flatMap write).length := by
  induction xs with
  | nil => simp
  | cons x xs ih =>
    have hx := List.length_pos_iff.mpr (h x)
    simp only [List.flatMap_cons, List.length_append, List.length_cons]
    omega

theorem itemWithin_encode {levels : Nat} {x : Datum} (h : x.Within levels)
    (fits : x.encode.length < 2^64) (rest : Bytes) :
    itemWithin levels (x.encode ++ rest) = .ok (x.item, rest) := by
  have hleaf (levels : Nat) : ∃ inner, itemWithin levels = itemWith inner := by
    cases levels with
    | zero => exact ⟨none, rfl⟩
    | succ levels => exact ⟨some (itemWithin levels), rfl⟩
  induction h generalizing rest with
  | @integer levels n least greatest =>
    obtain ⟨inner, hi⟩ := hleaf levels
    rw [hi]
    exact itemWith_integer rest least greatest
  | @bytes levels bs =>
    obtain ⟨inner, hi⟩ := hleaf levels
    rw [encode, List.length_append] at fits
    rw [hi]
    exact itemWith_bytes rest (by omega)
  | @text levels t short =>
    obtain ⟨inner, hi⟩ := hleaf levels
    rw [hi]
    exact itemWith_text rest short
  | @bool levels b =>
    obtain ⟨inner, hi⟩ := hleaf levels
    rw [hi]
    exact itemWith_bool rest b
  | @null levels =>
    obtain ⟨inner, hi⟩ := hleaf levels
    rw [hi]
    exact itemWith_null rest
  | @array levels items all ih =>
    rw [encode, encodeAll_eq, List.length_append] at fits
    have hcount := count_le_flatMap encode_ne_nil items
    refine itemWith_array (by omega) (fun x hx => ih x hx ?_) rest
    have hpart := length_le_flatMap encode hx
    omega
  | @map levels entries keys values ihk ihv =>
    rw [encode, encodeEntries_eq, List.length_append] at fits
    have hne (e : Datum × Datum) : e.1.encode ++ e.2.encode ≠ [] := by simp [encode_ne_nil]
    have hcount := count_le_flatMap hne entries
    have hpart (e : Datum × Datum) (he : e ∈ entries) :
        e.1.encode.length + e.2.encode.length < 2^64 := by
      have hle := length_le_flatMap (fun e : Datum × Datum => e.1.encode ++ e.2.encode) he
      rw [List.length_append] at hle
      omega
    refine itemWith_map (by omega) (fun e he => ihk e he ?_) (fun e he => ihv e he ?_) rest
    · have := hpart e he
      omega
    · have := hpart e he
      omega

end Datum

/-- An encoded value of no more levels than the reader goes down is read back. -/
theorem item_encode {x : Datum} (h : x.Within maxDepth) (fits : x.encode.length < 2^64)
    (rest : Bytes) : item (x.encode ++ rest) = .ok (x.item, rest) :=
  Datum.itemWithin_encode h fits rest

end EvmListing.Cbor
