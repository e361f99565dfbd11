import EvmListing.Cbor.Reader
import EvmListing.Proofs.Text.Utf8
import EvmListing.Proofs.Word

/-! The values that compilers write as metadata, and their canonical encoding: definite lengths and
shortest headers. -/
namespace EvmListing.Cbor

/-- The shortest header of a major type with a number below 2^64. -/
def headerBytes (major n : Nat) : Bytes :=
  if n < 24 then [UInt8.ofNat (32*major + n)]
  else if n < 2^8 then UInt8.ofNat (32*major + 24) :: toBigEndian 1 n
  else if n < 2^16 then UInt8.ofNat (32*major + 25) :: toBigEndian 2 n
  else if n < 2^32 then UInt8.ofNat (32*major + 26) :: toBigEndian 4 n
  else UInt8.ofNat (32*major + 27) :: toBigEndian 8 n

/-- An item without floats and tags. -/
inductive Datum where
  | integer (value : Int)
  | bytes (content : Bytes)
  | text (content : String)
  | bool (value : Bool)
  | null
  | array (items : List Datum)
  | map (entries : List (Datum × Datum))

namespace Datum

mutual

def item : Datum → Item
  | integer n => .integer n
  | bytes bs => .bytes bs
  | text s => .text s
  | bool b => .bool b
  | null => .null
  | array items => .array (itemAll items)
  | map entries => .map (itemEntries entries)

def itemAll : List Datum → List Item
  | [] => []
  | x :: items => x.item :: itemAll items

def itemEntries : List (Datum × Datum) → List (Item × Item)
  | [] => []
  | (key, value) :: entries => (key.item, value.item) :: itemEntries entries

end

mutual

def encode : Datum → Bytes
  | integer n => if 0 ≤ n then headerBytes 0 n.toNat else headerBytes 1 (-1 - n).toNat
  | bytes bs => headerBytes 2 bs.length ++ bs
  | text s => headerBytes 3 (Utf8.encode s.toList).length ++ Utf8.encode s.toList
  | bool false => [0xF4]
  | bool true => [0xF5]
  | null => [0xF6]
  | array items => headerBytes 4 items.length ++ encodeAll items
  | map entries => headerBytes 5 entries.length ++ encodeEntries entries

def encodeAll : List Datum → Bytes
  | [] => []
  | x :: items => x.encode ++ encodeAll items

def encodeEntries : List (Datum × Datum) → Bytes
  | [] => []
  | (key, value) :: entries => key.encode ++ value.encode ++ encodeEntries entries

end

/-- Whether a value has at most the given number of levels of arrays and maps, integers of 64 bits
besides the sign, and no text longer than a piece. -/
inductive Within : Nat → Datum → Prop
  | integer {levels : Nat} {n : Int} (least : -2^64 ≤ n) (greatest : n < 2^64) :
      Within levels (integer n)
  | bytes {levels : Nat} (content : Bytes) : Within levels (bytes content)
  | text {levels : Nat} {s : String} (short : (Utf8.encode s.toList).length ≤ pieceSize) :
      Within levels (text s)
  | bool {levels : Nat} (value : Bool) : Within levels (bool value)
  | null {levels : Nat} : Within levels null
  | array {levels : Nat} {items : List Datum} (all : ∀ x ∈ items, Within levels x) :
      Within (levels + 1) (array items)
  | map {levels : Nat} {entries : List (Datum × Datum)} (keys : ∀ e ∈ entries, Within levels e.1)
      (values : ∀ e ∈ entries, Within levels e.2) : Within (levels + 1) (map entries)

theorem itemAll_eq (items : List Datum) : itemAll items = items.map item := by
  induction items with
  | nil => rfl
  | cons x items ih => rw [itemAll, ih, List.map_cons]

theorem itemEntries_eq (entries : List (Datum × Datum)) :
    itemEntries entries = entries.map fun e => (e.1.item, e.2.item) := by
  induction entries with
  | nil => rfl
  | cons e entries ih => rw [itemEntries, ih, List.map_cons]

theorem encodeAll_eq (items : List Datum) : encodeAll items = items.flatMap encode := by
  induction items with
  | nil => rfl
  | cons x items ih => rw [encodeAll, ih, List.flatMap_cons]

theorem encodeEntries_eq (entries : List (Datum × Datum)) :
    encodeEntries entries = entries.flatMap fun e => e.1.encode ++ e.2.encode := by
  induction entries with
  | nil => rfl
  | cons e entries ih => rw [encodeEntries, ih, List.flatMap_cons]

lemma headerBytes_ne_nil (major n : Nat) : headerBytes major n ≠ [] := by
  unfold headerBytes
  split_ifs <;> simp

theorem encode_ne_nil (x : Datum) : x.encode ≠ [] := by
  cases x with
  | integer n =>
    rw [encode]
    split <;> exact headerBytes_ne_nil _ _
  | bytes bs => simp [encode, headerBytes_ne_nil]
  | text s => simp [encode, headerBytes_ne_nil]
  | bool b => cases b <;> simp [encode]
  | null => simp [encode]
  | array items => simp [encode, headerBytes_ne_nil]
  | map entries => simp [encode, headerBytes_ne_nil]

example : (map [(text "a", integer (-1)), (text "b", array [bool true, null])]).encode =
    [0xA2, 0x61, 0x61, 0x20, 0x61, 0x62, 0x82, 0xF5, 0xF6] := by decide

end Datum
end EvmListing.Cbor
