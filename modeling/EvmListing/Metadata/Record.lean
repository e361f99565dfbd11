import EvmListing.Cbor.Item
import EvmListing.Hex

/-! Compiler metadata as a record: a place for each known key, and the other entries rendered as
text under their keys. -/
namespace EvmListing

structure Metadata where
  solc : Option String := none
  ipfs : Option String := none
  bzzr0 : Option String := none
  bzzr1 : Option String := none
  experimental : Bool := false
  /-- Ascending in the code points of the keys, which is the order of their UTF-8 bytes. -/
  extra : List (String × String) := []
  /-- The bytes that the metadata took at the end of the code, length field included. -/
  length : Nat := 0
  deriving DecidableEq, Repr

namespace Metadata
open Cbor (Item)

/-- Puts an entry among entries with ascending keys, where it replaces one with the same key. -/
def insert (key value : String) : List (String × String) → List (String × String)
  | [] => [(key, value)]
  | (k, v) :: entries =>
    if key < k then (key, value) :: (k, v) :: entries
    else if key = k then (key, value) :: entries
    else (k, v) :: insert key value entries

/-- An item as text: strings and numbers plainly, all else in full. -/
def render : Item → String
  | .bytes content => Hex.encode content
  | .text content => content
  | .bool value => if value then "true" else "false"
  | .integer value => toString value
  | item => item.inspect

/-- A version given by three bytes. -/
def dotted (major minor patch : UInt8) : String :=
  ".".intercalate [toString major.toNat, toString minor.toNat, toString patch.toNat]

/-- Records one entry. A known key whose value has an unexpected form counts as any other key. -/
def put (m : Metadata) (key : String) (value : Item) : Metadata :=
  match key, value with
  | "solc", .bytes [major, minor, patch] => { m with solc := some (dotted major minor patch) }
  | "solc", .text content => { m with solc := some content }
  | "ipfs", .bytes content => { m with ipfs := some (Hex.encode content) }
  | "bzzr0", .bytes content => { m with bzzr0 := some (Hex.encode content) }
  | "bzzr1", .bytes content => { m with bzzr1 := some (Hex.encode content) }
  | "experimental", .bool value => { m with experimental := value }
  | key, value => { m with extra := insert key (render value) m.extra }

/-- Records entries in order, so that of two for one place the later stays. Fails with the first key
that is no text. -/
def ofEntries (m : Metadata) : List (Item × Item) → Except Item Metadata
  | [] => .ok m
  | (.text key, value) :: entries => ofEntries (m.put key value) entries
  | (key, _) :: _ => .error key

end Metadata
end EvmListing
