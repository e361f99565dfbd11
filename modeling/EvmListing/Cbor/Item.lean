import EvmListing.Binary64.Text
import EvmListing.Bytes
import EvmListing.Text.Quoted

/-! The data items of CBOR, and a one-line text that shows the whole of an item. -/
namespace EvmListing.Cbor

/-- Integers reach from -2^64 to 2^64-1; undefined is read as null. -/
inductive Item where
  | integer (value : Int)
  | bytes (content : Bytes)
  | text (content : String)
  | bool (value : Bool)
  | null
  | float (value : Binary64)
  | tag (number : Nat) (content : Item)
  | array (items : List Item)
  | map (entries : List (Item × Item))

namespace Item

/-- Positional from 10^-4 up to below 10^16; a tie goes to the greater decimal. -/
def floatStyle : Binary64.Style :=
  { leastPositional := -4, greatestPositional := 15, plus := false, tie := .greater }

def parens (name body : String) : String := name ++ "(" ++ body ++ ")"

def brackets (parts : List String) : String := "[" ++ ", ".intercalate parts ++ "]"

mutual

/-- The item as nested constructors with their contents. -/
def inspect : Item → String
  | integer n => parens "Integer" (parens "Integer" (toString n))
  | bytes bs => parens "Bytes" (brackets (bs.map fun b => toString b.toNat))
  | text s => parens "Text" (Text.quote s)
  | bool b => parens "Bool" (if b then "true" else "false")
  | null => "Null"
  | float x => parens "Float" (x.text floatStyle)
  | tag n item => parens "Tag" (toString n ++ ", " ++ item.inspect)
  | array items => parens "Array" (brackets (inspectAll items))
  | map entries => parens "Map" (brackets (inspectEntries entries))

def inspectAll : List Item → List String
  | [] => []
  | item :: items => item.inspect :: inspectAll items

def inspectEntries : List (Item × Item) → List String
  | [] => []
  | (key, value) :: entries =>
    ("(" ++ key.inspect ++ ", " ++ value.inspect ++ ")") :: inspectEntries entries

end

end Item
end EvmListing.Cbor
