import EvmListing.Settings.Basic
import EvmListing.Json.Skip

/-! Settings given as JSON: an object with any of the three fields, or an array of the fields in
order. Absent fields keep their defaults and unknown ones are passed over. -/
namespace EvmListing.Settings
open Json

inductive Field where
  | stripMetadata
  | scan
  | unassigned
  deriving DecidableEq, Repr

def Field.key : Field → String
  | stripMetadata => "strip_metadata"
  | scan => "metadata_scan"
  | unassigned => "unknown_opcodes"

/-- The field with the given key. -/
def Field.ofKey? (key : Bytes) : Option Field :=
  [stripMetadata, scan, unassigned].find? fun field => Utf8.encode field.key.toList == key

/-- The fields read so far. -/
structure Fields where
  stripMetadata : Option Bool := none
  scan : Option Scan := none
  unassigned : Option Policy := none
  deriving DecidableEq, Repr

def Fields.has (fields : Fields) : Field → Bool
  | .stripMetadata => fields.stripMetadata.isSome
  | .scan => fields.scan.isSome
  | .unassigned => fields.unassigned.isSome

/-- The settings, with the default for each field that was not read. -/
def Fields.settings (fields : Fields) : Settings :=
  let default : Settings := {}
  { stripMetadata := fields.stripMetadata.getD default.stripMetadata
    scan := fields.scan.getD default.scan
    unassigned := fields.unassigned.getD default.unassigned }

/-- Reads a value that is not of the expected kind and fails. A value with parts is left unread. -/
def wrongType {α : Type} (expected : String) : Scanner α := do
  match ← peek with
  | some Ascii.lowerN =>
    let _ ← next
    literal afterN
    fail (.invalidType .null expected)
  | some Ascii.lowerT =>
    let _ ← next
    literal afterT
    fail (.invalidType (.bool true) expected)
  | some Ascii.lowerF =>
    let _ ← next
    literal afterF
    fail (.invalidType (.bool false) expected)
  | some Ascii.minus =>
    let _ ← next
    let n ← number true
    fail (.invalidType n.found expected)
  | some Ascii.quote =>
    let _ ← next
    let content ← string
    fail (.invalidType (.string (contentText content)) expected)
  | some Ascii.openBracket => fail (.invalidType .sequence expected)
  | some Ascii.openBrace => fail (.invalidType .map expected)
  | some b =>
    if isDigit b then
      let n ← number false
      fail (.invalidType n.found expected)
    else failAtNext .expectedValue
  | none => failAtNext .expectedValue

def bool : Scanner Bool := do
  match ← peekToken with
  | none => failAtNext .endInValue
  | some Ascii.lowerT =>
    let _ ← next
    literal afterT
    return true
  | some Ascii.lowerF =>
    let _ ← next
    literal afterF
    return false
  | some _ => wrongType "a boolean"

/-- A number of bytes, below 2^64. -/
def size : Scanner Nat := do
  let read (negative : Bool) : Scanner Nat := do
    match ← number negative with
    | .integer n =>
      if n < 0 then fail (.invalidValue n "usize") else return n.toNat
    | .float x => fail (.invalidType (.float x) "usize")
  match ← peekToken with
  | none => failAtNext .endInValue
  | some Ascii.minus =>
    let _ ← next
    read true
  | some b => if isDigit b then read false else wrongType "usize"

/-- The value null. -/
def unit : Scanner Unit := do
  match ← peekToken with
  | none => failAtNext .endInValue
  | some Ascii.lowerN =>
    let _ ← next
    literal afterN
  | some _ => wrongType "unit"

/-- One of several named variants. -/
structure Variant (α : Type) where
  name : String
  /-- The value that the name alone stands for, if it does stand for one. -/
  alone : Option α
  /-- Reads what belongs to the name. -/
  content : Scanner α

/-- A variant without content: its name alone, or with null in place of content. -/
def Variant.plain {α : Type} (name : String) (value : α) : Variant α :=
  { name, alone := some value, content := do unit; return value }

/-- Reads the rest of a string that names a variant. -/
def variantName {α : Type} (variants : List (Variant α)) : Scanner (Variant α) := do
  let name ← string
  match variants.find? fun v => Utf8.encode v.name.toList == name with
  | some v => return v
  | none => fail (.unknownVariant (contentText name) (variants.map (·.name)))

/-- Reads a variant: its name as a string, or an object with the name as its only key. A problem
that has no place yet is handed on as a value. -/
def variant {α : Type} (variants : List (Variant α)) : Scanner (Except Problem α) := do
  match ← peekToken with
  | none => failAtNext .endInValue
  | some Ascii.quote =>
    let _ ← next
    let v ← variantName variants
    match v.alone with
    | some value => return .ok value
    | none => return .error (.invalidType .unitVariant "newtype variant")
  | some Ascii.openBrace =>
    let _ ← next
    let v ← match ← peekToken with
      | none => failAtNext .endInObject
      | some Ascii.quote => do
        let _ ← next
        variantName variants
      | some Ascii.closeBrace => failAtNext .expectedValue
      | some _ => failAtNext .keyNotString
    colon
    let value ← v.content
    match ← peekToken with
    | some Ascii.closeBrace =>
      let _ ← next
      return .ok value
    | some _ => fail .expectedValue
    | none => fail .endInObject
  | some _ => failAtNext .expectedValue

def scanVariants : List (Variant Scan) :=
  [.plain "anywhere" .anywhere,
   { name := "trailing", alone := none, content := Scan.trailing <$> size }]

def policyVariants : List (Variant Policy) :=
  [.plain "sentinel" .sentinel, .plain "reject" .reject]

/-- Reads the value of a field. -/
def Fields.read (fields : Fields) : Field → Scanner (Except Problem Fields)
  | .stripMetadata => do
    let value ← bool
    return .ok { fields with stripMetadata := some value }
  | .scan => do
    let value ← variant scanVariants
    return value.map fun value => { fields with scan := some value }
  | .unassigned => do
    let value ← variant policyVariants
    return value.map fun value => { fields with unassigned := some value }

/-- Moves on to the next key and takes its opening mark, or stops before the closing brace. -/
def nextKey (first : Bool) : Scanner Bool := do
  let token ← match ← peekToken with
    | none => failAtNext .endInObject
    | some Ascii.closeBrace => return false
    | some b => do
      if first then pure (some b)
      else if b = Ascii.comma then
        let _ ← next
        peekToken
      else failAtNext .expectedCommaInObject
  match token with
  | some Ascii.quote =>
    let _ ← next
    return true
  | some Ascii.closeBrace => failAtNext .trailingComma
  | some _ => failAtNext .keyNotString
  | none => failAtNext .endInValue

/-- Reads the members of an object; the first argument bounds their number. -/
def members : Nat → Bool → Fields → Scanner (Except Problem Fields)
  | 0, _, _ => failAtNext .endInObject
  | bound+1, first, fields => do
    if !(← nextKey first) then return .ok fields
    let key ← string
    match Field.ofKey? key with
    | none =>
      colon
      skipValue
      members bound false fields
    | some field =>
      if fields.has field then return .error (.duplicateField field.key)
      colon
      match ← fields.read field with
      | .error problem => return .error problem
      | .ok fields => members bound false fields

/-- Moves on to the next element of an array, or stops before the closing bracket. -/
def nextElement (first : Bool) : Scanner Bool := do
  match ← peekToken with
  | none => failAtNext .endInList
  | some Ascii.closeBracket => return false
  | some b =>
    if first then return true
    else if b = Ascii.comma then
      let _ ← next
      match ← peekToken with
      | some Ascii.closeBracket => failAtNext .trailingComma
      | none => failAtNext .endInValue
      | some _ => return true
    else failAtNext .expectedCommaInList

/-- Reads fields in order, as many as there are elements. -/
def elements (first : Bool) (fields : Fields) : List Field → Scanner (Except Problem Fields)
  | [] => return .ok fields
  | field :: more => do
    if !(← nextElement first) then return .ok fields
    match ← fields.read field with
    | .error problem => return .error problem
    | .ok fields => elements false fields more

/-- Takes the brace that closes an object. -/
def closeObject : Scanner Unit := do
  match ← peekToken with
  | some Ascii.closeBrace =>
    let _ ← next
  | some Ascii.comma => failAtNext .trailingComma
  | some _ => failAtNext .trailingCharacters
  | none => failAtNext .endInObject

/-- Takes the bracket that closes an array. -/
def closeList : Scanner Unit := do
  match ← peekToken with
  | some Ascii.closeBracket =>
    let _ ← next
  | some Ascii.comma =>
    let _ ← next
    if (← peekToken) = some Ascii.closeBracket then failAtNext .trailingComma
    else failAtNext .trailingCharacters
  | some _ => failAtNext .trailingCharacters
  | none => failAtNext .endInList

/-- Where closing an object gets to, whether or not it succeeds. -/
def afterObject (s : Bytes) : Bytes :=
  match s.dropWhile isBlank with
  | Ascii.closeBrace :: rest => rest
  | s => s

/-- Where closing an array gets to, whether or not it succeeds. -/
def afterList (s : Bytes) : Bytes :=
  match s.dropWhile isBlank with
  | Ascii.closeBracket :: rest => rest
  | Ascii.comma :: rest => rest.dropWhile isBlank
  | s => s

/-- Closes what the fields were read from. A problem without a place gets the one reached then. -/
def close (closing : Scanner Unit) (after : Bytes → Bytes) :
    Except Problem Fields → Scanner Settings
  | .ok fields => do
    closing
    return fields.settings
  | .error problem => do
    let s ← get
    set (after s)
    fail problem

/-- Reads settings and makes sure that nothing follows them. -/
def reader : Scanner Settings := do
  let settings ← match ← peekToken with
    | none => failAtNext .endInValue
    | some Ascii.openBracket => do
      let _ ← next
      let fields ← elements true {} [.stripMetadata, .scan, .unassigned]
      close closeList afterList fields
    | some Ascii.openBrace => do
      let _ ← next
      let s ← get
      let fields ← members (s.length + 1) true {}
      close closeObject afterObject fields
    | some _ => wrongType "struct DisasmConfig"
  if (← peekToken).isSome then failAtNext .trailingCharacters
  return settings

/-- The settings that a JSON text holds. -/
def ofJson (text : String) : Except String Settings :=
  let bytes := Utf8.encode text.toList
  match reader bytes with
  | .ok (settings, _) => .ok settings
  | .error fault => .error (fault.message bytes)

end EvmListing.Settings
