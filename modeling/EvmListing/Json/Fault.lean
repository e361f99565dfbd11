import EvmListing.Binary64.Text
import EvmListing.Json.Ascii
import EvmListing.Text.Quoted

/-! What can be wrong with a JSON text, in words, and where. -/
namespace EvmListing.Json

/-- A value that stands where another kind of value is expected. -/
inductive Found where
  | null
  | bool (value : Bool)
  | integer (value : Int)
  | float (value : Binary64)
  | string (content : String)
  | sequence
  | map
  | unitVariant
  deriving DecidableEq, Repr

/-- Positional from 10^-5 up to below 10^16, and a sign in every exponent; a tie goes to the
even digit. -/
def floatStyle : Binary64.Style :=
  { leastPositional := -5, greatestPositional := 15, plus := true, tie := .even }

def ticked (s : String) : String := "`" ++ s ++ "`"

def Found.message : Found → String
  | null => "null"
  | bool value => "boolean " ++ ticked (if value then "true" else "false")
  | integer value => "integer " ++ ticked (toString value)
  | float value => "floating point " ++ ticked (value.text floatStyle)
  | string content => "string " ++ Text.quote content
  | sequence => "sequence"
  | map => "map"
  | unitVariant => "unit variant"

inductive Problem where
  | endInValue
  | endInList
  | endInObject
  | endInString
  | expectedColon
  | expectedCommaInList
  | expectedCommaInObject
  | expectedIdentifier
  | expectedValue
  | keyNotString
  | trailingComma
  | trailingCharacters
  | controlCharacter
  | invalidEscape
  | loneSurrogate
  | endOfEscape
  | invalidNumber
  | numberOutOfRange
  | invalidType (found : Found) (expected : String)
  | invalidValue (value : Int) (expected : String)
  | unknownVariant (name : String) (variants : List String)
  | duplicateField (name : String)
  deriving DecidableEq, Repr

def Problem.message : Problem → String
  | endInValue => "EOF while parsing a value"
  | endInList => "EOF while parsing a list"
  | endInObject => "EOF while parsing an object"
  | endInString => "EOF while parsing a string"
  | expectedColon => "expected `:`"
  | expectedCommaInList => "expected `,` or `]`"
  | expectedCommaInObject => "expected `,` or `\x7d`"
  | expectedIdentifier => "expected ident"
  | expectedValue => "expected value"
  | keyNotString => "key must be a string"
  | trailingComma => "trailing comma"
  | trailingCharacters => "trailing characters"
  | controlCharacter => "control character (\\u0000-\\u001F) found while parsing a string"
  | invalidEscape => "invalid escape"
  | loneSurrogate => "lone leading surrogate in hex escape"
  | endOfEscape => "unexpected end of hex escape"
  | invalidNumber => "invalid number"
  | numberOutOfRange => "number out of range"
  | invalidType found expected => "invalid type: " ++ found.message ++ ", expected " ++ expected
  | invalidValue value expected =>
    "invalid value: integer " ++ ticked (toString value) ++ ", expected " ++ expected
  | unknownVariant name variants =>
    "unknown variant " ++ ticked name ++ ", expected " ++ " or ".intercalate (variants.map ticked)
  | duplicateField name => "duplicate field " ++ ticked name

/-- A problem and the bytes after the place where it was noticed. -/
structure Fault where
  problem : Problem
  rest : Bytes
  deriving DecidableEq, Repr

/-- The line and the column reached by reading the given bytes. Lines count from 1; a column is the
number of bytes since the last line feed. -/
def position (read : Bytes) : Nat × Nat :=
  (read.count Ascii.lineFeed + 1, (read.reverse.takeWhile (· != Ascii.lineFeed)).length)

/-- The fault in words, for the text it was found in. -/
def Fault.message (text : Bytes) (fault : Fault) : String :=
  let (line, column) := position (text.take (text.length - fault.rest.length))
  s!"{fault.problem.message} at line {line} column {column}"

example : position [0x7B, 0x0A, 0x20] = (2, 1) := by decide

end EvmListing.Json
