import EvmListing.Text.Unprintable

/-! Texts and characters between quotation marks, on one line and with nothing invisible in them. -/
namespace EvmListing.Text

/-- A code point in braces, lower-case hex without leading zeros. -/
def codePoint (c : Char) : List Char :=
  ['\\', 'u', '\x7b'] ++ Nat.toDigits 16 c.toNat ++ ['\x7d']

/-- A character inside quotation marks of the given kind. -/
def escape (mark c : Char) : List Char :=
  if c = '\x00' then ['\\', '0']
  else if c = '\t' then ['\\', 't']
  else if c = '\r' then ['\\', 'r']
  else if c = '\n' then ['\\', 'n']
  else if c = mark ∨ c = '\\' then ['\\', c]
  else if isUnprintable c then codePoint c
  else [c]

/-- A text between double quotation marks. -/
def quote (s : String) : String :=
  String.ofList ('"' :: s.toList.flatMap (escape '"') ++ ['"'])

/-- A character between single quotation marks. -/
def quoteChar (c : Char) : String := String.ofList ('\'' :: escape '\'' c ++ ['\''])

/-- An optional text, as `None` or `Some` with the text quoted. -/
def quoteOption : Option String → String
  | none => "None"
  | some s => "Some(" ++ quote s ++ ")"

example : escape '"' '\'' = ['\''] := by decide
example : escape '\'' '\'' = ['\\', '\''] := by decide

end EvmListing.Text
