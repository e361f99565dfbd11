import EvmListing.Text.Utf8

/-! Numbers below 2^64 as decimal digits after an optional plus. -/
namespace EvmListing.Size

inductive Fault where
  | empty
  | notDigit
  | tooLarge
  deriving DecidableEq, Repr

def Fault.message : Fault → String
  | empty => "cannot parse integer from empty string"
  | notDigit => "invalid digit found in string"
  | tooLarge => "number too large to fit in target type"

/-- Appends digits to a number. At each digit its form is checked before the size of the result. -/
def ofDigits (n : Nat) : List Char → Except Fault Nat
  | [] => .ok n
  | c :: cs =>
    if !c.isDigit then .error .notDigit
    else
      let m := 10*n + (c.toNat - '0'.toNat)
      if m < 2^64 then ofDigits m cs else .error .tooLarge

def ofText (s : String) : Except Fault Nat :=
  match s.toList with
  | [] => .error .empty
  | ['+'] => .error .notDigit
  | '+' :: cs => ofDigits 0 cs
  | cs => ofDigits 0 cs

end EvmListing.Size
