import EvmListing.Binary64.Shortest

/-! Floating-point numbers as text: shortest digits, positional in a middle range of magnitudes and
with an exponent outside it. A `Style` holds what one kind of text decides for itself. -/
namespace EvmListing.Binary64

/-- Positional notation is used for leading digits between the two powers of ten. -/
structure Style where
  leastPositional : Int
  greatestPositional : Int
  /-- Whether an exponent that is not negative bears a plus sign. -/
  plus : Bool
  tie : Tie
  deriving DecidableEq, Repr

/-- Digits with the point after the one for 10^0, and at least one digit on either side of it. -/
def positional (d : Decimal) : List Char :=
  if d.exponent < 0 then
    '0' :: '.' :: List.replicate (-d.exponent - 1).toNat '0' ++ d.digits
  else
    let whole := d.exponent.toNat + 1
    let fraction := d.digits.drop whole
    d.digits.take whole ++ List.replicate (whole - d.digits.length) '0' ++
      '.' :: (if fraction.isEmpty then ['0'] else fraction)

/-- One digit before the point, which is left out if no digit follows it. -/
def scientific (style : Style) (d : Decimal) : List Char :=
  let fraction := d.digits.drop 1
  let sign := if d.exponent < 0 then ['-'] else if style.plus then ['+'] else []
  d.digits.take 1 ++ (if fraction.isEmpty then [] else '.' :: fraction) ++
    'e' :: sign ++ Nat.toDigits 10 d.exponent.natAbs

def magnitudeText (style : Style) (m : Nat) (e : Int) : List Char :=
  if m = 0 then ['0', '.', '0']
  else
    let d := shortest style.tie m e
    if style.leastPositional ≤ d.exponent ∧ d.exponent ≤ style.greatestPositional then positional d
    else scientific style d

def text (style : Style) : Binary64 → String
  | nan => "NaN"
  | infinity negative => if negative then "-inf" else "inf"
  | finite negative m e =>
    String.ofList ((if negative then ['-'] else []) ++ magnitudeText style m e)

end EvmListing.Binary64
