import EvmListing.Binary64.Basic

/-! The fewest decimal digits that read back as a number, and of those the nearest to it. The reals
that round to m·2^e form an interval around it, ends included when m is even. For each count of
digits only the two neighbours of the number on that decimal grid need a look: if any point of a
grid lies in the interval, one of the two does. -/
namespace EvmListing.Binary64

/-- A number and the ends of its rounding interval, as numerators over one denominator. -/
structure Neighbourhood where
  low : Nat
  value : Nat
  high : Nat
  denominator : Nat
  closed : Bool

/-- Below a power of two the neighbours are half as far away, except at the least exponent. -/
def neighbourhood (m : Nat) (e : Int) : Neighbourhood :=
  let up := (e - 2).toNat
  let down := (2 - e).toNat
  let below := if m = 2^52 ∧ leastExponent < e then 1 else 2
  { low := (4*m - below) * 2^up
    value := 4*m * 2^up
    high := (4*m + 2) * 2^up
    denominator := 2^down
    closed := m % 2 = 0 }

/-- The neighbourhood in units of 10^k. -/
def Neighbourhood.inUnits (v : Neighbourhood) (k : Int) : Neighbourhood :=
  let up := 10^(-k).toNat
  { v with
    low := v.low * up
    value := v.value * up
    high := v.high * up
    denominator := v.denominator * 10^k.toNat }

def Neighbourhood.contains (v : Neighbourhood) (n : Nat) : Bool :=
  let x := n * v.denominator
  if v.closed then v.low ≤ x && x ≤ v.high else v.low < x && x < v.high

def decimalLength (n : Nat) : Nat := (Nat.toDigits 10 n).length

/-- The exponent of the leading decimal digit. -/
def Neighbourhood.magnitude (v : Neighbourhood) : Int :=
  if v.denominator ≤ v.value then decimalLength (v.value / v.denominator) - 1
  else
    let places := decimalLength (v.denominator / v.value)
    if v.denominator ≤ v.value * 10^(places - 1) then 1 - (places : Int) else -(places : Int)

/-- Which of two equally near decimals is taken. -/
inductive Tie where
  | greater
  | even
  deriving DecidableEq, Repr

/-- Whether a tie goes to the integer below. -/
def Tie.goesBelow (tie : Tie) (below : Nat) : Bool := tie = even && below % 2 = 0

/-- The integer next to the value that lies in the neighbourhood. Of two the nearer is taken. -/
def Neighbourhood.hit? (tie : Tie) (v : Neighbourhood) : Option Nat :=
  let below := v.value / v.denominator
  let left := 2*(v.value % v.denominator)
  match v.contains below, v.contains (below + 1) with
  | true, true =>
    if left < v.denominator || (left = v.denominator && tie.goesBelow below) then some below
    else some (below + 1)
  | true, false => some below
  | false, true => some (below + 1)
  | false, false => none

/-- A positive decimal: its digits without zeros at the end, and the exponent of the first one. -/
structure Decimal where
  digits : List Char
  exponent : Int
  deriving DecidableEq, Repr

/-- The decimal n·10^k. -/
def Decimal.ofUnits (n : Nat) (k : Int) : Decimal :=
  let digits := Nat.toDigits 10 n
  { digits := (digits.reverse.dropWhile (· == '0')).reverse
    exponent := k + digits.length - 1 }

/-- Tries grids of more and more digits. Seventeen suffice, so the last grid is taken as is. -/
def search (tie : Tie) (v : Neighbourhood) (magnitude : Int) : Nat → Nat → Decimal
  | 0, digits =>
    let k := magnitude + 1 - digits
    let w := v.inUnits k
    .ofUnits (w.value / w.denominator) k
  | more+1, digits =>
    let k := magnitude + 1 - digits
    match (v.inUnits k).hit? tie with
    | some n => .ofUnits n k
    | none => search tie v magnitude more (digits + 1)

/-- The shortest decimal for m·2^e, where m is positive. -/
def shortest (tie : Tie) (m : Nat) (e : Int) : Decimal :=
  let v := neighbourhood m e
  search tie v v.magnitude 17 1

example : shortest .even 6755399441055744 (-52) = ⟨['1', '5'], 0⟩ := by decide +kernel
example : shortest .greater 1 (-1074) = ⟨['5'], -324⟩ := by decide +kernel

end EvmListing.Binary64
