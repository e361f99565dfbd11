import EvmListing.Power

/-! Binary floating-point numbers of double precision as exact rationals with a sign: a significand
below 2^53 times a power of two. Every operation rounds its exact result to the nearest number, and
a tie to the one with the even significand. -/
namespace EvmListing

/-- The sign is kept apart, since zero has both. A finite number is canonical when its significand
fills all 53 bits or its exponent is the least one. -/
inductive Binary64 where
  | nan
  | infinity (negative : Bool)
  | finite (negative : Bool) (significand : Nat) (exponent : Int)
  deriving DecidableEq, Repr

namespace Binary64

def leastExponent : Int := -1074

def greatestExponent : Int := 971

/-- The number of bits of `n`. -/
def bitLength (n : Nat) : Nat := if n = 0 then 0 else n.log2 + 1

/-- Moves the significand up as far as 53 bits and the least exponent allow; the value stays. -/
def normalize (negative : Bool) (m : Nat) (e : Int) : Binary64 :=
  if m = 0 then finite negative 0 leastExponent
  else
    let shift := min (53 - bitLength m) (e - leastExponent).toNat
    finite negative (m * 2^shift) (e - shift)

/-- Reads an interchange format with the given widths of exponent and fraction, at most those of
double precision, so that the value is exact. -/
def ofInterchange (exponentBits fractionBits bits : Nat) : Binary64 :=
  let fraction := bits % 2^fractionBits
  let biased := bits / 2^fractionBits % 2^exponentBits
  let negative := bits / 2^(fractionBits + exponentBits) % 2 == 1
  let bias : Int := 2^(exponentBits - 1) - 1 + fractionBits
  if biased = 2^exponentBits - 1 then
    if fraction = 0 then infinity negative else nan
  else if biased = 0 then normalize negative fraction (1 - bias)
  else normalize negative (2^fractionBits + fraction) (biased - bias)

def ofHalf (bits : Nat) : Binary64 := ofInterchange 5 10 bits

def ofSingle (bits : Nat) : Binary64 := ofInterchange 8 23 bits

def ofDouble (bits : Nat) : Binary64 := ofInterchange 11 52 bits

/-- The quotient rounded to the nearest integer, a tie to the even one. -/
def roundDiv (n d : Nat) : Nat :=
  let q := n / d
  let r := n % d
  if d < 2*r ∨ (2*r = d ∧ q % 2 = 1) then q + 1 else q

/-- The integer part of n·2^e/d in units of 2^k, and the same rounded. -/
def inUnits (n d : Nat) (e k : Int) : Nat × Nat :=
  let n := n * 2^(e - k).toNat
  let d := d * 2^(k - e).toNat
  (n / d, roundDiv n d)

/-- The number nearest to n·2^e/d, infinite from half a unit above the greatest number on. -/
def ofRatio (negative : Bool) (n d : Nat) (e : Int) : Binary64 :=
  if n = 0 ∨ d = 0 then finite negative 0 leastExponent
  else
    -- In these units the quotient has 53 or 54 bits, or fewer at the least exponent.
    let k := max (e + bitLength n - bitLength d - 53) leastExponent
    let exponent := if 2^53 ≤ (inUnits n d e k).1 then k + 1 else k
    let significand := (inUnits n d e exponent).2
    -- Rounding may carry into one bit more.
    let (significand, exponent) :=
      if significand = 2^53 then (2^52, exponent + 1) else (significand, exponent)
    if greatestExponent < exponent then infinity negative
    else finite negative significand exponent

def ofNat (n : Nat) : Binary64 := ofRatio false n 1 0

def isInfinite : Binary64 → Bool
  | infinity _ => true
  | _ => false

def isZero : Binary64 → Bool
  | finite _ 0 _ => true
  | _ => false

def neg : Binary64 → Binary64
  | nan => nan
  | infinity negative => infinity !negative
  | finite negative m e => finite (!negative) m e

/-- Multiplies by the number nearest to 10^k, or divides by the one nearest to 10^-k. -/
def scaleTen (x : Binary64) (k : Int) : Binary64 :=
  match x, ofNat (10^k.natAbs) with
  | finite negative m e, finite _ m' e' =>
    if 0 ≤ k then ofRatio negative (m * m') 1 (e + e') else ofRatio negative m m' (e - e')
  | x, _ => x

example : ofRatio false 1 3 0 = finite false 6004799503160661 (-54) := by decide +kernel
example : ofHalf 0x3E00 = finite false 6755399441055744 (-52) := by decide +kernel

end Binary64
end EvmListing
