import EvmListing.Json.Scanner

/-! Numbers in JSON. An integer keeps its value as long as it fits 64 bits, signed below zero; every
other number becomes a floating-point one, from the digits that fit 64 bits and a power of ten. -/
namespace EvmListing.Json

inductive Number where
  | integer (value : Int)
  | float (value : Binary64)
  deriving DecidableEq, Repr

def Number.found : Number → Found
  | integer value => .integer value
  | float value => .float value

def digitValue (b : UInt8) : Nat := b.toNat - 0x30

/-- Appends digits to a number while the result stays below 2^64. Gives the number and what of the
digits was left. -/
def accumulate (n : Nat) : Bytes → Nat × Bytes
  | [] => (n, [])
  | d :: ds =>
    let m := 10*n + digitValue d
    if m < 2^64 then accumulate m ds else (n, d :: ds)

/-- The greatest power of ten used in one step. -/
def greatestPower : Int := 308

/-- The number of significand times 10^exponent, step by step and rounded at each. Two divisions by
the greatest power bring every significand to zero, so the first argument need not exceed four. -/
def compose : Nat → Binary64 → Int → Scanner Binary64
  | 0, x, _ => pure x
  | bound+1, x, exponent =>
    if exponent.natAbs ≤ greatestPower then
      let y := x.scaleTen exponent
      if y.isInfinite then fail .numberOutOfRange else pure y
    else if x.isZero then pure x
    else if 0 ≤ exponent then fail .numberOutOfRange
    else compose bound (x.scaleTen (-greatestPower)) (exponent + greatestPower)

def signed (negative : Bool) (x : Binary64) : Binary64 := if negative then x.neg else x

def ofParts (negative : Bool) (significand : Nat) (exponent : Int) : Scanner Binary64 :=
  signed negative <$> compose 4 (.ofNat significand) exponent

/-- The digits of an exponent, or the point where they leave 31 bits. -/
def exponentValue (n : Nat) : Bytes → Option Nat
  | [] => some n
  | d :: ds =>
    let m := 10*n + digitValue d
    if m < 2^31 then exponentValue m ds else none

/-- A sign, if there is one: whether it is a minus. -/
def exponentSign : Scanner Bool := do
  match ← peek with
  | some Ascii.plus =>
    let _ ← next
    return false
  | some Ascii.minus =>
    let _ ← next
    return true
  | _ => return false

/-- Where digits leave 31 bits. The byte that does so counts as read. -/
def overflowPoint (n : Nat) : Bytes → Bytes
  | [] => []
  | d :: ds =>
    let m := 10*n + digitValue d
    if m < 2^31 then overflowPoint m ds else ds

/-- What follows the letter of an exponent. -/
def exponentPart (negative : Bool) (significand : Nat) (start : Int) : Scanner Binary64 := do
  let down ← exponentSign
  match ← next with
  | none => fail .endInValue
  | some first =>
    if !isDigit first then fail .invalidNumber
    let s ← get
    let more ← digits
    match exponentValue (digitValue first) more with
    | some n => ofParts negative significand (if down then start - n else start + n)
    | none =>
      if significand ≠ 0 ∧ !down then
        -- The fault is noticed before the digits that follow.
        set (overflowPoint (digitValue first) more ++ s.drop more.length)
        fail .numberOutOfRange
      else return signed negative (.ofNat 0)

def nextIsExponent : Scanner Bool := fun s =>
  .ok (s.head? == some Ascii.lowerE || s.head? == some Ascii.upperE, s)

/-- An exponent, if one follows. -/
def optionalExponent (negative : Bool) (significand : Nat) (exponent : Int) : Scanner Binary64 := do
  if ← nextIsExponent then
    let _ ← next
    exponentPart negative significand exponent
  else ofParts negative significand exponent

/-- What follows the point. Digits that do not fit the significand are dropped. -/
def fractionPart (negative : Bool) (significand : Nat) (exponent : Int) : Scanner Binary64 := do
  let ds ← digits
  if ds.isEmpty then
    match ← peek with
    | some _ => failAtNext .invalidNumber
    | none => failAtNext .endInValue
  else
    let (n, left) := accumulate significand ds
    let used := ds.length - left.length
    optionalExponent negative n (exponent - used)

/-- What follows an integer part whose last digits, as many as the exponent says, were dropped. -/
def afterInteger (negative : Bool) (significand : Nat) (exponent : Int) : Scanner Binary64 := do
  if (← peek) = some Ascii.point then
    let _ ← next
    fractionPart negative significand exponent
  else optionalExponent negative significand exponent

/-- An integer that fits, or a float for any other number. Zero with a minus is a float. -/
def afterSmallInteger (negative : Bool) (significand : Nat) : Scanner Number := do
  if (← peek) = some Ascii.point ∨ (← nextIsExponent) then
    Number.float <$> afterInteger negative significand 0
  else if negative then
    if 0 < significand ∧ significand ≤ 2^63 then return .integer (-significand)
    else return .float (signed true (.ofNat significand))
  else return .integer significand

/-- A number after its minus, if it has one. A zero in front admits no further digit. -/
def number (negative : Bool) : Scanner Number := do
  match ← next with
  | none => fail .endInValue
  | some first =>
    if first = Ascii.zero then
      if ← nextIsDigit then failAtNext .invalidNumber
      afterSmallInteger negative 0
    else if isDigit first then
      let ds ← digits
      let (n, left) := accumulate (digitValue first) ds
      if left.isEmpty then afterSmallInteger negative n
      else Number.float <$> afterInteger negative n left.length
    else fail .invalidNumber

/-- A number whose value does not matter. -/
def skipNumber : Scanner Unit := do
  match ← next with
  | none => fail .invalidNumber
  | some first =>
    if first = Ascii.zero then
      if ← nextIsDigit then failAtNext .invalidNumber
    else if isDigit first then
      let _ ← digits
    else fail .invalidNumber
    if (← peek) = some Ascii.point then
      let _ ← next
      let ds ← digits
      if ds.isEmpty then failAtNext .invalidNumber
    if ← nextIsExponent then
      let _ ← next
      let _ ← exponentSign
      match ← next with
      | none => fail .invalidNumber
      | some b => if !isDigit b then fail .invalidNumber
      let _ ← digits

end EvmListing.Json
