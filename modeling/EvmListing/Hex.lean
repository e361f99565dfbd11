import EvmListing.Bytes
import EvmListing.Text.Blank
import EvmListing.Text.Quoted
import EvmListing.Text.Utf8

/-! Bytes as pairs of hex digits, and the texts that callers write for them: blanks around, a mark
`0x` in front, digits of either case. Writing uses the mark and lower case. -/
namespace EvmListing.Hex

/-- The two lower-case digits of a byte. -/
def ofByte (b : UInt8) : List Char :=
  [Nat.digitChar (b.toNat / 16), Nat.digitChar (b.toNat % 16)]

def digits (bs : Bytes) : List Char := bs.flatMap ofByte

@[simp] theorem digits_nil : digits [] = [] := rfl

@[simp] theorem digits_cons (b : UInt8) (bs : Bytes) :
    digits (b :: bs) = ofByte b ++ digits bs := rfl

@[simp] theorem digits_append (bs cs : Bytes) : digits (bs ++ cs) = digits bs ++ digits cs := by
  simp [digits]

/-- The digits of a byte string, marked as hex. -/
def encode (bs : Bytes) : String := String.ofList ('0' :: 'x' :: digits bs)

/-- A number in as few digits as possible, marked as hex. -/
def ofNat (n : Nat) : String := String.ofList ('0' :: 'x' :: Nat.toDigits 16 n)

/-- The value of a digit, given by its ASCII code. -/
def value? (b : UInt8) : Option Nat :=
  if 0x30 ≤ b && b ≤ 0x39 then some (b.toNat - 0x30)
  else if 0x41 ≤ b && b ≤ 0x46 then some (b.toNat - 0x37)
  else if 0x61 ≤ b && b ≤ 0x66 then some (b.toNat - 0x57)
  else none

/-- Why a run of digits spells no bytes. Positions and counts are in UTF-8 bytes. -/
inductive Fault where
  | oddCount
  | notDigit (byte : UInt8) (position : Nat)
  deriving DecidableEq, Repr

/-- A byte that is no digit is shown as the character with its number. -/
def Fault.message : Fault → String
  | .oddCount => "Odd number of digits"
  | .notDigit byte position =>
    let shown := Text.quoteChar (Char.ofNat byte.toNat)
    s!"Invalid character {shown} at position {position}"

def digit (position : Nat) (b : UInt8) : Except Fault Nat :=
  match value? b with
  | some n => .ok n
  | none => .error (.notDigit b position)

/-- Pairs are read from the left, so the first byte that is no digit is the one reported. -/
def pairs (position : Nat) : Bytes → Except Fault Bytes
  | [] => .ok []
  | [_] => .error .oddCount
  | a :: b :: rest => do
    let high ← digit position a
    let low ← digit (position + 1) b
    let bytes ← pairs (position + 2) rest
    return UInt8.ofNat (16*high + low) :: bytes

/-- The bytes that a run of digits spells. The count is checked before any digit. -/
def ofDigits (text : Bytes) : Except Fault Bytes :=
  if text.length % 2 = 0 then pairs 0 text else .error .oddCount

/-- Removes one leading `0x` or `0X`. -/
def unmark : List Char → List Char
  | '0' :: 'x' :: rest => rest
  | '0' :: 'X' :: rest => rest
  | s => s

/-- Why a text spells no bytes. -/
inductive TextFault where
  | oddLength (digits : Nat)
  | digits (fault : Fault)
  deriving DecidableEq, Repr

def TextFault.message : TextFault → String
  | .oddLength n => s!"tamanho ímpar ({n} dígitos)"
  | .digits fault => fault.message

/-- The bytes that a text spells, once blanks at its ends and then the mark are removed. -/
def decode (s : String) : Except TextFault Bytes :=
  let text := Utf8.encode (unmark (Text.trim s.toList))
  if text.length % 2 = 0 then (ofDigits text).mapError .digits
  else .error (.oddLength text.length)

example : digits [0x0A, 0xFF] = ['0', 'a', 'f', 'f'] := by decide
example : (ofDigits [0x36, 0x30]).toOption = some [0x60] := by decide

end EvmListing.Hex
