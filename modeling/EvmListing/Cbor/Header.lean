import EvmListing.Binary64.Basic
import EvmListing.Bytes

/-! The headers of data items. A header names the kind of its item and holds a number: a value, a
length, a count, or none where the item goes on to a break. -/
namespace EvmListing.Cbor

/-- What can be wrong with an encoded item. A malformed place is given by the bytes that were left
when it was noticed, and how many bytes before them it lies. -/
inductive Fault where
  | endOfInput
  | malformed (back : Nat) (rest : Bytes)
  | unknownSimple
  | strayBreak
  | integerTooLarge
  | tooDeep
  deriving DecidableEq, Repr

/-- The fault in words, for an input of the given size. Places count from the start of the input. -/
def Fault.message (size : Nat) : Fault → String
  | endOfInput =>
    "Io(Error \x7b kind: UnexpectedEof, message: \"failed to fill whole buffer\" \x7d)"
  | malformed back rest => "Syntax(" ++ toString (size - rest.length - back) ++ ")"
  | unknownSimple => "Semantic(None, \"invalid type: simple, expected known simple value\")"
  | strayBreak => "Semantic(None, \"invalid type: break, expected non-break\")"
  | integerTooLarge => "Semantic(None, \"integer too large\")"
  | tooDeep => "RecursionLimitExceeded"

/-- A reader takes bytes from the front of its input or fails. -/
abbrev Reader (α : Type) := StateT Bytes (Except Fault) α

/-- Takes exactly `n` bytes. -/
def take (n : Nat) : Reader Bytes := fun s =>
  let t := s.take n
  if t.length < n then .error .endOfInput else .ok (t, s.drop n)

inductive Header where
  | positive (value : Nat)
  | negative (value : Nat)
  | bytes (length : Option Nat)
  | text (length : Option Nat)
  | array (length : Option Nat)
  | map (length : Option Nat)
  | tag (number : Nat)
  | simple (value : Nat)
  | float (value : Binary64)
  | stop
  deriving DecidableEq, Repr

/-- The header of a major type below 7 with its number. -/
def Header.ofNumber (major n : Nat) : Header :=
  match major with
  | 0 => positive n
  | 1 => negative n
  | 2 => bytes (some n)
  | 3 => text (some n)
  | 4 => array (some n)
  | 5 => map (some n)
  | _ => tag n

/-- The header of a major type without a number, where the type admits one. -/
def Header.unbounded? : Nat → Option Header
  | 2 => some (bytes none)
  | 3 => some (text none)
  | 4 => some (array none)
  | 5 => some (map none)
  | 7 => some stop
  | _ => none

/-- Reads a header. The five low bits of its first byte hold the number or say how wide it is. -/
def header : Reader Header := fun s =>
  match s with
  | [] => .error .endOfInput
  | first :: rest =>
    let major := first.toNat / 32
    let info := first.toNat % 32
    if info < 24 then
      .ok (if major = 7 then .simple info else .ofNumber major info, rest)
    else if info < 28 then do
      let (field, rest) ← take (2^(info - 24)) rest
      let n := bigEndian field
      let h : Header :=
        if major < 7 then .ofNumber major n
        else match info with
          | 24 => .simple n
          | 25 => .float (.ofHalf n)
          | 26 => .float (.ofSingle n)
          | _ => .float (.ofDouble n)
      return (h, rest)
    else match if info = 31 then Header.unbounded? major else none with
      | some h => .ok (h, rest)
      | none => .error (.malformed 0 s)

/-- The size of the shortest header with the given number. -/
def shortestHeader : Option Nat → Nat
  | none => 1
  | some n => if n < 24 then 1 else if n < 2^8 then 2 else if n < 2^16 then 3
    else if n < 2^32 then 5 else 9

end EvmListing.Cbor
