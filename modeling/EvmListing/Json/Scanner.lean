import EvmListing.Hex
import EvmListing.Json.Fault
import EvmListing.Text.Utf8

/-! The tokens of JSON, read from the front of a text given as UTF-8 bytes. -/
namespace EvmListing.Json

abbrev Scanner (α : Type) := StateT Bytes (Except Fault) α

/-- Fails at the place reached. -/
def fail {α : Type} (problem : Problem) : Scanner α := fun s => .error ⟨problem, s⟩

/-- Fails at the next byte, which is counted as seen. -/
def failAtNext {α : Type} (problem : Problem) : Scanner α := fun s => .error ⟨problem, s.drop 1⟩

def isBlank (b : UInt8) : Bool :=
  b == Ascii.space || b == Ascii.lineFeed || b == Ascii.tab || b == Ascii.carriageReturn

def skipBlanks : Scanner Unit := fun s => .ok ((), s.dropWhile isBlank)

/-- The next byte, if there is one; it stays. -/
def peek : Scanner (Option UInt8) := fun s => .ok (s.head?, s)

/-- The next byte that is not blank. -/
def peekToken : Scanner (Option UInt8) := do
  skipBlanks
  peek

/-- Takes the next byte, if there is one. -/
def next : Scanner (Option UInt8) := fun s => .ok (s.head?, s.drop 1)

def isDigit (b : UInt8) : Bool := Ascii.zero ≤ b && b ≤ Ascii.nine

/-- Takes the digits at the front. -/
def digits : Scanner Bytes := fun s => .ok (s.takeWhile isDigit, s.dropWhile isDigit)

def nextIsDigit : Scanner Bool := fun s => .ok (s.head?.any isDigit, s)

/-- Reads the rest of a literal name. -/
def literal : Bytes → Scanner Unit
  | [] => pure ()
  | expected :: more => do
    match ← next with
    | none => fail .endInValue
    | some b => if b = expected then literal more else fail .expectedIdentifier

/-- The three letters after the first one of `null` and `true`, and the four of `false`. -/
def afterN : Bytes := Utf8.encode ['u', 'l', 'l']
def afterT : Bytes := Utf8.encode ['r', 'u', 'e']
def afterF : Bytes := Utf8.encode ['a', 'l', 's', 'e']

/-- The number that four hex digits spell. -/
def hexValue (bs : Bytes) : Option Nat :=
  bs.foldlM (fun n b => (Hex.value? b).map (16*n + ·)) 0

/-- Reads the four hex digits of an escape. If fewer bytes are left they are all taken. -/
def fourDigits : Scanner Nat := fun s =>
  if s.length < 4 then .error ⟨.endInString, []⟩
  else match hexValue (s.take 4) with
    | some n => .ok (n, s.drop 4)
    | none => .error ⟨.invalidEscape, s.drop 4⟩

def isTrailSurrogate (n : Nat) : Bool := 0xDC00 ≤ n && n ≤ 0xDFFF

/-- Takes the given byte, which the second half of a surrogate pair begins with. -/
def pairByte (expected : UInt8) : Scanner Unit := do
  match ← next with
  | none => fail .endInString
  | some b => if b = expected then return else fail .endOfEscape

/-- The character of a hex escape. A leading surrogate needs a trailing one in its own escape. -/
def hexEscape : Scanner Char := do
  let n ← fourDigits
  if isTrailSurrogate n then fail .loneSurrogate
  if n < 0xD800 ∨ 0xDBFF < n then return Char.ofNat n
  pairByte Ascii.backslash
  pairByte Ascii.lowerU
  let m ← fourDigits
  if isTrailSurrogate m then return Char.ofNat (0x10000 + (n - 0xD800) * 0x400 + (m - 0xDC00))
  else fail .loneSurrogate

/-- The character that a letter after a backslash stands for. -/
def simpleEscape? (b : UInt8) : Option Char :=
  match b with
  | Ascii.quote => some '"'
  | Ascii.backslash => some '\\'
  | Ascii.slash => some '/'
  | Ascii.lowerB => some '\x08'
  | Ascii.lowerF => some '\x0C'
  | Ascii.lowerN => some '\n'
  | Ascii.lowerR => some '\r'
  | Ascii.lowerT => some '\t'
  | _ => none

/-- What follows a backslash. -/
def escape : Scanner Char := do
  match ← next with
  | none => fail .endInString
  | some Ascii.lowerU => hexEscape
  | some b =>
    match simpleEscape? b with
    | some c => return c
    | none => fail .invalidEscape

/-- What follows a backslash in a string whose content does not matter: surrogates need not pair. -/
def skipEscape : Scanner Unit := do
  match ← next with
  | none => fail .endInString
  | some Ascii.lowerU =>
    let _ ← fourDigits
  | some b => if (simpleEscape? b).isSome then return else fail .invalidEscape

/-- The content of a string and its closing mark; the argument bounds the number of bytes. -/
def stringWithin : Nat → Scanner Bytes
  | 0 => fail .endInString
  | bound+1 => do
    match ← next with
    | none => fail .endInString
    | some Ascii.quote => return []
    | some Ascii.backslash =>
      let c ← escape
      let more ← stringWithin bound
      return Utf8.encode [c] ++ more
    | some b =>
      if b < Ascii.space then fail .controlCharacter
      let more ← stringWithin bound
      return b :: more

/-- Reads a string after its opening quotation mark. -/
def string : Scanner Bytes := do
  let s ← get
  stringWithin (s.length + 1)

/-- As `stringWithin` where the content does not matter. A control character is not taken. -/
def skipStringWithin : Nat → Scanner Unit
  | 0 => fail .endInString
  | bound+1 => do
    match ← peek with
    | none => fail .endInString
    | some b =>
      if b < Ascii.space then fail .controlCharacter
      let _ ← next
      if b = Ascii.quote then return
      if b = Ascii.backslash then skipEscape
      skipStringWithin bound

def skipString : Scanner Unit := do
  let s ← get
  skipStringWithin (s.length + 1)

/-- Takes the colon between a key and its value. -/
def colon : Scanner Unit := do
  match ← peekToken with
  | some Ascii.colon =>
    let _ ← next
  | some _ => failAtNext .expectedColon
  | none => failAtNext .endInObject

/-- The text that a string's bytes spell. -/
def contentText (bs : Bytes) : String := String.ofList (Utf8.split bs).1

end EvmListing.Json
