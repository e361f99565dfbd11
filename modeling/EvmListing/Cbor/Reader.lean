import EvmListing.Cbor.Header
import EvmListing.Cbor.Item
import EvmListing.Text.Utf8

/-! Reading one data item from the front of an input. Strings may come in chunks, containers may go
on to a break, and nesting is limited. -/
namespace EvmListing.Cbor

/-- The most bytes of a text that are checked in one go. -/
def pieceSize : Nat := 4096

/-- How many levels of arrays, maps and tags an item may have. -/
def maxDepth : Nat := 256

/-- Reads the `unread` bytes that are left of a text, in pieces. A character may be cut off at the
end of a piece: its first bytes are kept for the next one. More than three such bytes cannot begin
a character. The first argument bounds the number of pieces. -/
def pieces (fault : Fault) : Nat → Nat → Bytes → Reader (List Char)
  | 0, _, kept => if kept.isEmpty then pure [] else throw fault
  | bound+1, unread, kept => do
    if unread = 0 then
      if kept.isEmpty then return [] else throw fault
    let fresh ← take (min pieceSize (kept.length + unread) - kept.length)
    let t := Utf8.split (kept ++ fresh)
    if 3 < t.2.length then throw fault
    let more ← pieces fault bound (unread - fresh.length) t.2
    return t.1 ++ more

/-- A chunk of a text is a text of its own: no character spans two chunks. -/
def textChunk (fault : Fault) (length : Nat) : Reader (List Char) := pieces fault length length []

/-- Reads chunks up to the break that ends the string. Strings without length may nest, and each has
its own break; `depth` counts those open besides the outermost. What is no chunk of the same kind is
malformed. The first argument bounds the number of headers. -/
def chunks {α : Type} (length? : Header → Option (Option Nat))
    (chunk : Fault → Nat → Reader (List α)) :
    Nat → Nat → Reader (List α)
  | 0, _ => throw .endOfInput
  | bound+1, depth => do
    let s ← get
    let h ← header
    match h, length? h with
    | .stop, _ =>
      match depth with
      | 0 => return []
      | depth+1 => chunks length? chunk bound depth
    | _, some none => chunks length? chunk bound (depth + 1)
    | _, some (some n) =>
      let content ← chunk (.malformed 0 s) n
      let more ← chunks length? chunk bound depth
      return content ++ more
    | _, none => throw (.malformed 0 s)

def Header.bytesLength? : Header → Option (Option Nat)
  | .bytes n => some n
  | _ => none

def Header.textLength? : Header → Option (Option Nat)
  | .text n => some n
  | _ => none

/-- The content of a byte string, after its header. -/
def byteString : Option Nat → Reader Bytes
  | some n => take n
  | none => do
    let s ← get
    chunks Header.bytesLength? (fun _ => take) s.length 0

/-- The content of a text, after its header. One that fits a piece is read before it is checked. -/
def textString (length : Option Nat) : Reader (List Char) := do
  let s ← get
  let fault := Fault.malformed (shortestHeader length) s
  match length with
  | none => chunks Header.textLength? textChunk s.length 0
  | some n =>
    if n ≤ pieceSize then
      let content ← take n
      match Utf8.decode? content with
      | some t => return t
      | none => throw fault
    else textChunk fault n

def exactly {α : Type} (r : Reader α) : Nat → Reader (List α)
  | 0 => pure []
  | n+1 => do
    let x ← r
    let xs ← exactly r n
    return x :: xs

/-- Reads up to a break. The last argument bounds the number of elements by that of bytes left. -/
def untilStop {α : Type} (r : Reader α) : Nat → Reader (List α)
  | 0 => throw .endOfInput
  | bound+1 => do
    match ← get with
    | 0xFF :: rest =>
      set rest
      return []
    | _ =>
      let x ← r
      let xs ← untilStop r bound
      return x :: xs

def sequence {α : Type} (r : Reader α) : Option Nat → Reader (List α)
  | some n => exactly r n
  | none => do
    let s ← get
    untilStop r s.length

def entry (r : Reader Item) : Reader (Item × Item) := do
  let key ← r
  let value ← r
  return (key, value)

/-- An integer of up to 16 bytes under tag 2, or 3 if it is negative. One that leaves the range
of the plain integers stays a tagged byte string, without zeros in front. -/
def bignum (number length : Nat) : Reader Item := do
  let content ← take length
  let n := bigEndian content
  if n < 2^64 then
    return .integer (if number = 2 then n else -1 - n)
  else if number = 3 ∧ 2^127 ≤ n then throw .integerTooLarge
  else return .tag number (.bytes (content.dropWhile (· == 0)))

/-- Goes one level deeper, if a reader is left for the items there. -/
def descend {α : Type} (inner : Option (Reader Item)) (k : Reader Item → Reader α) : Reader α :=
  match inner with
  | some r => k r
  | none => throw .tooDeep

/-- The content of a tag. The header of the item in it is looked at before the level is counted. -/
def tagged (inner : Option (Reader Item)) (number : Nat) : Reader Item := do
  let s ← get
  match ← header with
  | .bytes (some n) =>
    if (number = 2 ∨ number = 3) ∧ n ≤ 16 then bignum number n
    else
      set s
      descend inner fun r => Item.tag number <$> r
  | _ =>
    set s
    descend inner fun r => Item.tag number <$> r

/-- One item, whose own items, if it may have any, the given reader reads. -/
def itemWith (inner : Option (Reader Item)) : Reader Item := do
  match ← header with
  | .positive n => return .integer n
  | .negative n => return .integer (-1 - n)
  | .bytes n => Item.bytes <$> byteString n
  | .text n => (fun t => Item.text (String.ofList t)) <$> textString n
  | .array n => descend inner fun r => Item.array <$> sequence r n
  | .map n => descend inner fun r => Item.map <$> sequence (entry r) n
  | .tag number => tagged inner number
  | .float x => return .float x
  | .simple 20 => return .bool false
  | .simple 21 => return .bool true
  | .simple 22 => return .null
  | .simple 23 => return .null
  | .simple _ => throw .unknownSimple
  | .stop => throw .strayBreak

/-- One item with at most the given number of levels. -/
def itemWithin : Nat → Reader Item
  | 0 => itemWith none
  | depth+1 => itemWith (some (itemWithin depth))

def item : Reader Item := itemWithin maxDepth

end EvmListing.Cbor
