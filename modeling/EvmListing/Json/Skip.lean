import EvmListing.Json.Number

/-! Passing over a value that nobody asked for. Its form is checked, but neither how deep it nests
nor whether its numbers and escapes stand for anything. -/
namespace EvmListing.Json

/-- An array or an object whose end is still to come. -/
inductive Frame where
  | list
  | object
  deriving DecidableEq, Repr

def Frame.closer : Frame → UInt8
  | list => Ascii.closeBracket
  | object => Ascii.closeBrace

def Frame.endProblem : Frame → Problem
  | list => .endInList
  | object => .endInObject

def Frame.commaProblem : Frame → Problem
  | list => .expectedCommaInList
  | object => .expectedCommaInObject

/-- A value without parts, or the frame that a value with parts opens. -/
def skipStart : Scanner (Option Frame) := do
  match ← peekToken with
  | none => failAtNext .endInValue
  | some Ascii.lowerN =>
    let _ ← next
    literal afterN
    return none
  | some Ascii.lowerT =>
    let _ ← next
    literal afterT
    return none
  | some Ascii.lowerF =>
    let _ ← next
    literal afterF
    return none
  | some Ascii.minus =>
    let _ ← next
    skipNumber
    return none
  | some Ascii.quote =>
    let _ ← next
    skipString
    return none
  | some Ascii.openBracket =>
    let _ ← next
    return some .list
  | some Ascii.openBrace =>
    let _ ← next
    return some .object
  | some b =>
    if isDigit b then
      skipNumber
      return none
    else failAtNext .expectedValue

/-- The key of a member and its colon. -/
def skipKey : Scanner Unit := do
  match ← peekToken with
  | some Ascii.quote =>
    let _ ← next
    skipString
    colon
  | some _ => failAtNext .keyNotString
  | none => failAtNext .endInObject

/-- Closes frames until one of them goes on with another element, and gives the frames then open.
In a frame just opened an element follows without a comma. -/
def skipEnds (opened : Bool) : List Frame → Scanner (List Frame)
  | [] => pure []
  | frame :: frames => do
    match ← peekToken with
    | none => failAtNext frame.endProblem
    | some b =>
      if b = frame.closer then
        let _ ← next
        skipEnds false frames
      else if opened then return frame :: frames
      else if b = Ascii.comma then
        let _ ← next
        return frame :: frames
      else failAtNext frame.commaProblem

/-- Skips the elements that the open frames still need; the first argument bounds their number. -/
def skipWithin : Nat → List Frame → Scanner Unit
  | 0, _ => fail .endInValue
  | bound+1, frames => do
    let opened ← skipStart
    let frames := opened.toList ++ frames
    match ← skipEnds opened.isSome frames with
    | [] => return
    | frame :: frames =>
      if frame = .object then skipKey
      skipWithin bound (frame :: frames)

def skipValue : Scanner Unit := do
  let s ← get
  skipWithin (s.length + 1) []

end EvmListing.Json
