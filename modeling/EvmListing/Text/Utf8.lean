import EvmListing.Bytes

/-! Texts as UTF-8 bytes. Reading takes the longest prefix that is well formed and hands back the
bytes from the first ill-formed sequence on, so that a caller can tell how much is amiss. -/
namespace EvmListing.Utf8

/-- The UTF-8 bytes of a text. -/
def encode (s : List Char) : Bytes := s.flatMap String.utf8EncodeChar

@[simp] theorem encode_nil : encode [] = [] := rfl

@[simp] theorem encode_append (s t : List Char) : encode (s ++ t) = encode s ++ encode t := by
  simp [encode]

/-- A byte that may follow the first one of a character. -/
def isContinuation (b : UInt8) : Bool := 0x80 ≤ b && b < 0xC0

/-- The low six bits, which a continuation byte carries. -/
def payload (b : UInt8) : Nat := b.toNat % 64

/-- The character with the given number, unless a shorter spelling would do for it or it is none. -/
def scalar (least n : Nat) : Option Char :=
  if n.isValidChar ∧ least ≤ n then some (Char.ofNat n) else none

/-- The well-formed text at the front, and the bytes from the first ill-formed sequence on. -/
def split : Bytes → List Char × Bytes
  | [] => ([], [])
  | a :: r =>
    if a < 0x80 then
      let t := split r
      (Char.ofNat a.toNat :: t.1, t.2)
    else match r with
      | [] => ([], [a])
      | b :: r =>
        if !isContinuation b then ([], a :: b :: r)
        else if 0xC0 ≤ a && a < 0xE0 then
          match scalar 0x80 (a.toNat % 32 * 64 + payload b) with
          | some c => let t := split r; (c :: t.1, t.2)
          | none => ([], a :: b :: r)
        else match r with
          | [] => ([], [a, b])
          | c :: r =>
            if !isContinuation c then ([], a :: b :: c :: r)
            else if 0xE0 ≤ a && a < 0xF0 then
              match scalar 0x800 ((a.toNat % 16 * 64 + payload b) * 64 + payload c) with
              | some x => let t := split r; (x :: t.1, t.2)
              | none => ([], a :: b :: c :: r)
            else match r with
              | [] => ([], [a, b, c])
              | d :: r =>
                if !isContinuation d then ([], a :: b :: c :: d :: r)
                else if 0xF0 ≤ a && a < 0xF8 then
                  match scalar 0x10000
                      (((a.toNat % 8 * 64 + payload b) * 64 + payload c) * 64 + payload d) with
                  | some x => let t := split r; (x :: t.1, t.2)
                  | none => ([], a :: b :: c :: d :: r)
                else ([], a :: b :: c :: d :: r)

/-- The text that the bytes spell, if all of them are well formed. -/
def decode? (bs : Bytes) : Option (List Char) :=
  let t := split bs
  if t.2.isEmpty then some t.1 else none

example : decode? [0x61, 0xC3, 0xA9] = some ['a', 'é'] := by decide
example : split [0x61, 0xC3] = (['a'], [0xC3]) := by decide

end EvmListing.Utf8
