import EvmListing.Cbor.Reader
import EvmListing.Settings.Basic
import EvmListing.Metadata.Record

/-! Splitting a code from the metadata at its end: a CBOR map and a field of two bytes with the
length of the map. Only a code that holds the marker, the first two bytes of the usual map, is taken
to have metadata. -/
namespace EvmListing

/-- The part of a code where the marker is looked for. -/
def Scan.region : Scan → Bytes → Bytes
  | .anywhere, code => code
  | .trailing window, code => code.drop (code.length - window)

/-- Whether the marker stands anywhere: the head of a map of two entries, then that of a key of four
characters. -/
def marked : Bytes → Bool
  | a :: b :: rest => (a == 0xA2 && b == 0x64) || marked (b :: rest)
  | _ => false

/-- Whether the marker stands where it is looked for. -/
def Scan.finds (scan : Scan) (code : Bytes) : Bool := marked (scan.region code)

namespace Metadata
open Cbor (Item)

/-- The size of the length field. -/
def lengthField : Nat := 2

/-- Why what stands at the end of a code is no metadata. -/
inductive Fault where
  | tooLong (declared available : Nat)
  | invalid (fault : Cbor.Fault) (size : Nat)
  | leftover (count : Nat)
  | notMap
  | keyNotText (key : Item)

def Fault.message : Fault → String
  | .tooLong declared available =>
    s!"declared length {declared} exceeds the {available} bytes available"
  | .invalid fault size => "invalid CBOR: " ++ fault.message size
  | .leftover count => s!"{count} unexpected bytes after the CBOR map"
  | .notMap => "metadata is not a CBOR map"
  | .keyNotText key => "non-text key " ++ key.inspect

/-- The record that an encoded map holds. The map must use up all the bytes. -/
def ofPayload (payload : Bytes) : Except Fault Metadata :=
  match Cbor.item payload with
  | .error fault => .error (.invalid fault payload.length)
  | .ok (.map entries, []) => (ofEntries {} entries).mapError .keyNotText
  | .ok (_, []) => .error .notMap
  | .ok (_, rest) => .error (.leftover rest.length)

/-- The executable part of a code and its metadata. Code without the marker is all executable. -/
def split (scan : Scan) (code : Bytes) : Except Fault (Bytes × Option Metadata) :=
  if scan.finds code then
    let declared := bigEndian (code.drop (code.length - lengthField))
    let total := declared + lengthField
    if code.length < total then .error (.tooLong total code.length)
    else do
      let start := code.length - total
      let m ← ofPayload ((code.drop start).take declared)
      return (code.take start, some { m with length := total })
  else .ok (code, none)

/-- The executable part of a code, wherever in it the marker stands. -/
def strip (code : Bytes) : Except Fault Bytes := Prod.fst <$> split .anywhere code

/-- Splits again and again what the step before left, until there is no more metadata or the limit
is reached. -/
def peel (scan : Scan) : Nat → Bytes → List (Except Fault (Bytes × Option Metadata))
  | 0, _ => []
  | limit+1, code =>
    match split scan code with
    | .ok (runtime, some m) => .ok (runtime, some m) :: peel scan limit runtime
    | result => [result]

end Metadata
end EvmListing
