import EvmListing.Document
import EvmListing.Error
import EvmListing.Event
import EvmListing.Keccak

/-! The whole of a disassembly: metadata is split off, the rest is decoded, and a report says what
was found. A decoding fault is part of the report; metadata that cannot be read is not. -/
namespace EvmListing

structure Report where
  /-- The Keccak-256 digest of the code that was decoded, without metadata. -/
  codeHash : Bytes
  codeLen : Nat
  metadata : Option Metadata
  instructions : List Instruction
  fault : Option Decoder.Fault
  deriving DecidableEq, Repr

def Metadata.Fault.toError (fault : Metadata.Fault) : Error := .malformedMetadata fault.message

def Hex.TextFault.toError (fault : Hex.TextFault) : Error := .invalidHex fault.message

/-- The executable part of a code and its metadata, under the settings. -/
def separate (settings : Settings) (code : Bytes) :
    Logged (Except Metadata.Fault (Bytes × Option Metadata)) :=
  if settings.stripMetadata then Metadata.splitLogged settings.scan code
  else pure (.ok (code, none))

/-- Decodes what is left of a code of `input` bytes and reports how it went. -/
def decodeReport (policy : Policy) (input : Nat) (runtime : Bytes) (metadata : Option Metadata) :
    Logged Report := do
  Logged.emit (.decoding input runtime.length)
  let listing ← decodePartialLogged policy runtime
  match listing.fault with
  | some fault => Logged.emit (.stoppedEarly listing.instructions.length fault)
  | none => pure ()
  return {
    codeHash := Keccak.digest runtime
    codeLen := runtime.length
    metadata
    instructions := listing.instructions
    fault := listing.fault }

def disassembleLogged (settings : Settings) (code : Bytes) :
    Logged (Except Metadata.Fault Report) := do
  match ← separate settings code with
  | .error fault => return .error fault
  | .ok (runtime, metadata) =>
    Except.ok <$> decodeReport settings.unassigned code.length runtime metadata

def disassemble (settings : Settings) (code : Bytes) : Except Metadata.Fault Report :=
  (disassembleLogged settings code).value

namespace Metadata

/-- The record with absent places left out. -/
def document (m : Metadata) : Document :=
  .object (Document.optional "solc" .text m.solc ++ Document.optional "ipfs" .text m.ipfs ++
    Document.optional "bzzr0" .text m.bzzr0 ++ Document.optional "bzzr1" .text m.bzzr1 ++
    [("experimental", .bool m.experimental)] ++
    (if m.extra.isEmpty then [] else
      [("extra", .object (m.extra.map fun entry => (entry.1, .text entry.2)))]) ++
    [("length", .number m.length)])

end Metadata

def Instruction.document (i : Instruction) : Document :=
  .object ([("address", .number i.address), ("opcode", .number i.opcode.toNat),
    ("mnemonic", .text i.mnemonic)] ++
    Document.optional "operand" (fun w => .text (Instruction.operandText w)) i.operand)

def Scan.document : Scan → Document
  | .anywhere => .text "anywhere"
  | .trailing window => .object [("trailing", .number window)]

def Policy.document : Policy → Document
  | .sentinel => .text "sentinel"
  | .reject => .text "reject"

def Settings.document (settings : Settings) : Document :=
  .object [("strip_metadata", .bool settings.stripMetadata),
    ("metadata_scan", settings.scan.document),
    ("unknown_opcodes", settings.unassigned.document)]

namespace Report

def isComplete (d : Report) : Bool := d.fault.isNone

/-- The instructions of a complete disassembly, or the fault that ended it. -/
def result (d : Report) : Except Decoder.Fault (List Instruction) :=
  match d.fault with
  | some fault => .error fault
  | none => .ok d.instructions

/-- One line for each instruction. -/
def trace (d : Report) : String := Listing.text d.instructions

def document (d : Report) : Document :=
  .object ([("code_hash", .text (Hex.encode d.codeHash)), ("code_len", .number d.codeLen)] ++
    Document.optional "metadata" Metadata.document d.metadata ++
    [("instructions", .list (d.instructions.map Instruction.document))] ++
    Document.optional "error" (fun fault => .text fault.message) d.fault)

end Report
end EvmListing
