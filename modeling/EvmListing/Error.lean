import EvmListing.Decoder.Fault
import EvmListing.Text.Quoted

/-! The errors that callers see: decoding faults as they are, every other cause in words. -/
namespace EvmListing

inductive Error where
  | invalidHex (detail : String)
  | malformedMetadata (detail : String)
  | decoding (fault : Decoder.Fault)
  | io (detail : String)
  | invalidSettings (detail : String)
  deriving DecidableEq, Repr

namespace Error

def isDecoding : Error → Bool
  | decoding _ => true
  | _ => false

def message : Error → String
  | invalidHex detail => "Entrada hexadecimal inválida: " ++ detail
  | malformedMetadata detail => "Metadados malformados: " ++ detail
  | decoding fault => fault.message
  | io detail => "Erro de E/S: " ++ detail
  | invalidSettings detail => "Configuração inválida: " ++ detail

/-- A name with one quoted text. -/
def call (name detail : String) : String := name ++ "(" ++ Text.quote detail ++ ")"

/-- A name with labelled values. -/
def record (name : String) (fields : List (String × String)) : String :=
  let body := ", ".intercalate (fields.map fun field => field.1 ++ ": " ++ field.2)
  name ++ " \x7b " ++ body ++ " \x7d"

/-- The error as a constructor with its contents. -/
def inspect : Error → String
  | invalidHex detail => call "InvalidHexInput" detail
  | malformedMetadata detail => call "MalformedMetadata" detail
  | decoding (.unassigned opcode offset) =>
    record "UnknownOpcode" [("opcode", toString opcode.toNat), ("offset", toString offset)]
  | decoding (.truncated opcode mnemonic offset expected available) =>
    let bytes := "[" ++ ", ".intercalate (available.map fun b => toString b.toNat) ++ "]"
    record "TruncatedOperand" [("opcode", toString opcode.toNat),
      ("mnemonic", Text.quote mnemonic), ("offset", toString offset),
      ("expected", toString expected), ("available", bytes)]
  | io detail => call "Io" detail
  | invalidSettings detail => call "InvalidConfig" detail

end Error
end EvmListing
