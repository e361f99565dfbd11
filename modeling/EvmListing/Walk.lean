import EvmListing.CommandLine

/-! A walk along a contract given as hex, up to the first instruction that ends execution. -/
namespace EvmListing.Walk

/-- How much of the end of a code is searched for metadata. -/
def window : Nat := 128

/-- The names of the instructions after which execution does not go on. -/
def terminators : List String := ["STOP", "RETURN", "REVERT", "INVALID"]

/-- Takes one instruction after the other, up to the first terminator or fault; the argument bounds
the number of steps. What stands behind a terminator is never looked at. -/
def upToEnd : Nat → Decoder → Listing
  | 0, _ => ⟨[], none⟩
  | bound+1, d =>
    match d.step with
    | none => ⟨[], none⟩
    | some (.error fault, _) => ⟨[], some fault⟩
    | some (.ok i, d) =>
      if i.mnemonic ∈ terminators then ⟨[i], none⟩
      else
        let l := upToEnd bound d
        ⟨i :: l.instructions, l.fault⟩

def metadataLine (m : Metadata) : String :=
  "Metadata: " ++ toString m.length ++ " bytes, solc " ++ Text.quoteOption m.solc ++ "\n"

def failure (stdout : String) (error : Error) : Outcome :=
  ⟨1, stdout, "Error: " ++ error.inspect ++ "\n"⟩

/-- Walks along the code that the first argument holds. -/
def run (program : String) : List String → Outcome
  | [] => ⟨1, "", "Usage: " ++ program ++ " <BYTECODE_HEX>\n"⟩
  | argument :: _ =>
    match Hex.decode argument with
    | .error fault => failure "" fault.toError
    | .ok code =>
      match Metadata.split (.trailing window) code with
      | .error fault => failure "" fault.toError
      | .ok (runtime, m) =>
        let seen := upToEnd runtime.length (Decoder.start .sentinel runtime)
        let stdout := (m.map metadataLine).getD "" ++ Listing.text seen.instructions
        match seen.fault with
        | none => ⟨0, stdout, ""⟩
        | some fault => failure stdout (.decoding fault)

end EvmListing.Walk
