import EvmListing.Decoder.Basic

/-! The settings of a disassembly. -/
namespace EvmListing

/-- Where the marker of compiler metadata is looked for. -/
inductive Scan where
  | anywhere
  /-- The last bytes of the code, at most as many as the window says. -/
  | trailing (window : Nat)
  deriving DecidableEq, Repr

structure Settings where
  stripMetadata : Bool := true
  scan : Scan := .anywhere
  unassigned : Policy := .sentinel
  deriving DecidableEq, Repr

end EvmListing
