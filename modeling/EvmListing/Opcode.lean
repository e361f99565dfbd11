/-! The opcode table: for each byte a mnemonic, the number of immediate bytes that follow it, and
whether the byte is assigned at all. -/
namespace EvmListing.Opcode

structure Entry where
  mnemonic : String
  width : Nat := 0
  assigned : Bool := true
  deriving DecidableEq, Repr

/-- The entry of every byte that has no other. -/
def unknown : Entry := { mnemonic := "UNKNOWN", assigned := false }

def plain (names : List String) : List Entry := names.map fun name => { mnemonic := name }

/-- The push family: each opcode carries one byte more than the one before it. -/
def pushes : List Entry :=
  ["PUSH1", "PUSH2", "PUSH3", "PUSH4", "PUSH5", "PUSH6", "PUSH7", "PUSH8",
   "PUSH9", "PUSH10", "PUSH11", "PUSH12", "PUSH13", "PUSH14", "PUSH15", "PUSH16",
   "PUSH17", "PUSH18", "PUSH19", "PUSH20", "PUSH21", "PUSH22", "PUSH23", "PUSH24",
   "PUSH25", "PUSH26", "PUSH27", "PUSH28", "PUSH29", "PUSH30", "PUSH31", "PUSH32"].mapIdx
    fun i name => { mnemonic := name, width := i + 1 }

/-- The assigned opcodes as runs: a first byte, and the entries from there on. -/
def runs : List (Nat × List Entry) := [
  (0x00, plain ["STOP", "ADD", "MUL", "SUB", "DIV", "SDIV", "MOD", "SMOD", "ADDMOD", "MULMOD",
    "EXP", "SIGNEXTEND"]),
  (0x10, plain ["LT", "GT", "SLT", "SGT", "EQ", "ISZERO", "AND", "OR", "XOR", "NOT", "BYTE",
    "SHL", "SHR", "SAR"]),
  (0x20, plain ["SHA3"]),
  (0x30, plain ["ADDRESS", "BALANCE", "ORIGIN", "CALLER", "CALLVALUE", "CALLDATALOAD",
    "CALLDATASIZE", "CALLDATACOPY", "CODESIZE", "CODECOPY", "GASPRICE", "EXTCODESIZE",
    "EXTCODECOPY", "RETURNDATASIZE", "RETURNDATACOPY", "EXTCODEHASH"]),
  (0x40, plain ["BLOCKHASH", "COINBASE", "TIMESTAMP", "NUMBER", "DIFFICULTY", "GASLIMIT",
    "CHAINID", "SELFBALANCE", "BASEFEE", "BLOBHASH", "BLOBBASEFEE"]),
  (0x50, plain ["POP", "MLOAD", "MSTORE", "MSTORE8", "SLOAD", "SSTORE", "JUMP", "JUMPI", "PC",
    "MSIZE", "GAS", "JUMPDEST", "TLOAD", "TSTORE", "MCOPY", "PUSH0"]),
  (0x60, pushes),
  (0x80, plain ["DUP1", "DUP2", "DUP3", "DUP4", "DUP5", "DUP6", "DUP7", "DUP8", "DUP9", "DUP10",
    "DUP11", "DUP12", "DUP13", "DUP14", "DUP15", "DUP16"]),
  (0x90, plain ["SWAP1", "SWAP2", "SWAP3", "SWAP4", "SWAP5", "SWAP6", "SWAP7", "SWAP8", "SWAP9",
    "SWAP10", "SWAP11", "SWAP12", "SWAP13", "SWAP14", "SWAP15", "SWAP16"]),
  (0xA0, plain ["LOG0", "LOG1", "LOG2", "LOG3", "LOG4"]),
  (0xF0, plain ["CREATE", "CALL", "CALLCODE", "RETURN", "DELEGATECALL", "CREATE2"]),
  (0xFA, plain ["STATICCALL"]),
  (0xFD, plain ["REVERT", "INVALID", "SELFDESTRUCT"])]

/-- The entry of a byte. -/
def entry (opcode : UInt8) : Entry :=
  (runs.findSome? fun run =>
    if run.1 ≤ opcode.toNat then run.2[opcode.toNat - run.1]? else none).getD unknown

/-- Whether a byte is one of `PUSH1` to `PUSH32`. -/
def isPush (opcode : UInt8) : Bool := 0x60 ≤ opcode && opcode ≤ 0x7F

/-- The immediate bytes of a push, by its distance from the start of the family. -/
def pushWidth (opcode : UInt8) : Nat := if isPush opcode then opcode.toNat - 0x60 + 1 else 0

/-- Only the push family carries immediate bytes. -/
theorem width_entry (opcode : UInt8) : (entry opcode).width = pushWidth opcode := by
  have h : ∀ n : Fin 256, (entry (UInt8.ofNat n.val)).width = pushWidth (UInt8.ofNat n.val) := by
    decide +kernel
  simpa using h ⟨opcode.toNat, opcode.toNat_lt⟩

end EvmListing.Opcode
