import EvmListing.Settings.Reader
import EvmListing.Bytecode
import EvmListing.Size

/-! The command line: options and one input in any order, settings from a file that options
override, and a report on standard output. -/
namespace EvmListing

/-- What a run leaves behind. -/
structure Outcome where
  exit : UInt8
  stdout : String
  stderr : String
  deriving DecidableEq, Repr

namespace CommandLine

/-- What the arguments say, before any file is read. -/
structure Flags where
  input : Option String := none
  json : Bool := false
  keepMetadata : Bool := false
  window : Option Nat := none
  strict : Bool := false
  settingsPath : Option String := none
  deriving DecidableEq, Repr

structure Options where
  input : String
  json : Bool
  settings : Settings
  deriving DecidableEq, Repr

/-- Why arguments ask for nothing that can be done. -/
inductive Fault where
  | valueMissing (option : String)
  | invalidWindow (value : String) (fault : Size.Fault)
  | unknownOption (name : String)
  | secondInput
  | inputMissing
  | settingsUnreadable (path : String) (fault : FileFault)
  | settingsInvalid (detail : String)
  deriving DecidableEq, Repr

def Fault.message : Fault → String
  | valueMissing option => option ++ " requires a value"
  | invalidWindow value fault => "invalid metadata window '" ++ value ++ "': " ++ fault.message
  | unknownOption name => "unknown option " ++ name
  | secondInput => "expected a single bytecode argument"
  | inputMissing => "missing bytecode argument"
  | settingsUnreadable path fault => "failed to read " ++ path ++ ": " ++ fault.message
  | settingsInvalid detail => (Error.invalidSettings detail).message

/-- Whether an argument is an option by its form. -/
def isOption (argument : String) : Bool := ['-', '-'].isPrefixOf argument.toList

/-- Reads arguments from left to right, up to the first fault or request for help. No flags are
given when help is asked for. -/
def Flags.read (flags : Flags) : List String → Except Fault (Option Flags)
  | [] => .ok (some flags)
  | "-h" :: _ => .ok none
  | "--help" :: _ => .ok none
  | "--json" :: rest => { flags with json := true }.read rest
  | "--keep-metadata" :: rest => { flags with keepMetadata := true }.read rest
  | "--strict" :: rest => { flags with strict := true }.read rest
  | ["--metadata-window"] => .error (.valueMissing "--metadata-window")
  | "--metadata-window" :: value :: rest =>
    match Size.ofText value with
    | .ok n => { flags with window := some n }.read rest
    | .error fault => .error (.invalidWindow value fault)
  | ["--config"] => .error (.valueMissing "--config")
  | "--config" :: path :: rest => { flags with settingsPath := some path }.read rest
  | argument :: rest =>
    if isOption argument then .error (.unknownOption argument)
    else if flags.input.isSome then .error .secondInput
    else { flags with input := some argument }.read rest

/-- The settings in the file given, or the default ones. -/
def fileSettings (files : Files) : Option String → Except Fault Settings
  | none => .ok {}
  | some path =>
    match files.readText path with
    | .error fault => .error (.settingsUnreadable path fault)
    | .ok text => (Settings.ofJson text).mapError .settingsInvalid

/-- Options override settings. -/
def Flags.override (flags : Flags) (settings : Settings) : Settings :=
  { stripMetadata := settings.stripMetadata && !flags.keepMetadata
    scan := (flags.window.map Scan.trailing).getD settings.scan
    unassigned := if flags.strict then .reject else settings.unassigned }

/-- The options that arguments and files amount to, or none when help is asked for. -/
def parse (files : Files) (arguments : List String) : Except Fault (Option Options) := do
  match ← Flags.read {} arguments with
  | none => return none
  | some flags =>
    match flags.input with
    | none => throw .inputMissing
    | some input =>
      let settings ← fileSettings files flags.settingsPath
      return some { input, json := flags.json, settings := flags.override settings }

def usage (program : String) : String :=
  String.join (([
    "Usage: " ++ program ++ " [OPTIONS] <BYTECODE_OR_FILE>",
    "",
    "Options:",
    "  --json                     Print the disassembly as JSON",
    "  --keep-metadata            Do not strip the trailing metadata blob",
    "  --metadata-window <n>      Search the metadata marker in the last n bytes only",
    "  --strict                   Fail on unassigned opcodes",
    "  --config <file>            Load settings from a JSON file",
    "  -h, --help                 Show this message"]).map (· ++ "\n"))

/-- A label and a value as one more item of a header line. -/
def item (label : String) : Option String → String
  | some value => ", " ++ label ++ " " ++ value
  | none => ""

/-- The header line about metadata. Of two hashes of one kind the newer is shown. -/
def metadataLine (m : Metadata) : String :=
  "; metadata " ++ toString m.length ++ " bytes" ++ item "solc" m.solc ++ item "ipfs" m.ipfs ++
    item "bzzr" (m.bzzr1 <|> m.bzzr0) ++ "\n"

def header (d : Report) : String :=
  "; code hash " ++ Hex.encode d.codeHash ++ "\n" ++
    "; code size " ++ toString d.codeLen ++ " bytes\n" ++
    (d.metadata.map metadataLine).getD ""

/-- The report as printed. -/
def render (json : Bool) (d : Report) : String :=
  if json then d.document.pretty ++ "\n" else header d ++ d.trace

/-- Loads the input and disassembles it. -/
def execute (files : Files) (options : Options) : Outcome :=
  match (Bytecode.load files options.input).value with
  | .error error =>
    ⟨1, "", "Error: failed to load bytecode\n\nCaused by:\n    " ++ error.message ++ "\n"⟩
  | .ok code =>
    match disassemble options.settings code with
    | .error fault => ⟨1, "", "Error: " ++ fault.toError.message ++ "\n"⟩
    | .ok d =>
      match d.fault with
      | none => ⟨0, render options.json d, ""⟩
      | some fault => ⟨1, render options.json d, "error: " ++ fault.message ++ "\n"⟩

/-- A whole run of the program under the given name. -/
def run (program : String) (files : Files) (arguments : List String) : Outcome :=
  match parse files arguments with
  | .error fault => ⟨2, "", "error: " ++ fault.message ++ "\n" ++ usage program⟩
  | .ok none => ⟨0, "", usage program⟩
  | .ok (some options) => execute files options

end CommandLine
end EvmListing
