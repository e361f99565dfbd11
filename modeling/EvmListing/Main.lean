import EvmListing.CommandLine

/-! The program: reads the files that its arguments may name and prints what the run leaves. -/

open EvmListing

/-- The code of the error that a path leads to a directory. -/
def directoryCode : UInt32 := 21

/-- The fault that stands for an error of the operating system. -/
def fileFault : IO.Error → FileFault
  | .inappropriateType _ code _ => if code = directoryCode then .isDirectory else .notDirectory
  | .invalidArgument .. => .nameTooLong
  | _ => .notFound

/-- A path that leads to a regular file or to a fault. -/
def probe (path : String) : IO (Except FileFault Bytes) := do
  try
    let content ← IO.FS.readBinFile path
    return .ok content.toList
  catch e => return .error (fileFault e)

def main (arguments : List String) : IO UInt32 := do
  let found ← arguments.mapM fun path => do return (path, ← probe path)
  let files : Files := fun path => (found.lookup path).getD (.error .notFound)
  let outcome := CommandLine.run "evm-listing" files arguments
  IO.print outcome.stdout
  IO.eprint outcome.stderr
  return outcome.exit.toUInt32
