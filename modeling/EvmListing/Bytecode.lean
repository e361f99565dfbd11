import EvmListing.Report
import EvmListing.Files.Basic

/-! Bytecode as callers give it: hex digits, or the path of a file that holds them. -/
namespace EvmListing

/-- An argument that names a regular file stands for its content, any other for itself. -/
def Bytecode.load (files : Files) (argument : String) : Logged (Except Error Bytes) :=
  match files argument with
  | .error _ => pure ((Hex.decode argument).mapError (·.toError))
  | .ok _ => do
    Logged.emit (.readingFile argument)
    match files.readText argument with
    | .error fault => return .error (.io fault.message)
    | .ok text => return (Hex.decode text).mapError (·.toError)

end EvmListing
