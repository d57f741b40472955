import MessageCatalog.Command.Run
import MessageCatalog.Files

set_option autoImplicit false

/-! # The program

Connects the commands to the file system and to the standard streams.
-/

namespace MessageCatalog

/-- The words of the system for a fault, with its number for it. -/
def systemMessage (words : String) (number : UInt32) : String :=
  words ++ " (os error " ++ toString number ++ ")"

/-- The words of the library for an error of the file system. -/
def failureOfError (e : IO.Error) : ReadFailure :=
  match e with
  | .noFileOrDirectory .. => FileFault.missing.failure
  | .inappropriateType _ 21 _ => FileFault.isDirectory.failure
  | .inappropriateType _ 20 _ => FileFault.notDirectory.failure
  | .permissionDenied _ number words => ⟨false, systemMessage words number⟩
  | .resourceExhausted _ number words => ⟨false, systemMessage words number⟩
  | other => ⟨false, toString other⟩

/-- A file as a stream. -/
def openOnDisk (path : String) : IO (Except ReadFailure ByteStream) := do
  try
    let data ← IO.FS.readBinFile path
    return .ok (.ofBytes data.toList)
  catch e => return .error (failureOfError e)

/-- Writes a file. -/
def writeOnDisk (path : String) (data : Bytes) : IO (Except ReadFailure Unit) := do
  try
    IO.FS.writeBinFile path ⟨data.toArray⟩
    return .ok ()
  catch e => return .error (failureOfError e)

/-- Everything from standard input. -/
def readStandardInput : IO Bytes := do
  let data ← (← IO.getStdin).readBinToEnd
  return data.toList

/-- The file system. -/
def disk : Command.Host IO := ⟨openOnDisk, writeOnDisk, readStandardInput⟩

end MessageCatalog

def main (arguments : List String) : IO UInt32 := do
  match (← (MessageCatalog.Command.run MessageCatalog.disk arguments).run) with
  | .error overflow =>
      IO.eprintln overflow.message
      return 101
  | .ok outcome =>
      let output ← IO.getStdout
      output.write ⟨outcome.output.toArray⟩
      output.flush
      IO.eprint outcome.report
      return outcome.code.toUInt32
