import Pipewright.CommandLine.Run

set_option autoImplicit false

namespace Pipewright.CommandLine

def readFile (file : String) : IO (Except ReadError ByteArray) := do
  try
    return .ok (← IO.FS.readBinFile file)
  catch
    | .noFileOrDirectory _ _ _ => return .error .notFound
    | .inappropriateType _ 21 _ | .otherError 21 _ => return .error .isDirectory
    | error => return .error (.other (toString error))

end Pipewright.CommandLine

def main (arguments : List String) : IO UInt32 := do
  let outcome ← Pipewright.CommandLine.perform Pipewright.CommandLine.readFile arguments
  (← IO.getStdout).putStr outcome.stdout
  (← IO.getStderr).putStr outcome.stderr
  return outcome.exitCode.toUInt32
