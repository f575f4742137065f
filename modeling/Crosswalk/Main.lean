import Crosswalk.CommandLine.Program

/-!
# The program on a machine

The files of the machine as a host, and the entry point.
-/

namespace Crosswalk

/-- What an error of the system says about a file. -/
def faultOf : IO.Error → FileFault
  | .noFileOrDirectory .. | .noSuchThing .. => .notFound
  | .alreadyExists .. => .alreadyExists
  | .inappropriateType _ code _ => if code = 21 then .isADirectory else .notADirectory
  | .invalidArgument _ code _ => if code = 22 then .nulInName else .nameTooLong
  | e => .other (toString e)

def attempt {α : Type} (action : IO α) : IO (Except FileFault α) := do
  try return .ok (← action)
  catch e => return .error (faultOf e)

def machine : Host IO where
  isDirectory path := do
    match ← attempt (IO.FS.realPath path) with
    | .ok real => real.isDir
    | .error _ => return false
  names path := do
    match ← attempt (do (← IO.FS.realPath path).readDir) with
    | .ok entries => return entries.toList.map fun entry => entry.fileName
    | .error _ => return []
  read path := attempt (IO.FS.readBinFile path)
  write path bytes := attempt (IO.FS.writeBinFile path bytes)
  makeDirectory path := attempt (IO.FS.createDir path)
  newSerial := do
    let bytes ← IO.getRandomBytes 16
    return bytes.toList.foldl (fun n byte => 256 * n + byte.toNat) 0 % 1 <<< 122

/-- Whether output is painted: when it is forced, or on a terminal where it is not refused. -/
def wantsColours : IO Bool := do
  match ← IO.getEnv "FORCE_COLOR", ← IO.getEnv "NO_COLOR" with
  | some value, _ => return value ≠ "0" && value ≠ "false"
  | none, some _ => return false
  | none, none => (← IO.getStdout).isTty

end Crosswalk

def main (args : List String) : IO UInt32 := do
  let output ← Crosswalk.CommandLine.run Crosswalk.machine (← Crosswalk.wantsColours) args
  IO.print output.shown
  (← IO.getStderr).putStr output.reported
  return output.code.toUInt32
