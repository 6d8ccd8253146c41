import TextTemplate.Command.Run
import TextTemplate.Data.Read

/-! # The program

  Gives the program its arguments, its environment and the files of the system, with
  a reader of JSON texts for data files and the codecs that are described here.
-/

namespace TextTemplate.Command

/-- The bytes of a file of the system. -/
def readFile (place : String) : IO DiskEntry := do
  try
    return .file (← IO.FS.readBinFile place).toList
  catch e =>
    return .unreadable (toString e)

/-- Why a path leads to nothing. -/
def lookFailed (path : Path) : IO DiskEntry := do
  try
    discard (IO.FS.Handle.mk path.text .read)
    return .absent
  catch
    | .invalidArgument _ code _ =>
      return if code.toNat = Disk.tooLongNumber then .tooLong else .absent
    | _ => return .absent

/-- What the system has at a path. -/
def lookOnDisk (path : Path) : IO DiskEntry := do
  try
    let place ← IO.FS.realPath path.text
    if ← place.isDir then return .directory else readFile place.toString
  catch _ =>
    lookFailed path

/-- The files of the system. -/
def systemDisk : IO (Disk IO) := do
  let current ← IO.currentDir
  return ⟨(Path.ofText current.toString).parts, lookOnDisk⟩

end TextTemplate.Command

open TextTemplate TextTemplate.Command in
/-- Runs the program. -/
def main (arguments : List String) : IO UInt32 := do
  let output ← IO.getStdout
  let errors ← IO.getStderr
  match ← run Data.json Codecs.basic (← systemDisk) (← IO.getEnv "CHAINTPL_CONFIG") arguments with
  | .ok report =>
    errors.putStr report.errors
    output.putStr report.output
    return UInt32.ofNat report.code
  | .error _ => errors.putStr "The template cannot be handled.\n"; return 1
