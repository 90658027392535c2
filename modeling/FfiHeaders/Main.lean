import FfiHeaders.CommandLine.Report

/-!
# The program

The disk as a store of files, and the entry point.
-/
namespace FfiHeaders

/-- The fault behind an error of the system. -/
def Files.Fault.ofError : IO.Error → Files.Fault
  | .noFileOrDirectory .. => .missing
  | .alreadyExists .. => .taken
  | .inappropriateType .. => .notDirectory
  | .permissionDenied .. => .system 13 "Permission denied"
  | .invalidArgument _ code _ =>
    if code = 36 || -code = 36 then .nameTooLong else .system 22 "Invalid argument"
  | e => .system 5 (toString e)

/-- A directory, and nothing else, holds an entry `.` that cannot be made anew. -/
def isDirectoryOnDisk (p : Files.Path) : IO Bool := do
  try
    IO.FS.createDir (p.text ++ "/.")
    return true
  catch
    | .alreadyExists .. => return true
    | _ => return false

/-- An operation on a path that is refused with the fault of its error. -/
def attempt {α : Type} (p : Files.Path) (action : IO α) : IO (Except Files.Refusal α) := do
  if p.text.toList.contains '\x00' then return .error ⟨.nullCharacter, p⟩
  else
    try return .ok (← action)
    catch e => return .error ⟨.ofError e, p⟩

/-- An operation on a file, which is refused on a directory. -/
def attemptFile {α : Type} (p : Files.Path) (action : IO α) : IO (Except Files.Refusal α) := do
  if ← isDirectoryOnDisk p then return .error ⟨.isDirectory, p⟩ else attempt p action

/-- The files on the disk. -/
def disk : Files.Store IO where
  read p := attemptFile p (IO.FS.readBinFile p.text)
  write p content := attemptFile p (IO.FS.writeBinFile p.text content)
  makeDirectory p := attempt p (IO.FS.createDir p.text)
  isDirectory := isDirectoryOnDisk

end FfiHeaders

def main (argv : List String) : IO UInt32 := do
  match ← FfiHeaders.CommandLine.run FfiHeaders.disk argv with
  | .ok report =>
    IO.print report.output
    IO.eprint report.log
    return report.status.toUInt32
  | .error _ =>
    IO.eprintln "the input has a value of the wrong shape"
    return 1
