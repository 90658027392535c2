import FfiHeaders.Files.Path
import FfiHeaders.Text.Quoted

/-!
# Files as the command line sees them

A `Store` is all that the command line asks of a file system. The tree of `Files.Tree` is one, and the
disk is another, so that one definition of a run serves both.
-/
namespace FfiHeaders.Files

/-- Why an operation on a file is refused. -/
inductive Fault
  | missing
  | taken
  | notDirectory
  | isDirectory
  | nameTooLong
  /-- The path holds U+0000, which no path can. -/
  | nullCharacter
  /-- A fault of the system that a tree in memory does not have. -/
  | system (number : Nat) (text : String)
  deriving DecidableEq, Repr

/-- The system's number and text for a fault. The last one is not the system's. -/
def Fault.description : Fault → Option (Nat × String)
  | missing => some (2, "No such file or directory")
  | taken => some (17, "File exists")
  | notDirectory => some (20, "Not a directory")
  | isDirectory => some (21, "Is a directory")
  | nameTooLong => some (36, "File name too long")
  | system n t => some (n, t)
  | nullCharacter => none

structure Refusal where
  fault : Fault
  path : Path
  deriving DecidableEq, Repr

def Refusal.message (r : Refusal) : String :=
  match r.fault.description with
  | some (n, t) => "[Errno " ++ toString n ++ "] " ++ t ++ ": " ++ Text.quoted r.path.text
  | none => "embedded null byte"

/-- The operations on files that may be refused. -/
structure Store (m : Type → Type) where
  read : Path → m (Except Refusal ByteArray)
  write : Path → ByteArray → m (Except Refusal Unit)
  /-- Makes a directory in one that exists. -/
  makeDirectory : Path → m (Except Refusal Unit)
  isDirectory : Path → m Bool

namespace Store

variable {m : Type → Type} [Monad m]

/-- Makes a directory unless it is there. -/
def ensureDirectory (s : Store m) (p : Path) : m (Except Refusal Unit) := do
  match ← s.makeDirectory p with
  | .ok () => return .ok ()
  | .error r =>
    if r.fault ≠ .missing ∧ (← s.isDirectory p) then return .ok () else return .error r

/-- Makes a directory and those on the way to it that are missing. -/
def ensureDirectories (s : Store m) (p : Path) : m (Except Refusal Unit) := do
  match ← s.ensureDirectory p with
  | .ok () => return .ok ()
  | .error r =>
    if _h : r.fault = .missing ∧ p.names ≠ [] then
      match ← s.ensureDirectories p.parent with
      | .ok () => s.ensureDirectory p
      | .error r => return .error r
    else return .error r
termination_by p.names.length
decreasing_by
  have := List.length_pos_iff.2 _h.2
  simp only [Path.parent, List.length_dropLast]
  omega

/-- Writes a file, after the directories on the way to it. -/
def place (s : Store m) (p : Path) (content : ByteArray) : m (Except Refusal Unit) := do
  match ← s.ensureDirectories p.parent with
  | .ok () => s.write p content
  | .error r => return .error r

/-- Writes files under a directory up to the first refusal. Returns the paths written. -/
def placeAll (s : Store m) (root : Path) :
    List (String × String) → m (List Path × Except Refusal Unit)
  | [] => return ([], .ok ())
  | f :: fs => do
    let p := root.join (.ofText f.1)
    match ← s.place p f.2.toUTF8 with
    | .error r => return ([], .error r)
    | .ok () =>
      let rest ← s.placeAll root fs
      return (p :: rest.1, rest.2)

end Store

end FfiHeaders.Files
