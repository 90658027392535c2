import FfiHeaders.Files.Store
import FfiHeaders.Table

/-!
# A tree of files in memory

A place in the tree is the list of names that lead to it from the working directory. The directories
above the working directory are there too, as the places that consist of `..` alone, and so is the
root, as the place `/`.
-/
namespace FfiHeaders.Files

inductive Entry
  | directory
  | file (content : ByteArray)

abbrev Place := List String

structure Tree where
  entries : Table Place Entry

namespace Tree

def empty : Tree := ⟨.empty⟩

/-- The longest name of an entry, in bytes. -/
def longestName : Nat := 255

/-- The longest path, in bytes. -/
def longestPath : Nat := 4095

/-- Whether a place is the working directory or above it. -/
def isAbove (l : Place) : Bool := l.all (· = "..") || l = ["/"]

def get? (t : Tree) (l : Place) : Option Entry :=
  if isAbove l then some .directory else t.entries.get? l

/-- The place that a name leads to from a directory. -/
def enter (l : Place) (name : String) : Place :=
  if name = ".." then
    if l = ["/"] then l
    else if isAbove l then l ++ [name]
    else l.dropLast
  else l ++ [name]

/-- The place that names lead to, through directories that exist. -/
def walk (t : Tree) (l : Place) : List String → Except Fault Place
  | [] => .ok l
  | n :: ns =>
    match t.get? l with
    | none => .error .missing
    | some (.file _) => .error .notDirectory
    | some .directory =>
      if n.utf8ByteSize > longestName then .error .nameTooLong else t.walk (enter l n) ns

/-- The place that a path leads to, which may be vacant. -/
def locate (t : Tree) (p : Path) : Except Refusal Place :=
  let found :=
    if p.text.toList.contains '\x00' then .error .nullCharacter
    else if p.text.utf8ByteSize > longestPath then .error .nameTooLong
    else t.walk (if p.anchor = .here then [] else ["/"]) p.names
  found.mapError fun f => ⟨f, p⟩

def read (t : Tree) (p : Path) : Except Refusal ByteArray := do
  match t.get? (← t.locate p) with
  | none => throw ⟨.missing, p⟩
  | some .directory => throw ⟨.isDirectory, p⟩
  | some (.file content) => return content

def write (t : Tree) (p : Path) (content : ByteArray) : Except Refusal Tree := do
  let l ← t.locate p
  match t.get? l with
  | some .directory => throw ⟨.isDirectory, p⟩
  | _ => return ⟨t.entries.set l (.file content)⟩

def makeDirectory (t : Tree) (p : Path) : Except Refusal Tree := do
  let l ← t.locate p
  match t.get? l with
  | some _ => throw ⟨.taken, p⟩
  | none => return ⟨t.entries.set l .directory⟩

def isDirectory (t : Tree) (p : Path) : Bool :=
  match t.locate p with
  | .error _ => false
  | .ok l =>
    match t.get? l with
    | some .directory => true
    | _ => false

/-- Keeps the changed tree of an operation that is not refused. -/
def change (f : Tree → Except Refusal Tree) : StateM Tree (Except Refusal Unit) := fun t =>
  match f t with
  | .ok t' => (.ok (), t')
  | .error r => (.error r, t)

/-- The store that a tree in memory is. -/
def store : Store (StateM Tree) where
  read p := return (← get).read p
  write p content := change fun t => t.write p content
  makeDirectory p := change fun t => t.makeDirectory p
  isDirectory p := return (← get).isDirectory p

end Tree

end FfiHeaders.Files
