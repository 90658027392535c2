/-!
# Paths

A path names a file by the directories on the way to it. Empty names and `.` lead nowhere and are
dropped. The name `..` stays, because the directory before it has to exist.
-/
namespace FfiHeaders.Files

/-- Where a path starts. -/
inductive Anchor
  /-- The directory in which the program runs. -/
  | here
  | root
  /-- Exactly two slashes, which a system may take for a root of its own. -/
  | secondRoot
  deriving DecidableEq, Repr

def Anchor.text : Anchor → String
  | here => ""
  | root => "/"
  | secondRoot => "//"

structure Path where
  anchor : Anchor
  names : List String
  deriving DecidableEq, Repr

namespace Path

def anchorOf : List Char → Anchor
  | '/' :: '/' :: '/' :: _ => .root
  | '/' :: '/' :: _ => .secondRoot
  | '/' :: _ => .root
  | _ => .here

/-- The names between the slashes that lead somewhere. -/
def namesOf (cs : List Char) : List String :=
  ((cs.splitOn '/').map String.ofList).filter fun n => n ≠ "" ∧ n ≠ "."

def ofText (s : String) : Path := ⟨anchorOf s.toList, namesOf s.toList⟩

def text (p : Path) : String :=
  if p.anchor = .here ∧ p.names = [] then "."
  else p.anchor.text ++ String.intercalate "/" p.names

/-- The path `q` taken from the directory `p`. A path with an anchor of its own stays. -/
def join (p q : Path) : Path :=
  if q.anchor = .here then ⟨p.anchor, p.names ++ q.names⟩ else q

/-- The directory that holds the file. -/
def parent (p : Path) : Path := { p with names := p.names.dropLast }

theorem join_here (p : Path) (names : List String) :
    p.join ⟨.here, names⟩ = ⟨p.anchor, p.names ++ names⟩ := rfl

example : (ofText "./a//b/").text = "a/b" := by decide +kernel
example : (ofText "").text = "." := by decide +kernel
example : ((ofText "a").join (ofText "/b")).text = "/b" := by decide +kernel

end Path

end FfiHeaders.Files
