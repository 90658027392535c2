import FfiHeaders.CommandLine.Arguments
import FfiHeaders.Files.Store
import FfiHeaders.Language.Registry
import FfiHeaders.Source.OfDocument
import FfiHeaders.Text.Newline
import FfiHeaders.Text.Utf8

/-!
# Running a command line

A run reads the files that its arguments name, generates all headers, and only then writes the first
of them. What it leaves, apart from the files, is a `Report`.
-/
namespace FfiHeaders.CommandLine

/-- Why headers are not generated. -/
inductive Problem
  | failure (f : Failure)
  | undecodable (u : Text.Utf8.Undecodable)
  | refused (r : Files.Refusal)

/-- The text of a problem. A mismatch has none. -/
def Problem.message? : Problem → Option String
  | failure f => f.message?
  | undecodable u => some u.message
  | refused r => some r.message

/-- The exit status of a program, with its output and its log. -/
structure Report where
  status : Nat
  output : String
  log : String
  deriving DecidableEq, Repr

/-- Each line with a line feed at its end. -/
def unlines (lines : List String) : String := String.join (lines.map (· ++ "\n"))

def languages : List Language.Info := (Language.Registry.standard.info.2.toOption).getD []

def languageLine (i : Language.Info) : String :=
  i.name ++ ": " ++ i.description ++ if i.isDefault then " (default)" else ""

/-- The arguments when none is given. -/
def defaults : Arguments :=
  .default ((Language.Registry.standard.getDefault.2.toOption).getD "") Writer.defaultLibName

/-- The writer that the arguments ask for. No language can be found without a name. -/
def writer (a : Arguments) (customCode : String) : Except Failure Writer := do
  let mismatch := Failure.mismatch .operation
  match a.lang with
  | none => throw mismatch
  | some lang =>
    let options := [("lib_name", a.library), ("custom_code", Value.text customCode)]
    match (← (Language.Registry.standard.get (some lang) options).2).writer? with
    | none => throw mismatch
    | some w => return w

section Run

variable {m : Type → Type} [Monad m] (s : Files.Store m)

/-- The text of a file, with unified line ends. -/
def readText (path : String) : m (Except Problem String) := do
  match ← s.read (.ofText path) with
  | .error r => return .error (.refused r)
  | .ok content =>
    return match Text.Utf8.decode content.toList with
      | .error u => .error (.undecodable u)
      | .ok cs => .ok (String.ofList (Text.unifyNewlines cs))

/-- The custom code, the language and the input of a run, in this order. -/
def prepare (input : String) (a : Arguments) : m (Except Problem (Writer × Module)) := do
  let custom ← match a.customCode with
    | some file => readText s file
    | none => pure (.ok "")
  match custom with
  | .error p => return .error p
  | .ok customCode =>
    match writer a customCode with
    | .error f => return .error (.failure f)
    | .ok w =>
      match ← readText s input with
      | .error p => return .error p
      | .ok text =>
        return match Source.readModule text with
          | .error f => .error (.failure f)
          | .ok module => .ok (w, module)

/-- Generates the headers and writes them, or lists their paths in a dry run. Returns what happened,
and the paths listed. -/
def generate (input : String) (a : Arguments) : m (List Event × Except Problem (List String)) := do
  match ← prepare s input a with
  | .error p => return ([], .error p)
  | .ok (w, module) =>
    let progress := w.compile module true
    match progress.result with
    | .error f => return (progress.events, .error (.failure f))
    | .ok files =>
      let files := files.mergeSort fun f g => f.1 ≤ g.1
      if a.dryRun then return (progress.events, .ok (files.map (·.1)))
      else
        match a.outputDir with
        | none => return (progress.events, .error (.failure (.mismatch .operation)))
        | some directory =>
          let (written, result) ← s.placeAll (.ofText directory) files
          return (progress.events ++ written.map fun p => .wrote p.text,
            match result with
            | .ok () => .ok []
            | .error r => .error (.refused r))

/-- The report of a request to generate headers. A mismatch ends the program without one. -/
def generateReport (input : String) (a : Arguments) : m (Except Mismatch Report) := do
  let (events, result) ← generate s input a
  let log := if a.verbose then unlines (events.map Event.line) else ""
  return match result with
    | .ok listed => .ok ⟨0, unlines listed, log⟩
    | .error (.failure (.mismatch k)) => .error k
    | .error p => .ok ⟨1, "", log ++ unlines ["ERROR: " ++ (p.message?.getD "")]⟩

/-- The report of a command line. -/
def run (argv : List String) : m (Except Mismatch Report) :=
  match Request.read (languages.map (·.name)) defaults argv with
  | .error e => return .ok ⟨2, "", unlines ["headergen: error: " ++ e.message]⟩
  | .ok .help => return .ok ⟨0, help, ""⟩
  | .ok .listLangs => return .ok ⟨0, unlines (languages.map languageLine), ""⟩
  | .ok (.generate input a) => generateReport s input a

end Run

end FfiHeaders.CommandLine
