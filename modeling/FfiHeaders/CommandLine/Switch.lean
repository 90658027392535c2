import FfiHeaders.Table

/-!
# The options of the command line
-/
namespace FfiHeaders.CommandLine

inductive Switch
  | help
  | listLangs
  | lang
  | libName
  | customCode
  | outputDir
  | dryRun
  | verbose
  deriving DecidableEq, Repr

namespace Switch

/-- The options in the order in which they are offered. -/
def all : List Switch := [help, listLangs, lang, libName, customCode, outputDir, dryRun, verbose]

def spellings : Switch → List String
  | help => ["-h", "--help"]
  | listLangs => ["--list-langs"]
  | lang => ["--lang"]
  | libName => ["--lib-name"]
  | customCode => ["--custom-code"]
  | outputDir => ["-o", "--output-dir"]
  | dryRun => ["--dry-run"]
  | verbose => ["-v", "--verbose"]

/-- What the value of an option stands for, for the options that take one. -/
def value? : Switch → Option String
  | lang => some "LANG"
  | libName => some "LIB_NAME"
  | customCode => some "FILE"
  | outputDir => some "OUTPUT_DIR"
  | _ => none

def purpose : Switch → String
  | help => "show this help and exit"
  | listLangs => "list the available target languages and exit"
  | lang => "target language"
  | libName => "name of the native library; names the root and aggregate headers"
  | customCode => "file of raw C placed verbatim at the top of the aggregate header"
  | outputDir => "directory to write headers into"
  | dryRun => "print the names of the headers that would be written, and write nothing"
  | verbose => "log every skipped declaration"

def takesValue (s : Switch) : Bool := s.value?.isSome

/-- The name of an option in a message. -/
def label (s : Switch) : String := String.intercalate "/" s.spellings

/-- All spellings, each with its option. -/
def index : List (String × Switch) := all.flatMap fun s => s.spellings.map fun n => (n, s)

def ofSpelling? (spelling : String) : Option Switch := Table.lookup spelling index

/-- The option that a letter names after one dash. -/
def ofLetter? (c : Char) : Option Switch := ofSpelling? (String.ofList ['-', c])

/-- A line of the help. -/
def line (s : Switch) : String :=
  "  " ++ String.intercalate ", " (s.spellings.map fun n =>
    match s.value? with
    | some v => n ++ " " ++ v
    | none => n) ++ ": " ++ s.purpose ++ "\n"

end Switch

/-- The help. -/
def help : String :=
  "usage: headergen [options] [input]\n\nGenerate C headers from a library's FFI declarations.\n\n" ++
    "  input: JSON file describing the root FFI module\n" ++ String.join (Switch.all.map Switch.line)

end FfiHeaders.CommandLine
