import FfiHeaders.CommandLine.Switch
import FfiHeaders.Document.Value
import FfiHeaders.Text.Digit
import FfiHeaders.Text.Quoted

/-!
# Reading the arguments of the command line

Each argument is first taken by itself, as an option or as a plain one, and then the options take
their values from the plain arguments that follow them. A long option may be cut short as long as one
option alone begins that way, flags of one letter may be joined, and after `--` every argument is
plain.
-/
namespace FfiHeaders.CommandLine

/-- Why the arguments cannot be followed. -/
inductive UsageError
  | ambiguous (argument : String) (candidates : List String)
  /-- A flag with a value. -/
  | ignoredValue (option : Switch) (value : String)
  | missingValue (option : Switch)
  | unknownLanguage (name : String) (languages : List String)
  | unrecognised (arguments : List String)
  | missingInput
  deriving DecidableEq, Repr

namespace UsageError

def aboutOption (option : Switch) (complaint : String) : String :=
  "argument " ++ option.label ++ ": " ++ complaint

def message : UsageError → String
  | ambiguous a candidates =>
    "ambiguous option: " ++ a ++ " could match " ++ String.intercalate ", " candidates
  | ignoredValue s v => aboutOption s ("ignored explicit argument " ++ Text.quoted v)
  | missingValue s => aboutOption s "expected one argument"
  | unknownLanguage n languages =>
    aboutOption .lang ("invalid choice: " ++ Text.quoted n ++ " (choose from " ++
      String.intercalate ", " (languages.map Text.quoted) ++ ")")
  | unrecognised as => "unrecognized arguments: " ++ String.intercalate " " as
  | missingInput => "the following arguments are required: input"

end UsageError

/-! ## One argument -/

/-- An argument taken by itself. -/
inductive Token
  | plain (argument : String)
  /-- An option, written as one letter or as a word, with the text attached to it: what follows the
  letter, or an equals sign. -/
  | option (option : Switch) (isLetter : Bool) (text : Option String)
  /-- An argument in the form of an option that names none. -/
  | unknown (argument : String)
  /-- The first `--`. -/
  | separator
  deriving DecidableEq, Repr

namespace Token

/-- Whether what follows a dash makes a decimal number with it. A line feed may stand at the end. -/
def isNumber (cs : List Char) : Bool :=
  let cs := if cs.getLast? = some '\n' then cs.dropLast else cs
  match cs.dropWhile Text.isDigit with
  | [] => !cs.isEmpty
  | '.' :: ds => !ds.isEmpty && ds.all Text.isDigit
  | _ => false

/-- The text before the first equals sign, and the text after it. -/
def cut (cs : List Char) : String × Option String :=
  (String.ofList (cs.takeWhile (· ≠ '=')),
    match cs.dropWhile (· ≠ '=') with
    | [] => none
    | _ :: v => some (String.ofList v))

/-- The long spellings that begin with a text. -/
def completions (start : String) : List (String × Switch) :=
  Switch.index.filter fun e => start.toList.isPrefixOf e.1.toList

/-- An argument that spells no option in full. -/
def ofShortened (argument : String) (c : Char) (cs : List Char) : Except UsageError Token :=
  let (start, text) := cut argument.toList
  let candidates :=
    if c = '-' then (completions start).map fun e => (e.1, option e.2 false text)
    else
      ((Switch.ofLetter? c).map fun s =>
        (argument, option s true (some (String.ofList cs)))).toList
  match candidates with
  | [] =>
    .ok (if isNumber (c :: cs) || argument.toList.contains ' ' then plain argument
      else unknown argument)
  | [t] => .ok t.2
  | ts => .error (.ambiguous argument (ts.map (·.1)))

/-- An argument before the first `--`. -/
def ofArgument (argument : String) : Except UsageError Token :=
  match argument.toList with
  | '-' :: c :: cs =>
    match Switch.ofSpelling? argument with
    | some s => .ok (option s (c != '-') none)
    | none =>
      match cut argument.toList with
      | (start, some v) =>
        match Switch.ofSpelling? start with
        | some s => .ok (option s (c != '-') (some v))
        | none => ofShortened argument c cs
      | _ => ofShortened argument c cs
  | _ => .ok (plain argument)

def ofArguments : List String → Except UsageError (List Token)
  | [] => .ok []
  | a :: as =>
    if a = "--" then .ok (separator :: as.map plain)
    else do
      let t ← ofArgument a
      return t :: (← ofArguments as)

end Token

/-! ## The options of one argument -/

/-- How an argument that names options ends. -/
inductive Ending
  | complete
  | value (option : Switch) (text : String)
  /-- The value of the option is the next argument. -/
  | awaiting (option : Switch)
  deriving DecidableEq, Repr

/-- The flags of one argument, and its end. -/
structure Cluster where
  flags : List Switch
  ending : Ending
  deriving DecidableEq, Repr

namespace Cluster

def ofSwitch (s : Switch) : Cluster :=
  if s.takesValue then ⟨[], .awaiting s⟩ else ⟨[s], .complete⟩

/-- The text attached to an option is its value. -/
def ofValue (s : Switch) (text : String) : Except UsageError Cluster :=
  if s.takesValue then .ok ⟨[], .value s text⟩ else .error (.ignoredValue s text)

/-- The letters after an option of one letter are its value, or else more options. -/
def ofLetters (s : Switch) : List Char → Except UsageError Cluster
  | [] => .ok (ofSwitch s)
  | c :: cs =>
    match s.takesValue, Switch.ofLetter? c with
    | false, some s' => do
      let more ← ofLetters s' cs
      return { more with flags := s :: more.flags }
    | _, _ => ofValue s (String.ofList (c :: cs))

/-- The options of an argument that begins with `s`. -/
def ofOption (s : Switch) (isLetter : Bool) : Option String → Except UsageError Cluster
  | none => .ok (ofSwitch s)
  | some text => if isLetter && text ≠ "" then ofLetters s text.toList else ofValue s text

end Cluster

/-! ## All arguments -/

/-- What the command line asks for. An option whose value is only `--` is left without one. -/
structure Arguments where
  /-- The file that describes the module. -/
  input : Option String
  listLangs : Bool
  lang : Option String
  libName : Option String
  /-- The file that holds the custom code. -/
  customCode : Option String
  outputDir : Option String
  dryRun : Bool
  verbose : Bool
  deriving DecidableEq, Repr

inductive Request
  | help
  | listLangs
  | generate (input : String) (arguments : Arguments)

/-- Why reading stops before the last argument. -/
inductive Stop
  | help
  | error (e : UsageError)

/-- The arguments read so far, and those that have no meaning. -/
structure Reading where
  /-- The languages to choose from. -/
  languages : List String
  arguments : Arguments
  extras : List String

namespace Reading

def setFlag (r : Reading) : Switch → Except Stop Reading
  | .help => .error .help
  | .listLangs => .ok { r with arguments := { r.arguments with listLangs := true } }
  | .dryRun => .ok { r with arguments := { r.arguments with dryRun := true } }
  | .verbose => .ok { r with arguments := { r.arguments with verbose := true } }
  | _ => .ok r

/-- The language has to be one of those that there are. -/
def checkLanguage (r : Reading) : Option String → Except Stop Unit
  | none => .ok ()
  | some n => if n ∈ r.languages then .ok () else .error (.error (.unknownLanguage n r.languages))

def setValue (r : Reading) (s : Switch) (text : String) : Except Stop Reading :=
  let value := if text = "--" then none else some text
  match s with
  | .lang => do
    r.checkLanguage value
    return { r with arguments := { r.arguments with lang := value } }
  | .libName => .ok { r with arguments := { r.arguments with libName := value } }
  | .customCode => .ok { r with arguments := { r.arguments with customCode := value } }
  | .outputDir => .ok { r with arguments := { r.arguments with outputDir := value } }
  | _ => .ok r

def setInput (r : Reading) (text : String) : Reading :=
  { r with arguments := { r.arguments with input := some text } }

def addExtra (r : Reading) (argument : String) : Reading :=
  { r with extras := r.extras ++ [argument] }

def hasInput (r : Reading) : Bool := r.arguments.input.isSome

/-- Takes the options of one argument, where `next` is the plain argument that follows. -/
def takeCluster (r : Reading) (c : Cluster) (next : Option String) : Except Stop Reading := do
  match c.ending, next with
  | .awaiting s, none => throw (.error (.missingValue s))
  | _, _ => pure ()
  let r ← c.flags.foldlM setFlag r
  match c.ending, next with
  | .value s text, _ => r.setValue s text
  | .awaiting s, some text => r.setValue s text
  | _, _ => return r

/-- Reads the arguments in order. The first plain one that is no value is the input. A `--` is an extra
argument, unless the input stands directly before it or is still to come. -/
def readTokens (r : Reading) : List Token → Except Stop Reading
  | [] => .ok r
  | .plain a :: .separator :: ts =>
    if r.hasInput then ((r.addExtra a).addExtra "--").readTokens ts
    else (r.setInput a).readTokens ts
  | .plain a :: ts => (if r.hasInput then r.addExtra a else r.setInput a).readTokens ts
  | .separator :: ts => (if r.hasInput then r.addExtra "--" else r).readTokens ts
  | .unknown a :: ts => (r.addExtra a).readTokens ts
  | .option s isLetter text :: .plain a :: ts => do
    let c ← (Cluster.ofOption s isLetter text).mapError .error
    let r' ← r.takeCluster c (some a)
    match c.ending with
    | .awaiting _ => r'.readTokens ts
    | _ => r'.readTokens (.plain a :: ts)
  | .option s isLetter text :: ts => do
    let c ← (Cluster.ofOption s isLetter text).mapError .error
    (← r.takeCluster c none).readTokens ts

end Reading

/-- The arguments of an empty command line. -/
def Arguments.default (lang libName : String) : Arguments :=
  ⟨none, false, some lang, some libName, none, some ".", false, false⟩

/-- The name of the library. Without a value it is the empty list. -/
def Arguments.library (a : Arguments) : Value := (a.libName.map .text).getD (.list [])

/-- The request that a command line makes. Only a request to list the languages needs no input. -/
def Request.read (languages : List String) (default : Arguments) (argv : List String) :
    Except UsageError Request := do
  let tokens ← Token.ofArguments argv
  match Reading.readTokens ⟨languages, default, []⟩ tokens with
  | .error .help => return .help
  | .error (.error e) => throw e
  | .ok r =>
    unless r.extras.isEmpty do throw (.unrecognised r.extras)
    if r.arguments.listLangs then return .listLangs
    match r.arguments.input with
    | some input => return .generate input r.arguments
    | none => throw .missingInput

end FfiHeaders.CommandLine
