import FfiHeaders.Text.Blank
import FfiHeaders.Writer

/-!
# Target languages by name

Languages are registered under a name, and the first query also registers C. A name is never given to
a second language. The default is the last language registered as such, or else the first of all.
-/
namespace FfiHeaders.Language

/-- What stands behind a registered name: the C writer, or a class of a client, which its label tells
from the other classes. -/
inductive Backend
  | c
  | client (label : String := "")
  deriving DecidableEq, Repr

structure Entry where
  backend : Backend
  description : String
  deriving DecidableEq, Repr

/-- What a client says of a language when it registers it. -/
structure Registration where
  name : String
  backend : Backend
  isDefault : Bool
  description : Option String
  /-- Documentation, whose first line stands in for a missing description. -/
  documentation : Option String

structure Registry where
  entries : Table String Entry
  default : Option String
  /-- Whether a query has already registered C. -/
  isLoaded : Bool

/-- The first line of a trimmed text. -/
def firstLine (s : String) : String :=
  String.ofList ((Text.trim s.toList).takeWhile (· != '\n'))

def Registration.entry (r : Registration) : Entry where
  backend := r.backend
  description := match r.description with
    | some d => d
    | none => (r.documentation.map firstLine).getD ""

/-- The registration of C. -/
def cRegistration : Registration where
  name := Writer.languageName
  backend := .c
  isDefault := true
  description := some Writer.formatDescription
  documentation := none

/-- Settings of a new instance, by name. -/
abbrev Options := List (String × Value)

/-- A language ready for use. An instance of a client's class knows its class, by the label. -/
inductive Instance
  | c (libName customCode : Value)
  | client {label : String} (name : String) (options : Options)

/-- What an instance is an instance of. -/
def Instance.backend : Instance → Backend
  | c _ _ => .c
  | @client label _ _ => .client label

/-- The writer behind an instance of C, whose custom code has to be a text. -/
def Instance.writer? : Instance → Option Writer
  | c libName (.text customCode) => some (.new libName customCode)
  | _ => none

structure Info where
  name : String
  description : String
  isDefault : Bool
  deriving DecidableEq, Repr

namespace Registry

/-- The registry of a process that has asked nothing yet. -/
def fresh : Registry := ⟨.empty, none, false⟩

/-- A registry that stays empty until a client registers a language. -/
def vacant : Registry := ⟨.empty, none, true⟩

/-- Adds a language, unless its name is taken. -/
def register (r : Registry) (l : Registration) : Registry × Except Failure Unit :=
  if r.entries.contains l.name then (r, .error (.language (.taken l.name)))
  else
    ({ r with
        entries := r.entries.set l.name l.entry
        default := if l.isDefault || r.default.isNone then some l.name else r.default },
      .ok ())

/-- Registers C at the first query. -/
def load (r : Registry) : Registry × Except Failure Unit :=
  if r.isLoaded then (r, .ok ()) else register { r with isLoaded := true } cRegistration

/-- A query: loads the registry and asks what it then holds. -/
def query {α : Type} (r : Registry) (ask : Registry → Except Failure α) :
    Registry × Except Failure α :=
  match r.load with
  | (r, .ok ()) => (r, ask r)
  | (r, .error f) => (r, .error f)

/-- The registered names in order of registration. -/
def names (r : Registry) : Registry × Except Failure (List String) :=
  r.query fun r => .ok r.entries.keys

def isAvailable (r : Registry) (name : String) : Registry × Except Failure Bool :=
  r.query fun r => .ok (r.entries.contains name)

def info (r : Registry) : Registry × Except Failure (List Info) :=
  r.query fun r => .ok (r.entries.entries.map fun e =>
    ⟨e.1, e.2.description, r.default == some e.1⟩)

def defaultOf (r : Registry) : Except Failure String :=
  match r.default with
  | some n => .ok n
  | none => .error (.language .noneAvailable)

def getDefault (r : Registry) : Registry × Except Failure String := r.query defaultOf

/-- A new instance of C. It knows two settings. -/
def newC (options : Options) : Except Failure Instance :=
  if options.all fun o => o.1 == "lib_name" || o.1 == "custom_code" then
    .ok (.c (Value.getD options "lib_name" (.text Writer.defaultLibName))
      (Value.getD options "custom_code" (.text "")))
  else .error (.mismatch .operation)

/-- A new instance of a client's class. An instance is `self` to its own code, so no setting can
be called that. -/
def newClient (label name : String) (options : Options) : Except Failure Instance :=
  if options.any fun o => o.1 == "self" then .error (.mismatch .operation)
  else .ok (@Instance.client label name options)

/-- A new instance of what is registered as `name`. -/
def instantiate (b : Backend) (name : String) (options : Options) : Except Failure Instance :=
  match b with
  | .c => newC options
  | .client label => newClient label name options

def instanceOf (r : Registry) (name : Option String) (options : Options) :
    Except Failure Instance := do
  let name ← match name with
    | some n => .ok n
    | none => r.defaultOf
  match r.entries.get? name with
  | none => throw (.language (.unknown name r.entries.keys))
  | some e => instantiate e.backend name options

/-- A new instance of the named language, or of the default one. The settings stand beside `name` in
a request, so none of them can be called that. -/
def get (r : Registry) (name : Option String) (options : Options) :
    Registry × Except Failure Instance :=
  if options.any fun o => o.1 == "name" then (r, .error (.mismatch .operation))
  else r.query fun r => r.instanceOf name options

/-- The registry in which C is registered. -/
def standard : Registry := fresh.load.1

theorem register_of_taken {r : Registry} {l : Registration} (h : r.entries.contains l.name) :
    r.register l = (r, .error (.language (.taken l.name))) := by
  simp [register, h]

theorem load_of_isLoaded {r : Registry} (h : r.isLoaded) : r.load = (r, .ok ()) := by
  simp [load, h]

theorem isLoaded_load (r : Registry) : r.load.1.isLoaded = true := by
  unfold load register
  split
  · assumption
  · dsimp only; split <;> rfl

example : standard.names.2.toOption = some ["c"] := by decide

end Registry

end FfiHeaders.Language
