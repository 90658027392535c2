import FfiHeaders.Document.Reader
import FfiHeaders.Source.Declaration

/-!
# Failures

Every way in which reading declarations or generating headers can fail, named by its cause. The
wording is in `Cause.message`, `DocumentFault.message` and `Failure.message` alone.
-/
namespace FfiHeaders

/-- Whose fault a rejection is: a bug breaks a contract between parts of the generator, an error is a
source that C cannot express. -/
inductive Level
  | bug
  | error
  deriving DecidableEq, Repr

def Level.word : Level → String
  | bug => "bug"
  | error => "error"

def Level.ofWord? : String → Option Level
  | "bug" => some bug
  | "error" => some error
  | _ => none

/-- The complaint about a word that names no level. -/
def Level.unknownMessage (word : String) : String := Text.quoted word ++ " is not a valid Level"

/-- What the user of the generator is told about a rejection. -/
structure Diagnostic where
  message : String
  level : Level
  span : Option Span

def Diagnostic.text (d : Diagnostic) : String :=
  d.level.word ++ ": " ++ d.message ++
    match d.span with
    | none => ""
    | some s => " (at " ++ s.text ++ ")"

/-- Why a declaration, a session or a set of headers is rejected. -/
inductive Cause
  /-- A function pointer stands where C has no place for its name. -/
  | anonymousFunction (type : TypeExpr)
  | inexpressible (type : TypeExpr)
  | neverReturns
  | lifetimes (type : TypeExpr)
  /-- A path without segments. -/
  | emptyPath
  | foreignModule (type : TypeExpr)
  /-- A parameter that does not bind a plain identifier by value. -/
  | pattern (pattern : Value) (function : String)
  | emptyModulePath
  | genericEnum
  | genericStruct
  | genericFunction
  /-- A variant with fields. -/
  | payload
  | positionalField
  /-- A struct that is neither named nor a wrapper of one field. -/
  | structShape
  /-- A module where a declaration is due. -/
  | moduleItem
  /-- A declaration of another kind than the one asked for. -/
  | otherKind (expected : Kind)
  | finalisedTwice
  | aggregateTaken (header : String)
  | sharedGuard (first second guard : String)
  | renamedLate

def Kind.emitterName : Kind → String
  | .typeAlias => "emit_type_alias"
  | .enum => "emit_enum"
  | .struct => "emit_struct"
  | .function => "emit_function"

namespace Cause

def message : Cause → String
  | anonymousFunction t =>
    "C function pointers must have a name or function declaration associated with them: `" ++
      t.text ++ "`"
  | inexpressible t => "can not handle the type `" ++ t.text ++ "`"
  | neverReturns => "values that never return cannot cross into C"
  | lifetimes t => "can not handle lifetimes: `" ++ t.text ++ "`"
  | emptyPath => "invalid type"
  | foreignModule t =>
    "can not handle types in other modules (except `libc` and `std::os::raw`): `" ++ t.text ++ "`"
  | pattern p f =>
    "only supports by-value arguments: incorrect argument `" ++ p.plain ++
      "` in function definition `" ++ f ++ "`"
  | emptyModulePath => "empty module path"
  | genericEnum => "can not handle parameterized `#[repr(C)]` enums"
  | genericStruct => "can not handle parameterized `#[repr(C)]` structs"
  | genericFunction => "can not handle parameterized extern functions"
  | payload => "can not handle `#[repr(C)]` enums with non-unit variants"
  | positionalField => "named struct has a positional field"
  | structShape => "can not handle unit or tuple `#[repr(C)]` structs with >1 members"
  | moduleItem => "cannot emit Module declarations"
  | otherKind k => "`" ++ k.emitterName ++ "` called on wrong declaration"
  | finalisedTwice => "header state already finalised"
  | aggregateTaken h => "module header `" ++ h ++ "` collides with the aggregate header"
  | sharedGuard h₁ h₂ g =>
    "headers `" ++ h₁ ++ "` and `" ++ h₂ ++ "` share the include guard `bindgen_" ++ g ++ "`"
  | renamedLate => "library name changed after declarations were emitted"

def level : Cause → Level
  | emptyPath | emptyModulePath | positionalField | moduleItem | otherKind _ | finalisedTwice
  | renamedLate => .bug
  | _ => .error

end Cause

/-- What is wrong with a document that describes no module. -/
inductive DocumentFault
  | missingKey (what key : String) (value : Value)
  | noType (v : Value)
  | noAttribute (v : Value)
  | noItem (v : Value)
  | noModule (v : Value)
  | unknownType (kind : Value)
  | unknownItem (kind : Value)

def DocumentFault.message : DocumentFault → String
  | missingKey what key v =>
    what ++ " is missing required key " ++ Text.quoted key ++ ": " ++ v.quoted
  | noType v => "type must be a string or an object: " ++ v.quoted
  | noAttribute v => "attribute must be a string or an object: " ++ v.quoted
  | noItem v => "item must be an object: " ++ v.quoted
  | noModule v => "module must be an object: " ++ v.quoted
  | unknownType k => "unknown type kind " ++ k.quoted
  | unknownItem k => "unknown item kind " ++ k.quoted

/-- What is wrong with a request for a target language. -/
inductive LanguageFault
  | taken (name : String)
  | unknown (name : String) (available : List String)
  | noneAvailable

/-- The names in a message. Where they have no text, a word says so. -/
def listed (names : List String) : String :=
  let text := String.intercalate ", " names
  if text.isEmpty then "(none)" else text

def LanguageFault.message : LanguageFault → String
  | taken n => "Language already registered: " ++ Text.quoted n
  | unknown n available =>
    "Unknown language: " ++ Text.quoted n ++ ". Available: " ++ listed available
  | noneAvailable => "No languages available"

/-- A value of a shape that the document's reader did not check and that a later use cannot bear. -/
inductive Mismatch
  /-- The operation does not exist on values of that shape. -/
  | operation
  /-- The part asked for does not exist in values of that shape. -/
  | part
  deriving DecidableEq, Repr

/-- An include: its head needs what its tail declares. -/
abbrev Edge := String × String

inductive Failure
  | rejected (cause : Cause) (span : Option Span)
  /-- Headers that need each other, as edges that lead around. -/
  | cyclic (cycle : List Edge)
  | document (fault : DocumentFault)
  | malformed (place : Document.Malformed)
  | language (fault : LanguageFault)
  | mismatch (m : Mismatch)

/-- The headers around a cycle, the first one again at the end. -/
def cycleText : List Edge → String
  | [] => "?"
  | e :: es => String.intercalate " -> " ((e :: es).map (·.1) ++ [e.1])

namespace Failure

def reject (cause : Cause) : Failure := rejected cause none

/-- A rejection as it is reported, for the failures that are rejections. -/
def diagnostic? : Failure → Option Diagnostic
  | rejected c s => some ⟨c.message, c.level, s⟩
  | cyclic es => some ⟨"cyclic dependency between headers: " ++ cycleText es, .error, none⟩
  | _ => none

/-- The text of a failure. A mismatch has none, because it ends a run before anything is reported. -/
def message? : Failure → Option String
  | document f => some f.message
  | malformed m => some m.message
  | language f => some f.message
  | mismatch _ => none
  | f => f.diagnostic?.map Diagnostic.text

/-- A rejection that has no place yet gets this one. -/
def atSpan (span : Option Span) : Failure → Failure
  | rejected c none => rejected c span
  | f => f

end Failure

end FfiHeaders
