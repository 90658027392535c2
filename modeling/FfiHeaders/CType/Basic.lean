import FfiHeaders.Document.Symbol

/-!
# C types and their declarators

A C type is written around the name that it declares: `uint8_t* data`, `void (*cb)(int32_t x)`. A
function pointer therefore carries the text inside its `(*…)` itself, and an argument of one is a
type with its name.
-/
namespace FfiHeaders

/-- Whether a pointer lets its target be changed. -/
inductive PointerKind
  | const
  | mutable
  deriving DecidableEq, Repr

mutual

inductive CType
  | void
  /-- A type that C or a standard header provides. -/
  | native (name : String)
  /-- A type that some header of the library declares. -/
  | user (name : Symbol)
  | pointer (kind : PointerKind) (target : CType)
  /-- A pointer to a function; `inner` is a name or the head of a function that returns it. -/
  | function (inner : String) (args : List Declarator) (result : CType)
  deriving Inhabited, Repr

/-- A C type with the name it declares, which may be empty. -/
inductive Declarator
  | mk (name : String) (type : CType)
  deriving Inhabited, Repr

end

namespace Declarator

def name : Declarator → String
  | mk n _ => n

def type : Declarator → CType
  | mk _ t => t

end Declarator

namespace CType

def isPointer : CType → Bool
  | pointer _ _ => true
  | _ => false

def isFunction : CType → Bool
  | function _ _ _ => true
  | _ => false

mutual

/-- The written type. The qualifier of a pointer to a constant pointer binds to the inner star. -/
def text : CType → String
  | void => "void"
  | native n => n
  | user s => s.plain
  | pointer .mutable t => t.text ++ "*"
  | pointer .const t => if t.isPointer then t.text ++ " const*" else "const " ++ t.text ++ "*"
  | function inner args result =>
    result.text ++ " (*" ++ inner ++ ")(" ++
      (if args.isEmpty then "void" else String.intercalate ", " (argTexts args)) ++ ")"

/-- The written declarator. A function pointer holds its name already. -/
def declaratorText : Declarator → String
  | .mk name t => if t.isFunction || name.isEmpty then t.text else t.text ++ " " ++ name

def argTexts : List Declarator → List String
  | [] => []
  | d :: ds => declaratorText d :: argTexts ds

end

mutual

/-- The names of the user types in a type, in the order in which they are met. -/
def mentions : CType → List Symbol
  | void | native _ => []
  | user s => [s]
  | pointer _ t => t.mentions
  | function _ args result => result.mentions ++ argMentions args

def argMentions : List Declarator → List Symbol
  | [] => []
  | .mk _ t :: ds => t.mentions ++ argMentions ds

end

end CType

namespace Declarator

def text (d : Declarator) : String := CType.declaratorText d

def mentions (d : Declarator) : List Symbol := d.type.mentions

/-- A declarator can be written if the names of its user types are words. -/
def isPrintable (d : Declarator) : Bool := d.mentions.all Symbol.isWord

/-- The written declarator, if it can be written. -/
def text? (d : Declarator) : Option String := if d.isPrintable then some d.text else none

@[simp] theorem text?_eq_some_iff {d : Declarator} {s : String} :
    d.text? = some s ↔ d.isPrintable ∧ s = d.text := by
  by_cases h : d.isPrintable <;> simp [text?, h, eq_comm]

end Declarator

end FfiHeaders
