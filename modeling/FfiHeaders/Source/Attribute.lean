import FfiHeaders.Document.Value

/-!
# Attributes of declarations, fields and variants

Besides the three written shapes this module holds what the emission of a declaration asks of its
attributes: whether they fix the linkage or the layout, and which documentation lines they carry.
`Attribute.text?` writes an attribute as source, which fails where a bare name in a list is no text.
-/
namespace FfiHeaders

/-- The shapes are `#[name]`, `#[name(items)]` and `#[name = "value"]`. -/
inductive Attribute
  | word (name : Value)
  | list (name : Value) (items : List Attribute)
  | nameValue (name value : Value)
  deriving Inhabited, Repr

namespace Attribute

def name : Attribute → Value
  | word n | list n _ | nameValue n _ => n

mutual

/-- The attribute without the brackets around it. -/
def inner : Attribute → String
  | word n => n.plain
  | list n items => n.plain ++ "(" ++ String.intercalate ", " (inners items) ++ ")"
  | nameValue n v => n.plain ++ " = \"" ++ v.plain ++ "\""

def inners : List Attribute → List String
  | [] => []
  | a :: as => a.inner :: inners as

end

def text (a : Attribute) : String := "#[" ++ a.inner ++ "]"

mutual

/-- Whether the attribute can be written among the items of another one. A bare name is joined to its
neighbours as it is, so it has to be a text. -/
def isItem : Attribute → Bool
  | word n => n.isText
  | list _ items => areItems items
  | nameValue _ _ => true

def areItems : List Attribute → Bool
  | [] => true
  | a :: as => a.isItem && areItems as

end

/-- Whether the attribute can be written. Its own name may be any value. -/
def isPrintable : Attribute → Bool
  | list _ items => areItems items
  | word _ | nameValue _ _ => true

/-- The source of the attribute, if it has one. -/
def text? (a : Attribute) : Option String := if a.isPrintable then some a.text else none

example : (list (.text "repr") [word (.int 5)]).text? = none := by decide
example : (word (.int 5)).text? = some "#[5]" := by decide +kernel

/-- The attribute of one documentation line. -/
def ofDoc (line : Value) : Attribute := nameValue (.text "doc") line

/-- Whether the attribute is `#[no_mangle]`, which keeps a function's name in the library. -/
def isNoMangle : Attribute → Bool
  | word (.text n) => n == "no_mangle"
  | _ => false

/-- Whether the attribute is exactly `#[repr(C)]`. Any further item would be a layout constraint that
a header cannot state. -/
def isReprC : Attribute → Bool
  | list (.text n) [word (.text item)] => n == "repr" && item == "C"
  | _ => false

/-- The documentation line that the attribute carries, if any. -/
def docLine? (indent : String) : Attribute → Option String
  | nameValue (.text n) v =>
    if n == "doc" && !v.isNull then some (indent ++ v.plain ++ "\n") else none
  | _ => none

/-- Whether the name of the attribute is the given word. -/
def isNamed (word : String) (a : Attribute) : Bool :=
  match a.name with
  | .text n => n == word
  | _ => false

/-- What one pass over a list of attributes found. -/
structure Scan where
  passed : Bool
  text : String
  /-- The attributes that were tested: all up to the first that passed. -/
  asked : List Attribute

/-- Tests attributes until one passes, and joins what `retrieve` finds in all of them. -/
def scan (check : Attribute → Bool) (retrieve : Attribute → Option String) :
    List Attribute → Scan
  | [] => ⟨false, "", []⟩
  | a :: as =>
    let rest := scan check retrieve as
    let line := (retrieve a).getD ""
    if check a then ⟨true, line ++ rest.text, [a]⟩
    else ⟨rest.passed, line ++ rest.text, a :: rest.asked⟩

theorem scan_text (check : Attribute → Bool) (retrieve : Attribute → Option String)
    (as : List Attribute) :
    (scan check retrieve as).text = as.foldr (fun a t => (retrieve a).getD "" ++ t) "" := by
  induction as with
  | nil => rfl
  | cons a as ih => by_cases h : check a <;> simp [scan, h, ih]

def hasStableLinkage (as : List Attribute) : Bool := as.any isNoMangle

def hasCLayout (as : List Attribute) : Bool := as.any isReprC

/-- The documentation lines of the attributes, in order. -/
def docs (indent : String) (as : List Attribute) : String :=
  (scan (fun _ => true) (docLine? indent) as).text

end Attribute

end FfiHeaders
