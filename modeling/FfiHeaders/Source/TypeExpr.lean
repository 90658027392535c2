import FfiHeaders.Document.Value

/-!
# Type expressions of the source language

`TypeExpr.text` writes a type back as source. A segment of a path and a lifetime of a function pointer
can be written only if they are words: `TypeExpr.isPrintable` says so for a whole type.
-/
namespace FfiHeaders

mutual

inductive TypeExpr
  /-- A named type, possibly qualified by modules. -/
  | path (segments : List Value) (generics : List TypeExpr)
  | pointer (isMutable : Bool) (target : TypeExpr)
  | array (element : TypeExpr) (length : Value)
  /-- A function pointer; without an output it returns the unit type. -/
  | function (params : List Param) (output : Option TypeExpr) (lifetimes : List Value)
  | tuple (elements : List TypeExpr)
  /-- The type of what never returns. -/
  | never
  /-- A reference; its lifetime is null where none is written. -/
  | reference (isMutable : Bool) (lifetime : Value) (target : TypeExpr)
  | slice (element : TypeExpr)
  deriving Inhabited, Repr

/-- A parameter: the source text of its binding pattern and its type. -/
inductive Param
  | mk (pattern : Value) (type : TypeExpr)
  deriving Inhabited, Repr

end

namespace Param

def pattern : Param → Value
  | mk p _ => p

def type : Param → TypeExpr
  | mk _ t => t

end Param

namespace TypeExpr

/-- The type with a single unqualified name. -/
def named (name : String) : TypeExpr := path [.text name] []

def unit : TypeExpr := tuple []

def isUnit : TypeExpr → Bool
  | tuple [] => true
  | _ => false

def isFunction : TypeExpr → Bool
  | function .. => true
  | _ => false

/-- The values joined by `separator`. -/
def joinValues (separator : String) (vs : List Value) : String :=
  String.intercalate separator (vs.map Value.plain)

mutual

def text : TypeExpr → String
  | path segments generics =>
    let base := joinValues "::" segments
    if generics.isEmpty then base
    else base ++ "<" ++ String.intercalate ", " (texts generics) ++ ">"
  | pointer isMutable t => (if isMutable then "*mut " else "*const ") ++ t.text
  | array t length => "[" ++ t.text ++ "; " ++ length.plain ++ "]"
  | function params output lifetimes =>
    let binder := if lifetimes.isEmpty then "" else "for<" ++ joinValues ", " lifetimes ++ "> "
    binder ++ "fn(" ++ String.intercalate ", " (paramTexts params) ++ ")" ++ outputText output
  | tuple [t] => "(" ++ t.text ++ ",)"
  | tuple ts => "(" ++ String.intercalate ", " (texts ts) ++ ")"
  | never => "!"
  | reference isMutable lifetime t =>
    "&" ++ (if lifetime.isTrue then lifetime.plain ++ " " else "") ++
      (if isMutable then "mut " else "") ++ t.text
  | slice t => "[" ++ t.text ++ "]"

def texts : List TypeExpr → List String
  | [] => []
  | t :: ts => t.text :: texts ts

def paramText : Param → String
  | .mk pattern t => if pattern.isTrue then pattern.plain ++ ": " ++ t.text else t.text

def paramTexts : List Param → List String
  | [] => []
  | p :: ps => paramText p :: paramTexts ps

def outputText : Option TypeExpr → String
  | none => ""
  | some t => " -> " ++ t.text

end

mutual

def isPrintable : TypeExpr → Bool
  | path segments generics => segments.all Value.isText && arePrintable generics
  | function params output lifetimes =>
    lifetimes.all Value.isText && areParamsPrintable params && isOutputPrintable output
  | tuple ts => arePrintable ts
  | never => true
  | pointer _ t | array t _ | reference _ _ t | slice t => t.isPrintable

def arePrintable : List TypeExpr → Bool
  | [] => true
  | t :: ts => t.isPrintable && arePrintable ts

def isParamPrintable : Param → Bool
  | .mk _ t => t.isPrintable

def areParamsPrintable : List Param → Bool
  | [] => true
  | p :: ps => isParamPrintable p && areParamsPrintable ps

def isOutputPrintable : Option TypeExpr → Bool
  | none => true
  | some t => t.isPrintable

end

end TypeExpr

end FfiHeaders
