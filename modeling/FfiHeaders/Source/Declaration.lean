import FfiHeaders.Source.Attribute
import FfiHeaders.Source.Span
import FfiHeaders.Source.TypeExpr

/-!
# Declarations and modules

A declaration is what all kinds have in common, around the body of one kind. `Declaration.text?` and
its companions write the first line of a declaration as source; they fail where a part that has to be
joined to others is no text.
-/
namespace FfiHeaders

/-- A field of a struct or variant; the name of a positional one is null. -/
structure Field where
  name : Value
  type : TypeExpr
  attrs : List Attribute
  span : Option Span
  deriving Inhabited, Repr

/-- A variant of an enum. Its discriminant is source text. -/
structure Variant where
  name : Value
  fields : List Field
  attrs : List Attribute
  discriminant : Option String
  span : Option Span
  deriving Inhabited, Repr

inductive Body
  | typeAlias (type : TypeExpr)
  | enum (variants : List Variant)
  | struct (kind : Value) (fields : List Field)
  | function (abi : Value) (params : List Param) (output : Option TypeExpr)
  deriving Inhabited, Repr

/-- The kinds of declaration. -/
inductive Kind
  | typeAlias
  | enum
  | struct
  | function
  deriving DecidableEq, Repr

def Body.kind : Body → Kind
  | typeAlias _ => .typeAlias
  | enum _ => .enum
  | struct _ _ => .struct
  | function _ _ _ => .function

structure Declaration where
  name : Value
  attrs : List Attribute
  generics : List Value
  isPublic : Bool
  span : Option Span
  body : Body
  deriving Inhabited, Repr

/-- What a module holds: declarations and nested modules, in source order. -/
inductive Item
  | declaration (d : Declaration)
  | module (name : Value) (items : List Item)
  deriving Inhabited, Repr

structure Module where
  name : Value
  items : List Item
  deriving Inhabited, Repr

def Variant.isUnit (v : Variant) : Bool := v.fields.isEmpty

def Field.isPositional (f : Field) : Bool := f.name.isNull

def Field.text (f : Field) : String :=
  if f.isPositional then f.type.text else f.name.plain ++ ": " ++ f.type.text

/-- The source of a field, if it has one. -/
def Field.text? (f : Field) : Option String :=
  if f.type.isPrintable then some f.text else none

def Param.text? (p : Param) : Option String :=
  if TypeExpr.isParamPrintable p then some (TypeExpr.paramText p) else none

def Variant.fieldsText (v : Variant) : String :=
  let fields := String.intercalate ", " (v.fields.map Field.text)
  if v.fields.isEmpty then ""
  else if v.fields.all Field.isPositional then "(" ++ fields ++ ")"
  else " \x7b " ++ fields ++ " \x7d"

/-- The source of a variant, if its name is a word and its fields have a source. -/
def Variant.text? (v : Variant) : Option String :=
  if v.name.isText && v.fields.all (·.type.isPrintable) then
    some (v.name.plain ++ v.fieldsText ++ (v.discriminant.map (" = " ++ ·)).getD "")
  else none

def genericsText (generics : List Value) : String :=
  if generics.isEmpty then "" else "<" ++ TypeExpr.joinValues ", " generics ++ ">"

namespace Declaration

/-- The source of the declaration, as it reads when every part of it is printable. -/
def text (d : Declaration) : String :=
  let title := d.name.plain ++ genericsText d.generics
  match d.body with
  | .typeAlias t => "type " ++ title ++ " = " ++ t.text
  | .enum _ => "enum " ++ title
  | .struct _ _ => "struct " ++ title
  | .function abi params output =>
    (match abi with
      | .text "Rust" => ""
      | abi => "extern \"" ++ abi.plain ++ "\" ") ++
    "fn " ++ title ++ "(" ++ String.intercalate ", " (TypeExpr.paramTexts params) ++ ")" ++
      TypeExpr.outputText output

def isPrintable (d : Declaration) : Bool :=
  d.generics.all Value.isText &&
    match d.body with
    | .typeAlias t => t.isPrintable
    | .enum _ | .struct _ _ => true
    | .function _ params output =>
      TypeExpr.areParamsPrintable params && TypeExpr.isOutputPrintable output

/-- The source of the declaration, if it has one. -/
def text? (d : Declaration) : Option String :=
  if d.isPrintable then some d.text else none

end Declaration

/-- A module is shown by its name and its number of items. -/
def Module.text (m : Module) : String :=
  "Module(" ++ m.name.plain ++ ", " ++ toString m.items.length ++ " items)"

def Item.text? : Item → Option String
  | declaration d => d.text?
  | module name items => some (Module.text ⟨name, items⟩)

end FfiHeaders
