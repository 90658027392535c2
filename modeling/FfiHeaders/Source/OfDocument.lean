import FfiHeaders.Failure

/-!
# Declarations from documents

How a document describes types, attributes, members, declarations and modules. Reading is lenient:
what a declaration keeps as a plain value is not checked, and where a sequence is due a text stands
for its characters and an object for its keys. The order of the steps decides which of two faults is
reported.
-/
namespace FfiHeaders

abbrev Members := List (String × Value)

namespace Source

def missing (what key : String) (members : Members) : Failure :=
  .document (.missingKey what key (.object members))

/-- The value of a key that must be there. -/
def require (members : Members) (key what : String) : Except Failure Value :=
  match Value.find? members key with
  | some v => .ok v
  | none => .error (missing what key members)

/-- The values of a sequence. -/
def elements : Value → Except Failure (List Value)
  | .list vs => .ok vs
  | .text s => .ok (s.toList.map fun c => .text (String.singleton c))
  | .object ms => .ok (ms.map fun m => .text m.1)
  | _ => .error (.mismatch .operation)

/-- The values of a sequence that may be left out. -/
def elementsAt (members : Members) (key : String) : Except Failure (List Value) :=
  elements (Value.getD members key (.list []))

/-- The parts of a path between its double colons. -/
def splitPath : List Char → List (List Char)
  | [] => [[]]
  | ':' :: ':' :: cs => [] :: splitPath cs
  | c :: cs =>
    match splitPath cs with
    | [] => [[c]]
    | s :: ss => (c :: s) :: ss

/-- The type that a text describes: unit, never, or a path. -/
def typeOfWord (s : String) : TypeExpr :=
  if s = "()" then .unit
  else if s = "!" then .never
  else .path ((splitPath s.toList).map fun cs => .text (String.ofList cs)) []

def typeOfChar (c : Char) : TypeExpr := typeOfWord (String.singleton c)

mutual

/-- The type that a value describes. -/
def typeOf : Value → Except Failure TypeExpr
  | .text s => .ok (typeOfWord s)
  | .object ms => do
    match ← require ms "kind" "type" with
    | .text "path" =>
      let segments ← elements (← require ms "segments" "path type")
      return .path segments (← typesAt "generic_args" ms)
    | .text "ptr" =>
      let target ← typeAt "inner" "pointer type" ms ms
      return .pointer (Value.getD ms "mutable" (.bool false)).isTrue target
    | .text "array" =>
      let element ← typeAt "element" "array type" ms ms
      return .array element (← require ms "length" "array type")
    | .text "fn" =>
      let params ← paramsAt "params" ms
      let output ← outputAt "output" ms
      return .function params output (← elementsAt ms "lifetimes")
    | .text "tuple" => return .tuple (← typesAt "elements" ms)
    | .text "never" => return .never
    | .text "ref" =>
      let target ← typeAt "inner" "reference type" ms ms
      return .reference (Value.getD ms "mutable" (.bool false)).isTrue
        (Value.getD ms "lifetime" .null) target
    | .text "slice" => return .slice (← typeAt "element" "slice type" ms ms)
    | kind => .error (.document (.unknownType kind))
  | v => .error (.document (.noType v))

/-- The type under `key`, which must be there; `whole` is the object that is asked. -/
def typeAt (key what : String) (whole : Members) : Members → Except Failure TypeExpr
  | [] => .error (missing what key whole)
  | (k, v) :: ms => if k = key then typeOf v else typeAt key what whole ms

/-- The types under `key`, none if it is absent. -/
def typesAt (key : String) : Members → Except Failure (List TypeExpr)
  | [] => .ok []
  | (k, v) :: ms => if k = key then typesOf v else typesAt key ms

def typesOf : Value → Except Failure (List TypeExpr)
  | .list vs => typeList vs
  | .text s => .ok (s.toList.map typeOfChar)
  | .object ms => .ok (ms.map fun m => typeOfWord m.1)
  | _ => .error (.mismatch .operation)

def typeList : List Value → Except Failure (List TypeExpr)
  | [] => .ok []
  | v :: vs => do
    let t ← typeOf v
    return t :: (← typeList vs)

/-- The output type under `key`, where null is as good as no key. -/
def outputAt (key : String) : Members → Except Failure (Option TypeExpr)
  | [] => .ok none
  | (k, v) :: ms =>
    if k = key then
      if v.isNull then .ok none else some <$> typeOf v
    else outputAt key ms

def paramsAt (key : String) : Members → Except Failure (List Param)
  | [] => .ok []
  | (k, v) :: ms => if k = key then paramsOf v else paramsAt key ms

def paramsOf : Value → Except Failure (List Param)
  | .list vs => paramList vs
  | .text s => if s.isEmpty then .ok [] else .error (.mismatch .part)
  | .object ms => if ms.isEmpty then .ok [] else .error (.mismatch .part)
  | _ => .error (.mismatch .operation)

def paramList : List Value → Except Failure (List Param)
  | [] => .ok []
  | v :: vs => do
    let p ← paramOf v
    return p :: (← paramList vs)

/-- The parameter that a value describes. Its pattern may also be called its name. -/
def paramOf : Value → Except Failure Param
  | .object ms => do
    let t ← typeAt "type" "parameter" ms ms
    return .mk (Value.getD ms "pattern" (Value.getD ms "name" (.text ""))) t
  | _ => .error (.mismatch .part)

end

mutual

/-- The attribute that a value describes: a bare word, or an object with items or a value. -/
def attributeOf : Value → Except Failure Attribute
  | .text s => .ok (.word (.text s))
  | .object ms => do
    let name ← require ms "name" "attribute"
    match attributesAt? "items" ms with
    | some items => return .list name (← items)
    | none =>
      match Value.find? ms "value" with
      | some v => return .nameValue name v
      | none => return .word name
  | v => .error (.document (.noAttribute v))

/-- The attributes under `key`, if it is there. -/
def attributesAt? (key : String) : Members → Option (Except Failure (List Attribute))
  | [] => none
  | (k, v) :: ms => if k = key then some (attributesOf v) else attributesAt? key ms

def attributesOf : Value → Except Failure (List Attribute)
  | .list vs => attributeList vs
  | .text s => .ok (s.toList.map fun c => .word (.text (String.singleton c)))
  | .object ms => .ok (ms.map fun m => .word (.text m.1))
  | _ => .error (.mismatch .operation)

def attributeList : List Value → Except Failure (List Attribute)
  | [] => .ok []
  | v :: vs => do
    let a ← attributeOf v
    return a :: (← attributeList vs)

end

/-- The attributes of a declaration, field or variant, documentation lines last. -/
def attributes (members : Members) : Except Failure (List Attribute) := do
  let attrs ← (attributesAt? "attrs" members).getD (.ok [])
  let docs ← elementsAt members "docs"
  return attrs ++ docs.map Attribute.ofDoc

/-- Whether `part` stands somewhere in the text. -/
def hasPart (part : List Char) : List Char → Bool
  | [] => part.isEmpty
  | c :: cs => part.isPrefixOf (c :: cs) || hasPart part cs

/-- The location that a value describes. A text or list lacks the file unless it happens to contain
that very word, which then is no key to look up. -/
def spanOf : Value → Except Failure (Option Span)
  | .null => .ok none
  | .object ms => do
    let file ← require ms "file" "span"
    let line ← require ms "line" "span"
    return some ⟨file, line, Value.getD ms "column" .null⟩
  | .text s =>
    if hasPart "file".toList s.toList then .error (.mismatch .operation)
    else .error (.document (.missingKey "span" "file" (.text s)))
  | .list vs =>
    if vs.any fun v => match v with | .text s => s == "file" | _ => false then
      .error (.mismatch .operation)
    else .error (.document (.missingKey "span" "file" (.list vs)))
  | _ => .error (.mismatch .operation)

def spanAt (members : Members) : Except Failure (Option Span) :=
  spanOf (Value.getD members "span" .null)

def fieldOf : Value → Except Failure Field
  | .object ms => do
    let type ← typeAt "type" "field" ms ms
    let attrs ← attributes ms
    let span ← spanAt ms
    return ⟨Value.getD ms "name" .null, type, attrs, span⟩
  | _ => .error (.mismatch .part)

def fieldsAt (members : Members) : Except Failure (List Field) := do
  (← elementsAt members "fields").mapM fieldOf

def variantOf : Value → Except Failure Variant
  | .object ms => do
    let name ← require ms "name" "variant"
    let fields ← fieldsAt ms
    let attrs ← attributes ms
    let span ← spanAt ms
    let discriminant := Value.getD ms "discriminant" .null
    return ⟨name, fields, attrs, if discriminant.isNull then none else some discriminant.plain, span⟩
  | _ => .error (.mismatch .part)

/-- The kind of a struct whose document leaves it out: the fields tell. -/
def structKind (fields : List Field) : String :=
  if !fields.isEmpty && fields.all Field.isPositional then "tuple" else "named"

def bodyOf (kind : Value) (members : Members) : Except Failure Body :=
  match kind with
  | .text "type" => .typeAlias <$> typeAt "type" "type alias" members members
  | .text "enum" => do
    return .enum (← (← elementsAt members "variants").mapM variantOf)
  | .text "struct" => do
    let fields ← fieldsAt members
    return .struct (Value.getD members "struct_kind" (.text (structKind fields))) fields
  | .text "function" => do
    let params ← paramsAt "params" members
    let output ← outputAt "output" members
    return .function (Value.getD members "abi" (.text "Rust")) params output
  | _ => .error (.document (.unknownItem kind))

/-- The declaration of the given kind that the members describe. -/
def declarationOf (kind : Value) (members : Members) : Except Failure Declaration := do
  let name ← require members "name" (kind.plain ++ " item")
  let attrs ← attributes members
  let generics ← elementsAt members "generics"
  let span ← spanAt members
  let body ← bodyOf kind members
  return ⟨name, attrs, generics, (Value.getD members "public" (.bool true)).isTrue, span, body⟩

mutual

/-- The declaration or module that a value describes. -/
def itemOf : Value → Except Failure Item
  | .object ms => do
    match ← require ms "kind" "item" with
    | .text "module" =>
      let name ← require ms "name" "module"
      return .module name (← itemsAt "items" ms)
    | kind => return .declaration (← declarationOf kind ms)
  | v => .error (.document (.noItem v))

def itemsAt (key : String) : Members → Except Failure (List Item)
  | [] => .ok []
  | (k, v) :: ms => if k = key then itemsOf v else itemsAt key ms

/-- The items of a sequence. A character or key describes none. -/
def itemsOf : Value → Except Failure (List Item)
  | .list vs => itemList vs
  | .text s =>
    match s.toList with
    | [] => .ok []
    | c :: _ => .error (.document (.noItem (.text (String.singleton c))))
  | .object [] => .ok []
  | .object (m :: _) => .error (.document (.noItem (.text m.1)))
  | _ => .error (.mismatch .operation)

def itemList : List Value → Except Failure (List Item)
  | [] => .ok []
  | v :: vs => do
    let i ← itemOf v
    return i :: (← itemList vs)

end

/-- The module that a value describes. -/
def moduleOf : Value → Except Failure Module
  | .object ms => do
    let name ← require ms "name" "module"
    return ⟨name, ← itemsAt "items" ms⟩
  | v => .error (.document (.noModule v))

/-- The module that a text describes. -/
def readModule (s : String) : Except Failure Module :=
  match Document.read s with
  | .ok v => moduleOf v
  | .error m => .error (.malformed m)

end Source

end FfiHeaders
