import FfiHeaders.CType.OfSource

/-!
# Declarations as C text

`Declaration.render` writes a declaration in C. The user types that it mentions are recorded on the
way, and what was recorded before a failure is kept.
-/
namespace FfiHeaders

/-- A result with the symbols that were mentioned on the way to it. -/
structure Mentioning (α : Type) where
  mentions : List Symbol
  result : Except Failure α

namespace Mentioning

def ofResult {α : Type} (r : Except Failure α) : Mentioning α := ⟨[], r⟩

def andThen {α β : Type} (a : Mentioning α) (f : α → Mentioning β) : Mentioning β :=
  match a.result with
  | .ok x => ⟨a.mentions ++ (f x).mentions, (f x).result⟩
  | .error e => ⟨a.mentions, .error e⟩

instance : Monad Mentioning where
  pure x := ofResult (.ok x)
  bind := andThen

@[simp] theorem mentions_pure {α : Type} (x : α) : (pure x : Mentioning α).mentions = [] := rfl

@[simp] theorem result_pure {α : Type} (x : α) : (pure x : Mentioning α).result = .ok x := rfl

theorem bind_of_ok {α β : Type} {a : Mentioning α} {x : α} (h : a.result = .ok x)
    (f : α → Mentioning β) :
    (a >>= f) = ⟨a.mentions ++ (f x).mentions, (f x).result⟩ := by
  show andThen a f = _
  rw [andThen, h]

theorem bind_of_error {α β : Type} {a : Mentioning α} {e : Failure} (h : a.result = .error e)
    (f : α → Mentioning β) : (a >>= f) = ⟨a.mentions, .error e⟩ := by
  show andThen a f = _
  rw [andThen, h]

end Mentioning

/-- Indentation of fields and variants. -/
def indent : String := "\t"

/-- The text that a name declares: nothing for null and other empty values. -/
def Value.declared (v : Value) : String := if v.isTrue then v.plain else ""

theorem Value.declared_text (s : String) : (Value.text s).declared = s := by
  by_cases h : s = "" <;> simp [declared, isTrue, h]

namespace TypeExpr

/-- The text that `name` gives a declarator of this type. -/
def nameFor (t : TypeExpr) (name : Value) : String :=
  if t.isFunction then name.plain else name.declared

theorem nameFor_text (t : TypeExpr) (s : String) : t.nameFor (.text s) = s := by
  simp [nameFor, Value.declared_text]

/-- The written declarator of a type. A type that cannot be expressed is rejected at `span`. -/
def render (t : TypeExpr) (name : String) (span : Option Span) : Mentioning String :=
  match t.declare name with
  | .error f => ⟨[], .error (f.atSpan span)⟩
  | .ok d =>
    ⟨d.mentions, match d.text? with
      | some s => .ok s
      | none => .error (.mismatch .operation)⟩

end TypeExpr

/-- The line of an enum's constant: its name is that of the enum and its own. -/
def Variant.render (enum : Value) (v : Variant) : String :=
  Attribute.docs indent v.attrs ++ indent ++ enum.plain ++ "_" ++ v.name.plain ++
    (v.discriminant.map (" = " ++ ·)).getD "" ++ ",\n"

/-- The line of a struct's field. -/
def Field.render (f : Field) (span : Option Span) : Mentioning String := do
  if f.isPositional then
    .ofResult (.error (.rejected .positionalField (f.span.or span)))
  else
    let text ← f.type.render (f.type.nameFor f.name) span
    return Attribute.docs indent f.attrs ++ indent ++ text ++ ";\n"

def Field.renderAll (span : Option Span) : List Field → Mentioning String
  | [] => pure ""
  | f :: fs => do
    let line ← f.render span
    return line ++ (← renderAll span fs)

/-- The written declarator of a function's parameter. -/
def Param.render (function : String) (span : Option Span) (p : Param) : Mentioning String := do
  let name ← .ofResult ((Param.boundName p.pattern function).mapError (·.atSpan span))
  p.type.render name span

def Param.renderAll (function : String) (span : Option Span) :
    List Param → Mentioning (List String)
  | [] => pure []
  | p :: ps => do
    let arg ← p.render function span
    return arg :: (← renderAll function span ps)

/-- The prototype of a function with the given head. The head stands inside the declarator of the
output, which matters when that is a function pointer. -/
def renderPrototype (head : String) (span : Option Span) : Option TypeExpr → Mentioning String
  | none => pure ("void " ++ head)
  | some .never => .ofResult (.error (.rejected .neverReturns span))
  | some t => t.render head span

namespace Declaration

/-- The lines between the braces of a struct with named fields, or nothing for an opaque one. -/
def renderStructBody (kind : Value) (fields : List Field) (span : Option Span) :
    Mentioning String :=
  match kind, fields with
  | .text "named", fields => do return " \x7b\n" ++ (← Field.renderAll span fields) ++ "\x7d"
  | .text "tuple", [_] => pure ""
  | _, _ => .ofResult (.error (.rejected .structShape span))

/-- The declaration in C, after its documentation lines. -/
def render (d : Declaration) : Mentioning String := do
  let docs := Attribute.docs "" d.attrs
  let name := d.name.plain
  match d.body with
  | .typeAlias t =>
    return docs ++ "typedef " ++ (← t.render (t.nameFor d.name) d.span) ++ ";\n\n"
  | .enum variants =>
    return docs ++ "typedef enum " ++ name ++ " \x7b\n" ++
      String.join (variants.map (Variant.render d.name)) ++ "\x7d " ++ name ++ ";\n\n"
  | .struct kind fields =>
    let body ← renderStructBody kind fields d.span
    return docs ++ "typedef struct " ++ name ++ body ++ " " ++ name ++ ";\n\n"
  | .function _ params output =>
    let args ← Param.renderAll name d.span params
    let head := name ++ "(" ++
      (if args.isEmpty then "void" else String.intercalate ", " args) ++ ")"
    return docs ++ (← renderPrototype head d.span output) ++ ";\n\n"

end Declaration

end FfiHeaders
