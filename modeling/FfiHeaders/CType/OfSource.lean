import FfiHeaders.CType.Basic
import FfiHeaders.CType.Binding

/-!
# C types of source types

`TypeExpr.declare` gives the C type of a source type together with the name it declares. A function
pointer needs that name inside itself, so `TypeExpr.anonymous`, which gives a type alone, refuses it.
-/
namespace FfiHeaders

/-- Fixed-width and other C names of the primitive types. -/
def primitiveTypes : List (String × String) :=
  [("f32", "float"), ("f64", "double"), ("i8", "int8_t"), ("i16", "int16_t"), ("i32", "int32_t"),
   ("i64", "int64_t"), ("isize", "intptr_t"), ("u8", "uint8_t"), ("u16", "uint16_t"),
   ("u32", "uint32_t"), ("u64", "uint64_t"), ("usize", "uintptr_t"), ("bool", "bool")]

/-- The types that stand for those of the platform's C. `c_void` is apart, since it is no data type. -/
def platformTypes : List (String × String) :=
  [("c_char", "char"), ("c_schar", "signed char"), ("c_uchar", "unsigned char"),
   ("c_short", "short"), ("c_ushort", "unsigned short"), ("c_int", "int"),
   ("c_uint", "unsigned int"), ("c_long", "long"), ("c_ulong", "unsigned long"),
   ("c_longlong", "long long"), ("c_ulonglong", "unsigned long long"), ("c_float", "float"),
   ("c_double", "double")]

/-- The modules that export the platform types. -/
def platformModules : List String := ["libc", "std::os::raw"]

/-- The C type of a name in a platform module: any unknown one is a user type. -/
def CType.ofPlatform (s : Symbol) : CType :=
  match s with
  | .word "c_void" => .void
  | .word n =>
    match platformTypes.lookup n with
    | some c => .native c
    | none => .user s
  | _ => .user s

/-- The C type of an unqualified name. -/
def CType.ofName (s : Symbol) : CType :=
  match s with
  | .word "()" => .void
  | .word n =>
    match primitiveTypes.lookup n with
    | some c => .native c
    | none => .ofPlatform s
  | _ => .ofPlatform s

namespace TypeExpr

/-- The rejection of a type that is shown in its message. -/
def refuse {α : Type} (t : TypeExpr) (cause : TypeExpr → Cause) : Except Failure α :=
  .error (if t.isPrintable then .reject (cause t) else .mismatch .operation)

/-- A path segment as a key of the type tables. -/
def symbol (segment : Value) : Except Failure Symbol :=
  match Symbol.ofValue? segment with
  | some s => .ok s
  | none => .error (.mismatch .operation)

/-- The C type of a path with the given segments. -/
def ofPath (segments : List Value) (generics : List TypeExpr) : Except Failure CType :=
  match segments.getLast? with
  | none => .error (.reject .emptyPath)
  | some last =>
    if !generics.isEmpty then (path segments generics).refuse .inexpressible
    else if segments.length = 1 then CType.ofName <$> symbol last
    else
      match Value.texts? segments.dropLast with
      | none => .error (.mismatch .operation)
      | some ms =>
        if platformModules.contains (String.intercalate "::" ms) then CType.ofPlatform <$> symbol last
        else (path segments generics).refuse .foreignModule

/-- The C type of a type that needs no name. An array decays to a pointer to constants. -/
def anonymous : TypeExpr → Except Failure CType
  | path segments generics => ofPath segments generics
  | pointer isMutable t => CType.pointer (if isMutable then .mutable else .const) <$> t.anonymous
  | array t _ => CType.pointer .const <$> t.anonymous
  | function params output lifetimes =>
    (function params output lifetimes).refuse .anonymousFunction
  | tuple [] => .ok .void
  | never => .error (.reject .neverReturns)
  | t => t.refuse .inexpressible

/-- The C type of what a function returns. -/
def result : Option TypeExpr → Except Failure CType
  | none => .ok .void
  | some t => t.anonymous

mutual

/-- The C type of a type with the name that it declares. -/
def declare : TypeExpr → String → Except Failure Declarator
  | function params output lifetimes, name => do
    let whole := function params output lifetimes
    if !lifetimes.isEmpty then whole.refuse .lifetimes
    else
      let args ← declareArgs whole.isPrintable whole.text params
      return .mk "" (.function name args (← result output))
  | t, name => .mk name <$> t.anonymous

/-- The arguments of a function pointer, whose source is `text` if it has one. -/
def declareArgs (isPrintable : Bool) (text : String) : List Param → Except Failure (List Declarator)
  | [] => .ok []
  | p :: ps => do
    let arg ← declareArg isPrintable text p
    return arg :: (← declareArgs isPrintable text ps)

def declareArg (isPrintable : Bool) (text : String) : Param → Except Failure Declarator
  | .mk pattern t => do
    if isPrintable then
      let name ← Param.pointerBoundName pattern text
      t.declare name
    else throw (.mismatch .operation)

end

end TypeExpr

end FfiHeaders
