import FfiHeaders.Header.Path
import FfiHeaders.Header.Rendering
import FfiHeaders.Header.State

/-!
# Emission of declarations

A declaration that the library does not export is skipped. An exported one is written to the header
of its module, or rejected if C cannot express it. `State.emit` always gives a state: what a rejected
declaration mentioned before its fault was found stays recorded.
-/
namespace FfiHeaders

/-- Why a declaration is not exported. -/
inductive Skip
  | genericAlias
  /-- Its layout is not that of C. -/
  | layout
  /-- Its name is not kept in the library. -/
  | linkage
  /-- C cannot call it. -/
  | abi (abi : Value)

inductive Outcome
  /-- Written to the header at this path. -/
  | emitted (header : String)
  | skipped (reason : Skip)

/-- Calling conventions that C can use. -/
def callableAbis : List String := ["C", "cdecl", "stdcall", "fastcall", "system"]

namespace Declaration

/-- The reason to skip a declaration, if there is one. A calling convention that is no symbol cannot
even be looked up. -/
def skip? (d : Declaration) : Except Failure (Option Skip) :=
  match d.body with
  | .typeAlias _ => .ok (if d.generics.isEmpty then none else some .genericAlias)
  | .enum _ | .struct _ _ =>
    .ok (if Attribute.hasCLayout d.attrs then none else some .layout)
  | .function abi _ _ =>
    if Attribute.hasStableLinkage d.attrs then
      match Symbol.ofValue? abi with
      | none => .error (.mismatch .operation)
      | some (.word a) => .ok (if callableAbis.contains a then none else some (.abi abi))
      | some _ => .ok (some (.abi abi))
    else .ok (some .linkage)

/-- The first fault of an exported declaration that is found before its types are looked at. -/
def check (d : Declaration) : Except Failure Unit :=
  let concrete (cause : Cause) : Except Failure Unit :=
    if d.generics.isEmpty then .ok () else .error (.rejected cause d.span)
  match d.body with
  | .typeAlias _ => .ok ()
  | .enum variants => do
    concrete .genericEnum
    match variants.find? fun v => !v.isUnit with
    | some v => .error (.rejected .payload (v.span.or d.span))
    | none => .ok ()
  | .struct _ _ => concrete .genericStruct
  | .function _ _ _ => concrete .genericFunction

/-- Whether the declaration introduces a type name. -/
def declaresType (d : Declaration) : Bool := d.body.kind != .function

end Declaration

namespace State

/-- Writes an exported declaration to the header `h`. -/
def write (s : State) (h : String) (d : Declaration) : State × Except Failure Outcome :=
  let r := d.render
  let s := s.addMentions h r.mentions
  match r.result with
  | .error f => (s, .error f)
  | .ok text =>
    let s := s.append h text
    if d.declaresType then
      match Symbol.ofValue? d.name with
      | some n => (s.declare n h, .ok (.emitted h))
      | none => (s, .error (.mismatch .operation))
    else (s, .ok (.emitted h))

/-- Emits a declaration of a module. -/
def emit (s : State) (module : List Value) (d : Declaration) : State × Except Failure Outcome :=
  match d.skip? with
  | .error f => (s, .error f)
  | .ok (some reason) => (s, .ok (.skipped reason))
  | .ok none =>
    match d.check with
    | .error f => (s, .error f)
    | .ok () =>
      match Header.ofModule s.libName module with
      | .error f => (s, .error f)
      | .ok h => s.write h d

/-- Emits an item of a module, which has to be a declaration. -/
def emitItem (s : State) (module : List Value) : Item → State × Except Failure Outcome
  | .declaration d => s.emit module d
  | .module _ _ => (s, .error (.reject .moduleItem))

/-- Emits an item that is taken for a declaration of the given kind. -/
def emitAs (k : Kind) (s : State) (module : List Value) : Item → State × Except Failure Outcome
  | .declaration d =>
    if d.body.kind = k then s.emit module d else (s, .error (.rejected (.otherKind k) d.span))
  | .module _ _ => (s, .error (.mismatch .part))

theorem emit_of_skip {s : State} {module : List Value} {d : Declaration} {r : Skip}
    (h : d.skip? = .ok (some r)) : s.emit module d = (s, .ok (.skipped r)) := by
  simp [emit, h]

theorem emit_eq_write {s : State} {module : List Value} {d : Declaration} {h : String}
    (hs : d.skip? = .ok none) (hc : d.check = .ok ())
    (hh : Header.ofModule s.libName module = .ok h) : s.emit module d = s.write h d := by
  simp [emit, hs, hc, hh]

end State

end FfiHeaders
