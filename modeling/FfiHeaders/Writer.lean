import FfiHeaders.Header.Bundle
import FfiHeaders.Header.Emission

/-!
# Writing the headers of a library

A `Writer` is a run that is open: its state and the C code that opens the aggregate header. Feeding it
a module emits the public declarations in source order and stops at the first failure. `Event` records
what happened on the way.
-/
namespace FfiHeaders

/-- What a walk through a module meets. -/
inductive Visit
  | declaration (path : List Value) (d : Declaration)
  /-- A declaration that is not public. -/
  | hidden (path : List Value) (name : Value)

mutual

/-- The declarations of an item below the module `path`, in source order. -/
def Item.visits (path : List Value) : Item → List Visit
  | .declaration d => if d.isPublic then [.declaration path d] else [.hidden path d.name]
  | .module name items => visitsOf (path ++ [name]) items

def visitsOf (path : List Value) : List Item → List Visit
  | [] => []
  | i :: is => i.visits path ++ visitsOf path is

end

/-- A walk through a whole module tree. -/
def Module.visits (m : Module) : List Visit := visitsOf [m.name] m.items

theorem visitsOf_append (path : List Value) (xs ys : List Item) :
    visitsOf path (xs ++ ys) = visitsOf path xs ++ visitsOf path ys := by
  induction xs with
  | nil => rfl
  | cons x xs ih => simp [visitsOf, ih]

/-- The public declarations of a module as source, each with the names of the modules around it. -/
def Module.listing (m : Module) : Except Failure (List (List Value × String)) := do
  let lines ← m.visits.mapM fun v =>
    match v with
    | .hidden path _ =>
      if path.all Value.isText then .ok none else .error (.mismatch .operation)
    | .declaration path d =>
      match d.text? with
      | some s => .ok (some (path, s))
      | none => .error (.mismatch .operation)
  return lines.filterMap id

inductive Event
  | hidden (name : Value) (path : List String)
  | skipped (d : Declaration) (reason : Skip)
  | declared (name : Value) (header : String)
  | ordered (headers : List String)
  | wrote (path : String)

/-- The line of an event in the log. -/
def Event.line : Event → String
  | hidden n p =>
    "DEBUG headergen.driver: skipping private item " ++ n.plain ++ " in " ++ String.intercalate "::" p
  | skipped d reason =>
    let n := d.name.plain
    "DEBUG headergen.emit: skipping " ++
      match reason with
      | .genericAlias => "generic type alias " ++ n
      | .layout =>
        (if d.body.kind = .enum then "enum " else "struct ") ++ n ++ ": not #[repr(C)]"
      | .linkage => "function " ++ n ++ ": not #[no_mangle]"
      | .abi a => "function " ++ n ++ ": " ++ a.plain ++ " ABI"
  | declared n h => "DEBUG headergen.emit: declared " ++ n.plain ++ " in " ++ h
  | ordered hs => "DEBUG headergen.assemble: include order: " ++ (Value.list (hs.map .text)).quoted
  | wrote p => "INFO headergen.driver: wrote " ++ p

/-- What the emission of a declaration leaves in the log. -/
def Declaration.events (d : Declaration) : Outcome → List Event
  | .skipped reason => [.skipped d reason]
  | .emitted h => if d.declaresType then [.declared d.name h] else []

/-- Where a run stands after some steps: its state, what happened, and the result of the steps. -/
structure Progress (α : Type) where
  state : State
  events : List Event
  result : Except Failure α

namespace State

/-- Takes one step of a walk. -/
def visit (s : State) : Visit → Progress Unit
  | .hidden path name =>
    match Value.texts? path with
    | some p => ⟨s, [.hidden name p], .ok ()⟩
    | none => ⟨s, [], .error (.mismatch .operation)⟩
  | .declaration path d =>
    match s.emit path d with
    | (s, .ok outcome) => ⟨s, d.events outcome, .ok ()⟩
    | (s, .error f) => ⟨s, [], .error f⟩

/-- Takes the steps of a walk up to the first failure. -/
def feed (s : State) : List Visit → Progress Unit
  | [] => ⟨s, [], .ok ()⟩
  | v :: vs =>
    let first := s.visit v
    match first.result with
    | .error f => ⟨first.state, first.events, .error f⟩
    | .ok () =>
      let rest := first.state.feed vs
      ⟨rest.state, first.events ++ rest.events, rest.result⟩

theorem feed_append_of_ok {s : State} {vs ws : List Visit} (h : (s.feed vs).result = .ok ()) :
    s.feed (vs ++ ws) =
      ⟨((s.feed vs).state.feed ws).state, (s.feed vs).events ++ ((s.feed vs).state.feed ws).events,
        ((s.feed vs).state.feed ws).result⟩ := by
  induction vs generalizing s with
  | nil => simp [feed]
  | cons v vs ih =>
    cases hv : (s.visit v).result with
    | error f => simp [feed, hv] at h
    | ok u =>
      simp only [feed, hv] at h
      simp [feed, hv, ih h]

theorem feed_append_of_error {s : State} {vs ws : List Visit} {f : Failure}
    (h : (s.feed vs).result = .error f) : s.feed (vs ++ ws) = s.feed vs := by
  induction vs generalizing s with
  | nil => simp [feed] at h
  | cons v vs ih =>
    cases hv : (s.visit v).result with
    | error e => simp [feed, hv]
    | ok u =>
      simp only [feed, hv] at h
      simp [feed, hv, ih h]

end State

structure Writer where
  state : State
  customCode : String

namespace Writer

/-- A fresh writer for the library `libName`. -/
def new (libName : Value) (customCode : String) : Writer := ⟨.initial libName, customCode⟩

/-- Name of the library when none is given. -/
def defaultLibName : String := "backend"

/-- Word for the target language of a writer. -/
def languageName : String := "c"

def formatDescription : String := "C headers"

/-- Renames the library, which is a bug once a declaration has been emitted. -/
def setLibName (w : Writer) (name : Value) : Writer × Except Failure Unit :=
  if w.state.outputs.isEmpty then ({ w with state := { w.state with libName := name } }, .ok ())
  else (w, .error (.reject .renamedLate))

/-- Adds C code at the top of the aggregate header, after the code that is there. -/
def addCustomCode (w : Writer) (code : String) : Writer :=
  { w with customCode := w.customCode ++ code }

/-- Runs a step on the state of the writer. -/
def step {α : Type} (w : Writer) (f : State → State × α) : Writer × α :=
  ({ w with state := (f w.state).1 }, (f w.state).2)

def emitItem (w : Writer) (module : List Value) (i : Item) : Writer × Except Failure Outcome :=
  w.step fun s => s.emitItem module i

def finalise (w : Writer) : Writer × Except Failure Bundle :=
  w.step fun s => s.finalise w.customCode

/-- Emits the public declarations of a module and, if asked to, finishes the run. A run that is left
open has no files yet. -/
def compile (w : Writer) (m : Module) (finish : Bool) : Progress (List (String × String)) :=
  let fed := w.state.feed m.visits
  match fed.result with
  | .error f => ⟨fed.state, fed.events, .error f⟩
  | .ok () =>
    if finish then
      match fed.state.finalise w.customCode with
      | (s, .ok b) => ⟨s, fed.events ++ [.ordered b.order], .ok b.files⟩
      | (s, .error f) => ⟨s, fed.events, .error f⟩
    else ⟨fed.state, fed.events, .ok []⟩

end Writer

end FfiHeaders
