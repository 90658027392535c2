import FfiHeaders.Header.IncludeGraph
import FfiHeaders.Header.Path
import FfiHeaders.Text.Blank

/-!
# The finished headers of a run

`State.finalise` turns what a run has accumulated into files: one header for each module with output,
and the aggregate header, which includes them all in the order of their needs. It uses up the state,
also when it fails.
-/
namespace FfiHeaders

/-- The files of a run, by path, with the order in which the aggregate header includes them. -/
structure Bundle where
  order : List String
  files : List (String × String)
  deriving DecidableEq, Repr

namespace State

/-- Looks for two headers with one guard. `seen` holds the guards met so far with their headers. -/
def sharedGuard? (seen : List (String × String)) : List String → Option Cause
  | [] => none
  | h :: hs =>
    let guard := Header.sanitise h
    match Table.lookup guard seen with
    | some first => some (.sharedGuard first h guard)
    | none => sharedGuard? ((guard, h) :: seen) hs

/-- Refuses headers that would share an include guard, the aggregate header included: the second one
would be empty. -/
def checkGuards (s : State) : Except Failure Unit :=
  let aggregate := (Header.sanitise (Header.aggregateId s.library), Header.aggregate s.library)
  match sharedGuard? [aggregate] (sortTexts s.outputs.keys) with
  | some cause => .error (.reject cause)
  | none => .ok ()

/-- The declarations of a module as a header. -/
def moduleHeader (header declarations : String) : String :=
  let body := String.ofList (Text.trimEnd declarations.toList)
  Header.wrapGuard (Header.standardIncludes ++ "\n" ++ Header.wrapExtern body) header

def includeLine (header : String) : String := "#include \"" ++ header ++ "\"\n"

/-- The header that includes all others, after the custom code. -/
def aggregateHeader (libName customCode : String) (order : List String) : String :=
  let custom := if customCode.isEmpty then "" else customCode ++ "\n"
  let lines := custom ++ String.join (order.map includeLine)
  Header.wrapGuard (String.ofList (Text.dropEndWhile (· = '\n') lines.toList))
    (Header.aggregateId libName)

/-- The files of a state whose headers are included in the given order, the aggregate header last. -/
def files (s : State) (customCode : String) (order : List String) : List (String × String) :=
  (sortTexts s.outputs.keys).map (fun h => (h, moduleHeader h (s.output h))) ++
    [(Header.aggregate s.library, aggregateHeader s.library customCode order)]

/-- The headers of a state that has not been finalised. -/
def bundle (s : State) (customCode : String) : Except Failure Bundle := do
  let aggregate := Header.aggregate s.library
  if s.outputs.contains aggregate then throw (.reject (.aggregateTaken aggregate))
  s.checkGuards
  let graph ← s.includeGraph
  let order ← graph.order
  return ⟨order, s.files customCode order⟩

/-- Finishes the run. -/
def finalise (s : State) (customCode : String) : State × Except Failure Bundle :=
  if s.isFinalised then (s, .error (.reject .finalisedTwice))
  else ({ s with isFinalised := true }, s.bundle customCode)

theorem finalise_isFinalised (s : State) (customCode : String) :
    (s.finalise customCode).1.isFinalised = true := by
  unfold finalise
  split <;> simp_all

theorem finalise_of_isFinalised {s : State} (h : s.isFinalised) (customCode : String) :
    s.finalise customCode = (s, .error (.reject .finalisedTwice)) := by
  simp [finalise, h]

end State

end FfiHeaders
