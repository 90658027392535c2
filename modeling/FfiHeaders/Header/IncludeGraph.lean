import FfiHeaders.Failure
import FfiHeaders.Header.State

/-!
# The include graph

An edge leads from the header that declares a type to each other header that mentions it, so the first
has to be included before the second. `order?` gives the least order with that property, and
`findCycle` a cycle where there is none.
-/
namespace FfiHeaders

/-- A graph of headers. Its nodes and edges are in the order in which they were met. -/
structure IncludeGraph where
  nodes : List String
  edges : List Edge
  deriving DecidableEq, Repr

namespace IncludeGraph

def successors (g : IncludeGraph) (v : String) : List String :=
  (g.edges.filter fun e => e.1 = v).map (·.2)

/-- The edges grouped by the node that they leave. -/
def groupedEdges (g : IncludeGraph) : List Edge :=
  g.nodes.flatMap fun v => (g.successors v).map fun w => (v, w)

/-- Whether no edge enters `v` from the nodes that remain. -/
def isFree (g : IncludeGraph) (remaining : List String) (v : String) : Bool :=
  g.edges.all fun e => e.2 != v || !remaining.contains e.1

/-- The first text in order of code points. -/
def least? : List String → Option String
  | [] => none
  | v :: vs =>
    match least? vs with
    | none => some v
    | some w => some (if v ≤ w then v else w)

theorem mem_of_least? {vs : List String} {v : String} (h : least? vs = some v) : v ∈ vs := by
  induction vs generalizing v with
  | nil => simp [least?] at h
  | cons u us ih =>
    cases hu : least? us with
    | none => simp_all [least?]
    | some w =>
      simp only [least?, hu, Option.some.injEq] at h
      split at h
      · simp [h]
      · exact List.mem_cons_of_mem _ (ih (hu.trans (congrArg some h)))

/-- The free node that comes first. -/
def next? (g : IncludeGraph) (remaining : List String) : Option String :=
  least? (remaining.filter (g.isFree remaining))

theorem mem_of_next? {g : IncludeGraph} {remaining : List String} {v : String}
    (h : g.next? remaining = some v) : v ∈ remaining :=
  (List.mem_filter.1 (mem_of_least? h)).1

/-- Takes the first free node until none remains. -/
def orderFrom (g : IncludeGraph) (remaining : List String) : Option (List String) :=
  if remaining.isEmpty then some []
  else
    match _h : g.next? remaining with
    | none => none
    | some v => (g.orderFrom (remaining.erase v)).map (v :: ·)
termination_by remaining.length
decreasing_by
  have hv := mem_of_next? _h
  rw [List.length_erase_of_mem hv]
  have := List.length_pos_of_mem hv
  omega

/-- The least order in which every edge leads forward, if there is one. -/
def order? (g : IncludeGraph) : Option (List String) := g.orderFrom g.nodes

/-- The edges along a list of nodes. -/
def chain : List String → List Edge
  | v :: w :: vs => (v, w) :: chain (w :: vs)
  | _ => []

/-- The cycle that an edge from the end of the path back to `w` closes. The path is given from its
end to its start. -/
def cycleAt (path : List String) (w : String) : List Edge :=
  let back := path.takeWhile (· != w)
  chain ((w :: back.reverse) ++ [w])

/-- Follows the edges depth first from the end of `path` and stops with the first cycle met. The
result holds the nodes that lead to none. No path visits a node twice, so `fuel` nodes are enough. -/
def search (g : IncludeGraph) (fuel : Nat) (path done : List String) (v : String) :
    Except (List Edge) (List String) :=
  match fuel with
  | 0 => .ok done
  | fuel + 1 => do
    let path := v :: path
    let done ← (g.successors v).foldlM
      (fun done w =>
        if path.contains w then .error (cycleAt path w)
        else if done.contains w then .ok done
        else search g fuel path done w)
      done
    return v :: done

/-- The first cycle met from the nodes in their order; empty if the graph has none. -/
def findCycle (g : IncludeGraph) : List Edge :=
  let search := g.nodes.foldlM
    (fun done v => if done.contains v then .ok done else search g g.nodes.length [] done v) []
  match search with
  | .ok _ => []
  | .error cycle => cycle

/-- The order of the headers, or the cycle that prevents it. -/
def order (g : IncludeGraph) : Except Failure (List String) :=
  match g.order? with
  | some vs => .ok vs
  | none => .error (.cyclic g.findCycle)

example : (⟨["a", "b", "c"], [("c", "a")]⟩ : IncludeGraph).order? = some ["b", "c", "a"] := by
  decide +kernel

example : (⟨["a", "b", "c"], [("a", "b"), ("b", "c"), ("c", "b")]⟩ : IncludeGraph).findCycle =
    [("b", "c"), ("c", "b")] := by
  decide +kernel

end IncludeGraph

namespace State

/-- The edges into a header. Names that no header declares belong to external types, and a header
does not include itself. -/
def edgesInto (s : State) (header : String) (names : List Symbol) : List Edge :=
  names.filterMap fun n =>
    match s.home? n with
    | none => none
    | some producer => if producer = header then none else some (producer, header)

/-- The edges into all headers, in order of headers and names. -/
def includeEdges (s : State) : Except Failure (List Edge) := do
  let headers := sortTexts (s.deps.keys.filter fun h => s.outputs.contains h)
  let groups ← headers.mapM fun h =>
    match Symbol.sorted? (s.mentioned h) with
    | some names => .ok (s.edgesInto h names)
    | none => .error (.mismatch .operation)
  return groups.flatten

/-- The include graph of a state. A home that has no output is a node as well. -/
def includeGraph (s : State) : Except Failure IncludeGraph := do
  let edges ← s.includeEdges
  return ⟨distinct (sortTexts s.outputs.keys ++ edges.map (·.1)), distinct edges⟩

end State

end FfiHeaders
