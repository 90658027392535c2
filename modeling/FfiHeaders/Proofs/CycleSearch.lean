import FfiHeaders.Proofs.LeastOrder
import FfiHeaders.Proofs.WordNames
import Mathlib.Data.List.Chain

/-!
# The cycle of an include graph

The search follows the edges from node to node. A node that it leaves behind starts no endless walk,
so a graph with a closed walk makes it meet its own path, and the part of the path that it reports is
a cycle.
-/
namespace FfiHeaders.IncludeGraph

variable {g : IncludeGraph}

/-- The edges lead around, from header to header, and pass none of them twice. -/
structure IsCycle (g : IncludeGraph) (cycle : List Edge) : Prop where
  mem : ∀ e ∈ cycle, e ∈ g.edges
  linked : cycle.IsChain fun e f => e.2 = f.1
  closed : cycle.getLast?.map (·.2) = cycle.head?.map (·.1)
  nodup : (cycle.map (·.1)).Nodup
  two_le_length : 2 ≤ cycle.length

/-! ### Edges along a list of nodes -/

theorem map_fst_chain : ∀ vs, (chain vs).map (·.1) = vs.dropLast
  | [] | [_] => rfl
  | v :: w :: vs => by rw [chain, List.map_cons, map_fst_chain (w :: vs), List.dropLast_cons_cons]

theorem map_snd_chain : ∀ vs, (chain vs).map (·.2) = vs.tail
  | [] | [_] => rfl
  | v :: w :: vs => by rw [chain, List.map_cons, map_snd_chain (w :: vs), List.tail_cons, List.tail_cons]

theorem isChain_chain : ∀ vs, (chain vs).IsChain fun e f => e.2 = f.1
  | [] | [_] | [_, _] => by simp [chain]
  | v :: w :: u :: vs => .cons_cons rfl (isChain_chain (w :: u :: vs))

theorem rel_of_mem_chain {R : String → String → Prop} {vs : List String} (h : vs.IsChain R) :
    ∀ e ∈ chain vs, R e.1 e.2 := by
  induction h with
  | nil | singleton => exact nofun
  | cons_cons hvw _ ih =>
    rw [chain, List.forall_mem_cons]
    exact ⟨hvw, ih⟩

/-! ### Paths of the search -/

/-- From its end to its start, the nodes of a walk that passes none twice. -/
structure IsPath (g : IncludeGraph) (path : List String) : Prop where
  subset : path ⊆ g.nodes
  nodup : path.Nodup
  linked : path.IsChain fun v u => (u, v) ∈ g.edges

theorem IsPath.cons {v w : String} {path : List String} (h : g.IsPath (v :: path))
    (hg : g.IsProper) (he : (v, w) ∈ g.edges) (hw : w ∉ v :: path) : g.IsPath (w :: v :: path) where
  subset := List.cons_subset.2 ⟨(hg.mem v w he).2, h.subset⟩
  nodup := List.nodup_cons.2 ⟨hw, h.nodup⟩
  linked := .cons_cons he h.linked

/-- A cycle leads from the node that is met again along the part of the path after it. -/
theorem exists_cycleAt_eq {path : List String} {w : String} (hw : w ∈ path) :
    ∃ back rest, path = back ++ w :: rest ∧ cycleAt path w = chain (w :: back.reverse ++ [w]) := by
  obtain ⟨back, rest, rfl, hback⟩ := List.eq_append_cons_of_mem hw
  have hne : ∀ u ∈ back, (u != w) = true := fun u hu => bne_iff_ne.2 fun h => hback (h ▸ hu)
  have htake : (back ++ w :: rest).takeWhile (· != w) = back := by
    rw [List.takeWhile_append_of_pos hne, List.takeWhile_cons_of_neg (by simp), List.append_nil]
  exact ⟨back, rest, rfl, by rw [cycleAt, htake]⟩

/-- The edge that leads from the end of a path back to one of its nodes closes a cycle. -/
theorem isCycle_cycleAt (hg : g.IsProper) {v w : String} {path : List String}
    (hp : g.IsPath (v :: path)) (he : (v, w) ∈ g.edges) (hw : w ∈ v :: path) :
    g.IsCycle (cycleAt (v :: path) w) := by
  obtain ⟨back, rest, hsplit, hcycle⟩ := exists_cycleAt_eq hw
  have hfst : (cycleAt (v :: path) w).map (·.1) = w :: back.reverse := by
    rw [hcycle, map_fst_chain, List.dropLast_concat]
  have hsnd : (cycleAt (v :: path) w).map (·.2) = back.reverse ++ [w] := by
    rw [hcycle, map_snd_chain, List.cons_append, List.tail_cons]
  have hnodup := hp.nodup
  have hlinked := hp.linked
  rw [hsplit, List.append_cons] at hnodup hlinked
  cases back with
  | nil => exact absurd (List.cons.inj hsplit).1 (hg.ne v w he)
  | cons u back =>
    obtain rfl : v = u := (List.cons.inj hsplit).1
    have hround : (w :: (v :: back ++ [w])).IsChain fun b a => (a, b) ∈ g.edges :=
      .cons_cons he hlinked.left_of_append
    have hwalk : (w :: (v :: back).reverse ++ [w]).IsChain fun a b => (a, b) ∈ g.edges := by
      rw [← List.isChain_reverse] at hround
      simpa using hround
    refine ⟨?_, ?_, ?_, ?_, ?_⟩
    · rw [hcycle]
      exact rel_of_mem_chain hwalk
    · rw [hcycle]
      exact isChain_chain _
    · rw [← List.getLast?_map, ← List.head?_map, hfst, hsnd, List.getLast?_concat, List.head?_cons]
    · rw [hfst, ← List.nodup_reverse, List.reverse_cons, List.reverse_reverse]
      exact hnodup.of_append_left
    · have hlen := congrArg List.length hfst
      rw [List.length_map, List.length_cons, List.length_reverse, List.length_cons] at hlen
      omega

/-! ### The search -/

/-- No walk that starts at the node goes on for ever. -/
def IsClear (g : IncludeGraph) : String → Prop := Acc fun w v => (v, w) ∈ g.edges

theorem IsClear.not_leads {v : String} (h : g.IsClear v) : ¬g.Leads v v := by
  induction h with
  | intro v _ ih =>
    intro hv
    obtain ⟨w, he, hw⟩ := Relation.TransGen.head'_iff.1 hv
    exact ih w he (Relation.TransGen.tail'_iff.2 ⟨v, hw, he⟩)

/-- What the search through the nodes `vs` may result in: a cycle, or clear nodes, those of `vs` and
those that it started with among them. -/
def Settles (g : IncludeGraph) (done vs : List String) : Except (List Edge) (List String) → Prop
  | .error cycle => g.IsCycle cycle
  | .ok all => done ⊆ all ∧ vs ⊆ all ∧ ∀ v ∈ all, g.IsClear v

theorem settles_of_mem {done : List String} (hdone : ∀ u ∈ done, g.IsClear u) {v : String}
    (hv : v ∈ done) : g.Settles done [v] (.ok done) :=
  ⟨List.Subset.refl _, List.cons_subset.2 ⟨hv, List.nil_subset _⟩, hdone⟩

theorem settles_foldlM {visit : List String → String → Except (List Edge) (List String)}
    {vs : List String}
    (hvisit : ∀ v ∈ vs, ∀ done, (∀ u ∈ done, g.IsClear u) → g.Settles done [v] (visit done v)) :
    ∀ done, (∀ u ∈ done, g.IsClear u) → g.Settles done vs (vs.foldlM visit done) := by
  induction vs with
  | nil =>
    intro done hdone
    exact ⟨List.Subset.refl _, List.nil_subset _, hdone⟩
  | cons v vs ih =>
    obtain ⟨hv, hvs⟩ := List.forall_mem_cons.1 hvisit
    intro done hdone
    have hfirst := hv done hdone
    rw [List.foldlM_cons]
    cases hr : visit done v with
    | error cycle =>
      rw [hr] at hfirst
      exact hfirst
    | ok next =>
      rw [hr] at hfirst
      obtain ⟨hsub, hmem, hclear⟩ := hfirst
      have hrest := ih hvs next hclear
      change g.Settles done (v :: vs) (vs.foldlM visit next)
      cases hall : vs.foldlM visit next with
      | error cycle =>
        rw [hall] at hrest
        exact hrest
      | ok all =>
        rw [hall] at hrest
        obtain ⟨hsub', hmem', hclear'⟩ := hrest
        have hv' : v ∈ all := hsub' (hmem List.mem_cons_self)
        exact ⟨List.Subset.trans hsub hsub', List.cons_subset.2 ⟨hv', hmem'⟩, hclear'⟩

theorem mem_successors {v w : String} : w ∈ g.successors v ↔ (v, w) ∈ g.edges := by
  simp [successors]

theorem settles_search (hg : g.IsProper) (fuel : Nat) :
    ∀ path done v, g.IsPath (v :: path) → g.nodes.length ≤ fuel + path.length →
      (∀ u ∈ done, g.IsClear u) → g.Settles done [v] (g.search fuel path done v) := by
  -- a path has no more nodes than the graph, so the fuel never runs out before the path ends
  induction fuel with
  | zero =>
    intro path done v hp hfuel _
    have hlen := (hp.nodup.subperm hp.subset).length_le
    rw [List.length_cons] at hlen
    omega
  | succ fuel ih =>
    intro path done v hp hfuel hdone
    have hvisit : ∀ w ∈ g.successors v, ∀ done, (∀ u ∈ done, g.IsClear u) →
        g.Settles done [w]
          (if (v :: path).contains w then .error (cycleAt (v :: path) w)
            else if done.contains w then .ok done else g.search fuel (v :: path) done w) := by
      intro w hw done hdone
      have he := mem_successors.1 hw
      split
      · next hback => exact isCycle_cycleAt hg hp he (List.contains_iff_mem.1 hback)
      · next hnew =>
        split
        · next hold => exact settles_of_mem hdone (List.contains_iff_mem.1 hold)
        · have hnew : w ∉ v :: path := fun h => hnew (List.contains_iff_mem.2 h)
          refine ih (v :: path) done w (hp.cons hg he hnew) ?_ hdone
          rw [List.length_cons]
          omega
    have hall := settles_foldlM hvisit done hdone
    rw [search]
    cases hr : (g.successors v).foldlM (fun done w =>
        if (v :: path).contains w then .error (cycleAt (v :: path) w)
        else if done.contains w then .ok done else g.search fuel (v :: path) done w) done with
    | error cycle =>
      rw [hr] at hall
      exact hall
    | ok all =>
      rw [hr] at hall
      obtain ⟨hsub, hmem, hclear⟩ := hall
      have hv : g.IsClear v := .intro v fun w he => hclear w (hmem (mem_successors.2 he))
      have hmem' : [v] ⊆ v :: all := List.cons_subset.2 ⟨List.mem_cons_self, List.nil_subset _⟩
      exact ⟨List.subset_cons_of_subset v hsub, hmem', List.forall_mem_cons.2 ⟨hv, hclear⟩⟩

theorem isCycle_findCycle (hg : g.IsProper) (h : ¬g.IsAcyclic) : g.IsCycle g.findCycle := by
  have hvisit : ∀ v ∈ g.nodes, ∀ done, (∀ u ∈ done, g.IsClear u) →
      g.Settles done [v]
        (if done.contains v then .ok done else g.search g.nodes.length [] done v) := by
    intro v hv done hdone
    split
    · next hold => exact settles_of_mem hdone (List.contains_iff_mem.1 hold)
    · have hpath : g.IsPath [v] :=
        ⟨List.cons_subset.2 ⟨hv, List.nil_subset _⟩, List.nodup_singleton v, .singleton v⟩
      exact settles_search hg g.nodes.length [] done v hpath le_rfl hdone
  have hall := settles_foldlM hvisit [] (by simp)
  rw [findCycle]
  cases hr : g.nodes.foldlM (fun done v =>
      if done.contains v then .ok done else g.search g.nodes.length [] done v) [] with
  | error cycle =>
    rw [hr] at hall
    exact hall
  | ok all =>
    rw [hr] at hall
    obtain ⟨-, hmem, hclear⟩ := hall
    refine absurd (fun v hv => ?_) h
    obtain ⟨w, he, -⟩ := Relation.TransGen.head'_iff.1 hv
    exact (hclear v (hmem (hg.mem v w he).1)).not_leads hv

theorem order_of_not_isAcyclic (hg : g.IsProper) (h : ¬g.IsAcyclic) :
    g.order = .error (.cyclic g.findCycle) := by
  unfold IncludeGraph.order
  split
  · next order ho => exact absurd ((exists_order_iff hg).1 ⟨order, order_eq_ok_iff.2 ho⟩) h
  · rfl

end FfiHeaders.IncludeGraph

namespace FfiHeaders.State

/-- Headers that need each other are reported as a cycle of them. Each step of it is due to a type that
the second header mentions and the first declares, and the message names the headers around it. -/
theorem cycle_of_leads {s : State} {g : IncludeGraph} (hs : s.includeGraph = .ok g)
    (h : ∃ v, g.Leads v v) :
    ∃ cycle, g.order = .error (.cyclic cycle) ∧ g.IsCycle cycle ∧
      (∀ e ∈ cycle, ∃ n ∈ s.mentioned e.2, s.home? n = some e.1) ∧
      ∃ first rest, cycle.map (·.1) = first :: rest ∧
        (Failure.cyclic cycle).diagnostic? =
          some ⟨"cyclic dependency between headers: " ++
            String.intercalate " -> " (cycle.map (·.1) ++ [first]), .error, none⟩ := by
  have hg := isProper_includeGraph hs
  have hcyclic : ¬g.IsAcyclic := fun ha => h.elim ha
  have hc := IncludeGraph.isCycle_findCycle hg hcyclic
  refine ⟨g.findCycle, IncludeGraph.order_of_not_isAcyclic hg hcyclic, hc, ?_, ?_⟩
  · intro e he
    exact ((mem_graph_edges hs).1 (hc.mem e he)).2.2
  · have hlong := hc.two_le_length
    cases hes : g.findCycle with
    | nil =>
      rw [hes] at hlong
      cases hlong
    | cons e es => exact ⟨e.1, es.map (·.1), rfl, rfl⟩

/-- A state with two headers that need each other. The search comes to them through a third one, after
it has left a fourth that nothing needs. -/
def tangledState : State where
  libName := .text "lib"
  decls := ⟨[(.word "A", "a.h"), (.word "C", "c.h"), (.word "D", "d.h")], by decide⟩
  deps := ⟨[("b.h", [.word "A"]), ("c.h", [.word "D", .word "A"]), ("d.h", [.word "C"])], by decide⟩
  outputs := ⟨[("a.h", ""), ("b.h", ""), ("c.h", ""), ("d.h", "")], by decide⟩
  isFinalised := false

def tangledGraph : IncludeGraph where
  nodes := ["a.h", "b.h", "c.h", "d.h"]
  edges := [("a.h", "b.h"), ("a.h", "c.h"), ("d.h", "c.h"), ("c.h", "d.h")]

theorem includeGraph_tangledState : tangledState.includeGraph = .ok tangledGraph := by
  have hkeys : sortTexts tangledState.outputs.keys = ["a.h", "b.h", "c.h", "d.h"] :=
    List.mergeSort_of_pairwise (by decide)
  have hneedy : sortTexts (tangledState.deps.keys.filter fun h => tangledState.outputs.contains h) =
      ["b.h", "c.h", "d.h"] := List.mergeSort_of_pairwise (by decide)
  have hnames : Symbol.sorted? (tangledState.mentioned "c.h") = some [.word "A", .word "D"] := by
    have hsorted : sortTexts ["A", "D"] = ["A", "D"] := List.mergeSort_of_pairwise (by decide)
    have hwords := Symbol.sorted?_words ["D", "A"]
    rw [sortTexts_congr (List.Perm.swap "A" "D" []), hsorted] at hwords
    exact hwords
  rw [includeGraph, includeEdges, hneedy, hkeys, List.mapM_cons, List.mapM_cons, hnames]
  rfl

theorem cycle_of_leads_tangledState :
    ∃ g cycle, tangledState.includeGraph = .ok g ∧ g.Leads "c.h" "c.h" ∧
      g.order = .error (.cyclic cycle) ∧ g.IsCycle cycle ∧
      cycle = [("c.h", "d.h"), ("d.h", "c.h")] ∧
      (Failure.cyclic cycle).diagnostic? =
        some ⟨"cyclic dependency between headers: c.h -> d.h -> c.h", .error, none⟩ := by
  have hleads : tangledGraph.Leads "c.h" "c.h" := .head (b := "d.h") (by decide) (.single (by decide))
  have hfound : tangledGraph.findCycle = [("c.h", "d.h"), ("d.h", "c.h")] := by decide +kernel
  obtain ⟨cycle, horder, hcycle, -, first, rest, hfirst, hmessage⟩ :=
    cycle_of_leads includeGraph_tangledState ⟨"c.h", hleads⟩
  have hsearch := IncludeGraph.order_of_not_isAcyclic (isProper_includeGraph includeGraph_tangledState)
    fun ha => ha "c.h" hleads
  rw [horder, hfound, Except.error.injEq, Failure.cyclic.injEq] at hsearch
  have htext : "cyclic dependency between headers: " ++
      String.intercalate " -> " (cycle.map (·.1) ++ [first]) =
        "cyclic dependency between headers: c.h -> d.h -> c.h" := by
    rw [hsearch] at hfirst ⊢
    obtain rfl : "c.h" = first := (List.cons.inj hfirst).1
    decide
  rw [htext] at hmessage
  exact ⟨_, cycle, includeGraph_tangledState, hleads, horder, hcycle, hsearch, hmessage⟩

end FfiHeaders.State
