import FfiHeaders.Proofs.Consistency

/-!
# Needs of headers

The nodes of an include graph are sorted, and so is what the edges from a node lead to. The order of
the headers, or else the cycle that is reported, is therefore fixed by which headers have output and
which of them need which.
-/
namespace FfiHeaders

section Distinct

variable {α : Type} [DecidableEq α]

theorem exists_foldl_distinct (xs seen : List α) :
    ∃ new, xs.foldl (fun seen x => if x ∈ seen then seen else seen ++ [x]) seen = seen ++ new ∧
      new.Sublist xs := by
  induction xs generalizing seen with
  | nil => exact ⟨[], (List.append_nil seen).symm, .slnil⟩
  | cons x xs ih =>
    rw [List.foldl_cons]
    split
    · obtain ⟨new, hnew, hsub⟩ := ih seen
      exact ⟨new, hnew, hsub.cons x⟩
    · obtain ⟨new, hnew, hsub⟩ := ih (seen ++ [x])
      exact ⟨x :: new, by rw [hnew, List.append_assoc]; rfl, hsub.cons_cons x⟩

theorem sublist_distinct (xs : List α) : (distinct xs).Sublist xs := by
  obtain ⟨new, hnew, hsub⟩ := exists_foldl_distinct xs []
  rw [distinct, hnew]
  exact hsub

theorem distinct_of_nodup {xs : List α} (h : xs.Nodup) : distinct xs = xs := by
  have hperm : (distinct xs).Perm xs :=
    (List.perm_ext_iff_of_nodup (nodup_distinct xs) h).2 fun _ => mem_distinct
  exact (sublist_distinct xs).eq_of_length hperm.length_eq

/-- What has been met before adds nothing. -/
theorem distinct_append_of_subset {xs ys : List α} (hxs : xs.Nodup) (h : ∀ y ∈ ys, y ∈ xs) :
    distinct (xs ++ ys) = xs := by
  have hkept : ys.foldl (fun seen y => if y ∈ seen then seen else seen ++ [y]) xs = xs := by
    induction ys with
    | nil => rfl
    | cons y ys ih =>
      obtain ⟨hy, hys⟩ := List.forall_mem_cons.1 h
      rw [List.foldl_cons, if_pos hy]
      exact ih hys
  have hxs' := distinct_of_nodup hxs
  rw [distinct] at hxs'
  rw [distinct, List.foldl_append, hxs', hkept]

end Distinct

namespace IncludeGraph

/-! ### Edges in groups -/

theorem mem_of_mem_flatten {ks : List String} {groups : List (List Edge)}
    (h : List.Forall₂ (fun k group => ∀ e ∈ group, e.2 = k) ks groups) :
    ∀ e ∈ groups.flatten, e.2 ∈ ks := by
  induction h with
  | nil => exact nofun
  | @cons k group ks groups hgroup _ ih =>
    intro e he
    rcases List.mem_append.1 he with he | he
    · exact List.mem_cons.2 (Or.inl (hgroup e he))
    · exact List.mem_cons_of_mem k (ih e he)

theorem pairwise_flatten {ks : List String} {groups : List (List Edge)}
    (h : List.Forall₂ (fun k group => ∀ e ∈ group, e.2 = k) ks groups)
    (hks : ks.Pairwise (· ≤ ·)) : groups.flatten.Pairwise fun e f => e.2 ≤ f.2 := by
  induction h with
  | nil => exact .nil
  | @cons k group ks groups hgroup hrest ih =>
    obtain ⟨hk, hks⟩ := List.pairwise_cons.1 hks
    rw [List.flatten_cons, List.pairwise_append]
    refine ⟨?_, ih hks, ?_⟩
    · refine List.pairwise_of_forall_mem_list fun e he f hf => ?_
      rw [hgroup e he, hgroup f hf]
    · intro e he f hf
      rw [hgroup e he]
      exact hk f.2 (mem_of_mem_flatten hrest f hf)

/-! ### Graphs with the same successors -/

variable {g g' : IncludeGraph}

theorem search_congr (hsucc : g.successors = g'.successors) (fuel : Nat) :
    g.search fuel = g'.search fuel := by
  induction fuel with
  | zero => rfl
  | succ fuel ih =>
    funext path done v
    rw [search, search, ih, hsucc]

theorem order_le (hg : g.IsProper) {order other : List String} (ho : g.order = .ok order)
    (h : g.Arranges other) : order ≤ other := by
  have ht := (isTopological_iff_arranges hg).2 h
  exact orderFrom_le hg.ne g.nodes order (order_eq_ok_iff.1 ho) other ht.perm ht.forward

/-- Graphs with the same nodes and the same successors have one order, or report one cycle. -/
theorem order_congr (hg : g.IsProper) (hg' : g'.IsProper) (hnodes : g.nodes = g'.nodes)
    (hsucc : g.successors = g'.successors) : g.order = g'.order := by
  have hedges : ∀ p c, (p, c) ∈ g.edges ↔ (p, c) ∈ g'.edges := by
    intro p c
    rw [← mem_successors, hsucc, mem_successors]
  have hacyclic : g.IsAcyclic ↔ g'.IsAcyclic := by
    simp only [IsAcyclic, Leads, hedges]
  have harranges : ∀ order, g.Arranges order ↔ g'.Arranges order := by
    intro order
    constructor
    · intro h
      exact ⟨h.nodup, hnodes ▸ h.mem, fun p c he => h.before p c ((hedges p c).2 he)⟩
    · intro h
      exact ⟨h.nodup, hnodes ▸ h.mem, fun p c he => h.before p c ((hedges p c).1 he)⟩
  by_cases h : g.IsAcyclic
  · obtain ⟨order, ho⟩ := (exists_order_iff hg).2 h
    obtain ⟨order', ho'⟩ := (exists_order_iff hg').2 (hacyclic.1 h)
    have hle := order_le hg ho ((harranges order').2 (arranges_of_order hg' ho'))
    have hle' := order_le hg' ho' ((harranges order).1 (arranges_of_order hg ho))
    obtain rfl : order = order' := le_antisymm hle hle'
    rw [ho, ho']
  · have hcycle : g.findCycle = g'.findCycle := by
      rw [findCycle, hnodes, search_congr hsucc, findCycle]
    rw [order_of_not_isAcyclic hg h, order_of_not_isAcyclic hg' (mt hacyclic.2 h), hcycle]

end IncludeGraph

namespace State

/-! ### Graphs of states -/

variable {s t : State} {g g' : IncludeGraph}

/-- The edges are listed by the headers that they enter. -/
theorem pairwise_edges (hg : s.includeGraph = .ok g) : g.edges.Pairwise fun e f => e.2 ≤ f.2 := by
  obtain ⟨edges, hedges, hgraph⟩ := Result.bind_eq_ok.1 hg
  obtain ⟨groups, hgroups, hflat⟩ := Result.bind_eq_ok.1 hedges
  rw [← Result.pure_eq_ok.1 hgraph, ← Result.pure_eq_ok.1 hflat]
  have hinto := (Result.mapM_eq_ok.1 hgroups).imp
    (S := fun k group => ∀ e ∈ group, e.2 = k) fun k group hgroup e he => by
      split at hgroup
      · cases hgroup
        exact (mem_edgesInto.1 he).1
      · cases hgroup
  exact (IncludeGraph.pairwise_flatten hinto (sorted_sortTexts _)).sublist (sublist_distinct _)

theorem sorted_successors (hg : s.includeGraph = .ok g) (v : String) :
    (g.successors v).Pairwise (· ≤ ·) :=
  List.pairwise_map.2 ((pairwise_edges hg).sublist List.filter_sublist)

theorem nodup_successors (hg : s.includeGraph = .ok g) (v : String) : (g.successors v).Nodup := by
  obtain ⟨edges, -, hgraph⟩ := Result.bind_eq_ok.1 hg
  have hedges : g.edges.Nodup := by
    rw [← Result.pure_eq_ok.1 hgraph]
    exact nodup_distinct _
  refine List.Nodup.map_on ?_ (hedges.filter _)
  intro e he f hf hsame
  have hsource : e.1 = f.1 := by
    rw [of_decide_eq_true (List.mem_filter.1 he).2, of_decide_eq_true (List.mem_filter.1 hf).2]
  exact Prod.ext hsource hsame

theorem nodes_of_homesHaveOutput (hs : s.HomesHaveOutput) (hg : s.includeGraph = .ok g) :
    g.nodes = sortTexts s.outputs.keys := by
  obtain ⟨edges, hedges, hgraph⟩ := Result.bind_eq_ok.1 hg
  rw [← Result.pure_eq_ok.1 hgraph]
  refine distinct_append_of_subset ((perm_sortTexts _).nodup_iff.2 s.outputs.nodup_keys) ?_
  intro p hp
  obtain ⟨e, he, rfl⟩ := List.mem_map.1 hp
  obtain ⟨-, -, n, -, hn⟩ := (mem_includeEdges hedges).1 he
  exact mem_sortTexts.2 (hs _ _ hn)

/-- Whether headers have an order, which one, or else which cycle is reported, is fixed by the headers
with output and by which of them need which. -/
theorem order_congr_of_needs (hs : s.HomesHaveOutput) (ht : t.HomesHaveOutput)
    (hg : s.includeGraph = .ok g) (hg' : t.includeGraph = .ok g') (houtputs : s.outputs = t.outputs)
    (hneeds : ∀ p c, s.Needs p c ↔ t.Needs p c) : g.order = g'.order := by
  have hnodes : g.nodes = g'.nodes := by
    rw [nodes_of_homesHaveOutput hs hg, houtputs, nodes_of_homesHaveOutput ht hg']
  have hsucc : g.successors = g'.successors := by
    funext v
    have hmem : ∀ w, w ∈ g.successors v ↔ w ∈ g'.successors v := by
      intro w
      rw [IncludeGraph.mem_successors, IncludeGraph.mem_successors, mem_graph_edges hg,
        mem_graph_edges hg']
      exact hneeds v w
    have hperm : (g.successors v).Perm (g'.successors v) :=
      (List.perm_ext_iff_of_nodup (nodup_successors hg v) (nodup_successors hg' v)).2 hmem
    exact hperm.eq_of_pairwise (fun _ _ _ _ => String.le_antisymm) (sorted_successors hg v)
      (sorted_successors hg' v)
  exact IncludeGraph.order_congr (isProper_includeGraph hg) (isProper_includeGraph hg') hnodes hsucc

end State

end FfiHeaders
