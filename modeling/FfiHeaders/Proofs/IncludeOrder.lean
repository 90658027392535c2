import FfiHeaders.Header.IncludeGraph
import FfiHeaders.Proofs.Result
import Mathlib.Data.List.Basic

/-!
# The order of an include graph

Taking free nodes one by one gives each node once and never puts the tail of an edge before its head.
The second half holds the nodes and edges of the graph of a state.
-/
namespace FfiHeaders.IncludeGraph

variable {g : IncludeGraph}

/-- Every node once, and no edge leads backwards. -/
structure IsTopological (g : IncludeGraph) (order : List String) : Prop where
  perm : order.Perm g.nodes
  forward : order.Pairwise fun v w => (w, v) ∉ g.edges

theorem isFree_iff {remaining : List String} {v : String} :
    g.isFree remaining v ↔ ∀ u, (u, v) ∈ g.edges → u ∉ remaining := by
  simp only [isFree, List.all_eq_true, Bool.or_eq_true, bne_iff_ne, Bool.not_eq_true',
    List.contains_eq_mem, decide_eq_false_iff_not]
  constructor
  · intro h u hu
    exact (h (u, v) hu).resolve_left (not_not_intro rfl)
  · rintro h ⟨u, w⟩ he
    by_cases hw : w = v
    · subst hw
      exact Or.inr (h u he)
    · exact Or.inl hw

theorem isFree_of_next? {remaining : List String} {v : String} (h : g.next? remaining = some v) :
    g.isFree remaining v :=
  (List.mem_filter.1 (mem_of_least? h)).2

theorem orderFrom_sound (remaining : List String) :
    ∀ order, g.orderFrom remaining = some order →
      order.Perm remaining ∧ order.Pairwise fun v w => (w, v) ∉ g.edges := by
  induction remaining using orderFrom.induct g with
  | case1 remaining hr =>
    intro order h
    rw [orderFrom, if_pos hr, Option.some.injEq] at h
    subst h
    exact ⟨(List.isEmpty_iff.1 hr) ▸ .refl _, .nil⟩
  | case2 remaining hr hn =>
    intro order h
    rw [orderFrom, if_neg hr] at h
    split at h
    · cases h
    · next hv => rw [hn] at hv; cases hv
  | case3 remaining hr v hv ih =>
    intro order h
    rw [orderFrom, if_neg hr] at h
    split at h
    · cases h
    · next w hw =>
      obtain rfl : v = w := Option.some.inj (hv.symm.trans hw)
      obtain ⟨vs, hvs, rfl⟩ := Option.map_eq_some_iff.1 h
      obtain ⟨hp, hf⟩ := ih vs hvs
      refine ⟨(hp.cons v).trans (List.perm_cons_erase (mem_of_next? hv)).symm,
        List.pairwise_cons.2 ⟨fun w hw he => ?_, hf⟩⟩
      -- what comes later is still there when `v` is taken, so no edge from it enters `v`
      exact isFree_iff.1 (isFree_of_next? hv) w he (List.mem_of_mem_erase (hp.subset hw))

theorem isTopological_of_order? {order : List String} (h : g.order? = some order) :
    g.IsTopological order :=
  have hs := orderFrom_sound g.nodes order h
  ⟨hs.1, hs.2⟩

theorem order?_of_order {order : List String} (h : g.order = .ok order) :
    g.order? = some order := by
  unfold IncludeGraph.order at h
  split at h
  · next vs hv => cases h; exact hv
  · cases h

theorem order?_singleton (v : String) :
    (⟨[v], []⟩ : IncludeGraph).order? = some [v] := by
  have hnil : (⟨[v], []⟩ : IncludeGraph).orderFrom [] = some [] := by rw [orderFrom]; rfl
  rw [order?, orderFrom]
  dsimp only [List.isEmpty_cons]
  rw [if_neg Bool.false_ne_true]
  split
  · next h => cases h
  · next w h =>
    cases h
    rw [List.erase_cons_head, hnil]
    rfl

namespace IsTopological

variable {order : List String} (ho : g.IsTopological order)
include ho

/-- The head of an edge between two nodes stands before its tail. -/
theorem sublist_of_edge {p c : String} (he : (p, c) ∈ g.edges) (hne : p ≠ c) (hp : p ∈ g.nodes)
    (hc : c ∈ g.nodes) : [p, c].Sublist order := by
  obtain ⟨xs, ys, hxy⟩ := List.append_of_mem (ho.perm.mem_iff.2 hp)
  have hc' : c ∈ xs ++ p :: ys := hxy ▸ ho.perm.mem_iff.2 hc
  have hf := ho.forward
  rw [hxy] at hf ⊢
  rcases List.mem_append.1 hc' with hx | hy
  · exact absurd he ((List.pairwise_append.1 hf).2.2 c hx p List.mem_cons_self)
  · have hy' : c ∈ ys := (List.mem_cons.1 hy).resolve_left hne.symm
    exact ((List.singleton_sublist.2 hy').cons_cons p).trans (List.sublist_append_right xs _)

end IsTopological

end FfiHeaders.IncludeGraph

namespace FfiHeaders.State

theorem mem_edgesInto {s : State} {c : String} {names : List Symbol} {e : Edge} :
    e ∈ s.edgesInto c names ↔ e.2 = c ∧ e.1 ≠ c ∧ ∃ n ∈ names, s.home? n = some e.1 := by
  simp only [edgesInto, List.mem_filterMap]
  constructor
  · rintro ⟨n, hn, h⟩
    cases hp : s.home? n with
    | none => simp [hp] at h
    | some p =>
      simp only [hp, Option.ite_none_left_eq_some, Option.some.injEq] at h
      obtain ⟨hne, rfl⟩ := h
      exact ⟨rfl, hne, n, hn, hp⟩
  · rintro ⟨rfl, hne, n, hn, hp⟩
    exact ⟨n, hn, by simp [hp, hne]⟩

theorem mem_deps_keys_of_mentioned {s : State} {c : String} {n : Symbol} (h : n ∈ s.mentioned c) :
    c ∈ s.deps.keys := by
  unfold mentioned at h
  cases hc : s.deps.get? c with
  | none => simp [hc] at h
  | some ns => exact Table.mem_keys_of_get? hc

/-- A header with output that mentions a name is entered from the name's home. -/
theorem mem_includeEdges {s : State} {edges : List Edge} (h : s.includeEdges = .ok edges)
    {p c : String} : (p, c) ∈ edges ↔
      c ∈ s.outputs.keys ∧ p ≠ c ∧ ∃ n ∈ s.mentioned c, s.home? n = some p := by
  unfold includeEdges at h
  obtain ⟨groups, hg, he⟩ := Result.bind_eq_ok.1 h
  rw [← Result.pure_eq_ok.1 he, List.mem_flatten]
  simp only [Result.mem_of_mapM hg, mem_sortTexts, List.mem_filter]
  constructor
  · rintro ⟨group, ⟨d, ⟨-, hd⟩, hfd⟩, hm⟩
    split at hfd
    · next names hn =>
      cases hfd
      obtain ⟨rfl, hne, n, hnm, hp⟩ := mem_edgesInto.1 hm
      exact ⟨Table.contains_iff.1 hd, hne, n, (Symbol.perm_of_sorted? hn).mem_iff.1 hnm, hp⟩
    · cases hfd
  · rintro ⟨hc, hne, n, hnm, hp⟩
    have hcd : c ∈ sortTexts (s.deps.keys.filter fun h => s.outputs.contains h) :=
      mem_sortTexts.2 (List.mem_filter.2 ⟨mem_deps_keys_of_mentioned hnm, Table.contains_iff.2 hc⟩)
    obtain ⟨group, hfc⟩ := Result.exists_of_mapM hg hcd
    refine ⟨group, ⟨c, by simpa using hcd, hfc⟩, ?_⟩
    split at hfc
    · next names hn =>
      cases hfc
      exact mem_edgesInto.2 ⟨rfl, hne, n, (Symbol.perm_of_sorted? hn).mem_iff.2 hnm, hp⟩
    · cases hfc

theorem nodup_nodes {s : State} {g : IncludeGraph} (h : s.includeGraph = .ok g) :
    g.nodes.Nodup := by
  obtain ⟨edges, -, hg⟩ := Result.bind_eq_ok.1 h
  rw [← Result.pure_eq_ok.1 hg]
  exact nodup_distinct _

theorem mem_graph_edges {s : State} {g : IncludeGraph} (h : s.includeGraph = .ok g)
    {p c : String} : (p, c) ∈ g.edges ↔
      c ∈ s.outputs.keys ∧ p ≠ c ∧ ∃ n ∈ s.mentioned c, s.home? n = some p := by
  obtain ⟨edges, he, hg⟩ := Result.bind_eq_ok.1 h
  rw [← Result.pure_eq_ok.1 hg, mem_distinct, mem_includeEdges he]

theorem mem_nodes {s : State} {g : IncludeGraph} (h : s.includeGraph = .ok g) {v : String} :
    v ∈ g.nodes ↔ v ∈ s.outputs.keys ∨ ∃ c, (v, c) ∈ g.edges := by
  obtain ⟨edges, he, hg⟩ := Result.bind_eq_ok.1 h
  rw [← Result.pure_eq_ok.1 hg]
  simp

end FfiHeaders.State
