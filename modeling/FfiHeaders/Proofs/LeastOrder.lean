import FfiHeaders.Proofs.IncludeOrder
import Mathlib.Data.String.Basic
import Mathlib.Order.WellFoundedSet

/-!
# The least order of an include graph

Taking the first free node again and again goes through the whole graph exactly if no walk comes back
to its start. Among all orders that put the head of each edge before its tail it gives the least, since
whatever such an order starts with is free at the start.
-/
namespace FfiHeaders.IncludeGraph

variable {g : IncludeGraph}

/-- Each node is listed once, and an edge joins two different nodes. -/
structure IsProper (g : IncludeGraph) : Prop where
  nodup : g.nodes.Nodup
  mem : ∀ p c, (p, c) ∈ g.edges → p ∈ g.nodes ∧ c ∈ g.nodes
  ne : ∀ p c, (p, c) ∈ g.edges → p ≠ c

/-- A walk of one or more edges leads from the first node to the second. -/
def Leads (g : IncludeGraph) : String → String → Prop :=
  Relation.TransGen fun u v => (u, v) ∈ g.edges

/-- No walk comes back to its start. -/
def IsAcyclic (g : IncludeGraph) : Prop := ∀ v, ¬g.Leads v v

/-- Every node once, and the head of each edge before its tail. -/
structure Arranges (g : IncludeGraph) (order : List String) : Prop where
  nodup : order.Nodup
  mem : ∀ v, v ∈ order ↔ v ∈ g.nodes
  before : ∀ p c, (p, c) ∈ g.edges → [p, c].Sublist order

/-! ### Arrangements -/

theorem idxOf_lt_of_sublist {order : List String} (hn : order.Nodup) {p c : String}
    (h : [p, c].Sublist order) : order.idxOf p < order.idxOf c := by
  induction order with
  | nil => cases h
  | cons v vs ih =>
    obtain ⟨hv, hn⟩ := List.nodup_cons.1 hn
    cases h with
    | cons _ h =>
      have hp : v ≠ p := fun he => hv (he ▸ h.subset List.mem_cons_self)
      have hc : v ≠ c := fun he => hv (he ▸ h.subset (List.mem_cons_of_mem _ List.mem_cons_self))
      rw [List.idxOf_cons_ne _ hp, List.idxOf_cons_ne _ hc]
      exact Nat.succ_lt_succ (ih hn h)
    | cons_cons _ h =>
      have hc : p ≠ c := fun he => hv (he ▸ h.subset List.mem_cons_self)
      rw [List.idxOf_cons_self, List.idxOf_cons_ne _ hc]
      exact Nat.succ_pos _

theorem Arranges.isAcyclic {order : List String} (h : g.Arranges order) : g.IsAcyclic := by
  -- along a walk the places in an arrangement only grow
  have hgrows : ∀ u v, g.Leads u v → order.idxOf u < order.idxOf v := by
    intro u v huv
    induction huv with
    | single he => exact idxOf_lt_of_sublist h.nodup (h.before _ _ he)
    | tail _ he ih => exact ih.trans (idxOf_lt_of_sublist h.nodup (h.before _ _ he))
  intro v hv
  exact lt_irrefl _ (hgrows v v hv)

theorem isTopological_iff_arranges (hg : g.IsProper) {order : List String} :
    g.IsTopological order ↔ g.Arranges order := by
  constructor
  · intro h
    refine ⟨h.perm.nodup_iff.2 hg.nodup, fun v => h.perm.mem_iff, fun p c he => ?_⟩
    obtain ⟨hp, hc⟩ := hg.mem p c he
    exact h.sublist_of_edge he (hg.ne p c he) hp hc
  · intro h
    refine ⟨(List.perm_ext_iff_of_nodup h.nodup hg.nodup).2 h.mem, ?_⟩
    refine List.pairwise_iff_forall_sublist.2 fun {v w} hvw he => ?_
    have hforth := idxOf_lt_of_sublist h.nodup hvw
    have hback := idxOf_lt_of_sublist h.nodup (h.before w v he)
    omega

/-! ### The first free node -/

theorem least?_eq_none_iff {vs : List String} : least? vs = none ↔ vs = [] := by
  cases vs with
  | nil => exact iff_of_true rfl rfl
  | cons v vs =>
    refine iff_of_false ?_ (List.cons_ne_nil v vs)
    rw [least?]
    split <;> exact Option.some_ne_none _

theorem le_of_least? {vs : List String} {v : String} (h : least? vs = some v) :
    ∀ u ∈ vs, v ≤ u := by
  induction vs generalizing v with
  | nil => cases h
  | cons w ws ih =>
    rw [least?] at h
    split at h
    · next hn =>
      obtain rfl := Option.some.inj h
      rw [least?_eq_none_iff.1 hn]
      simp
    · next u hu =>
      have hle := ih hu
      obtain rfl := Option.some.inj h
      simp only [List.forall_mem_cons]
      split
      · next hwu => exact ⟨le_rfl, fun x hx => hwu.trans (hle x hx)⟩
      · next hwu => exact ⟨(le_total w u).resolve_left hwu, hle⟩

/-- A graph without a closed walk has a free node among any that remain. -/
theorem exists_isFree (hg : g.IsAcyclic) {remaining : List String} (hr : remaining ≠ []) :
    ∃ v ∈ remaining, g.isFree remaining v := by
  -- walks order the finitely many nodes that remain, and a first one in that order is free
  have : IsStrictOrder String g.Leads :=
    { irrefl := hg
      trans := fun _ _ _ => Relation.TransGen.trans }
  have hwf := (List.finite_toSet remaining).wellFoundedOn (r := g.Leads)
  obtain ⟨u, hu⟩ := List.exists_mem_of_ne_nil remaining hr
  obtain ⟨v, hv, hmin⟩ := hwf.has_min Set.univ ⟨⟨u, hu⟩, trivial⟩
  refine ⟨v, v.2, isFree_iff.2 fun w he hw => ?_⟩
  exact hmin ⟨w, hw⟩ trivial (.single he)

/-! ### Taking the first free node again and again -/

theorem exists_orderFrom (hg : g.IsAcyclic) (remaining : List String) :
    ∃ order, g.orderFrom remaining = some order := by
  induction remaining using orderFrom.induct g with
  | case1 remaining hr => exact ⟨[], by rw [orderFrom, if_pos hr]⟩
  | case2 remaining hr hn =>
    obtain ⟨v, hv, hfree⟩ := exists_isFree hg fun he => hr (List.isEmpty_iff.2 he)
    have hmem : v ∈ remaining.filter (g.isFree remaining) := List.mem_filter.2 ⟨hv, hfree⟩
    rw [least?_eq_none_iff.1 hn] at hmem
    cases hmem
  | case3 remaining hr v hv ih =>
    obtain ⟨order, ho⟩ := ih
    refine ⟨v :: order, ?_⟩
    rw [orderFrom, if_neg hr]
    split
    · next hn =>
      rw [hn] at hv
      cases hv
    · next w hw =>
      obtain rfl : v = w := Option.some.inj (hv.symm.trans hw)
      rw [ho]
      rfl

theorem orderFrom_le (hne : ∀ p c, (p, c) ∈ g.edges → p ≠ c) (remaining : List String) :
    ∀ order, g.orderFrom remaining = some order →
      ∀ other : List String, other.Perm remaining → (other.Pairwise fun v w => (w, v) ∉ g.edges) →
        order ≤ other := by
  induction remaining using orderFrom.induct g with
  | case1 remaining hr =>
    intro order h other hp _
    rw [orderFrom, if_pos hr, Option.some.injEq] at h
    subst h
    rw [List.isEmpty_iff.1 hr] at hp
    exact hp.eq_nil.ge
  | case2 remaining hr hn =>
    intro order h
    rw [orderFrom, if_neg hr] at h
    split at h
    · cases h
    · next hv => rw [hn] at hv; cases hv
  | case3 remaining hr v hv ih =>
    intro order h other hp hf
    rw [orderFrom, if_neg hr] at h
    split at h
    · cases h
    · next v' hv' =>
      obtain rfl : v = v' := Option.some.inj (hv.symm.trans hv')
      obtain ⟨vs, hvs, rfl⟩ := Option.map_eq_some_iff.1 h
      cases other with
      | nil =>
        have hnil := hp.symm.eq_nil
        exact absurd (List.isEmpty_iff.2 hnil) hr
      | cons w ws =>
        obtain ⟨hw, hfs⟩ := List.pairwise_cons.1 hf
        have hmem : w ∈ remaining := hp.subset List.mem_cons_self
        -- nothing that remains can have an edge into the node that the other order takes first
        have hfree : g.isFree remaining w := by
          refine isFree_iff.2 fun u he hu => ?_
          have hu' : u ∈ ws := (List.mem_cons.1 (hp.mem_iff.2 hu)).resolve_left (hne u w he)
          exact hw u hu' he
        have hle : v ≤ w := le_of_least? hv w (List.mem_filter.2 ⟨hmem, hfree⟩)
        rcases hle.lt_or_eq with hlt | rfl
        · exact le_of_lt (List.Lex.rel hlt)
        · have hws : ws.Perm (remaining.erase v) := (List.cons_perm_iff_perm_erase.1 hp).2
          rcases (ih vs hvs ws hws hfs).lt_or_eq with hlt | rfl
          · exact le_of_lt (List.Lex.cons hlt)
          · exact le_rfl

theorem order_eq_ok_iff {order : List String} : g.order = .ok order ↔ g.order? = some order := by
  refine ⟨order?_of_order, fun h => ?_⟩
  rw [IncludeGraph.order, h]

theorem arranges_of_order (hg : g.IsProper) {order : List String} (h : g.order = .ok order) :
    g.Arranges order :=
  (isTopological_iff_arranges hg).1 (isTopological_of_order? (order_eq_ok_iff.1 h))

theorem exists_order_iff (hg : g.IsProper) : (∃ order, g.order = .ok order) ↔ g.IsAcyclic := by
  constructor
  · rintro ⟨order, ho⟩
    exact (arranges_of_order hg ho).isAcyclic
  · intro h
    obtain ⟨order, ho⟩ := exists_orderFrom h g.nodes
    exact ⟨order, order_eq_ok_iff.2 ho⟩

/-- Headers have an order exactly if their needs do not come back to where they start. It then holds
each header once and after all that it needs, and is the least that does. -/
theorem order_isLeast (hg : g.IsProper) :
    ((∃ order, g.order = .ok order) ↔ g.IsAcyclic) ∧
      ∀ order, g.order = .ok order →
        g.Arranges order ∧ ∀ other, g.Arranges other → order ≤ other := by
  refine ⟨exists_order_iff hg, fun order ho => ⟨arranges_of_order hg ho, fun other h => ?_⟩⟩
  have ht := (isTopological_iff_arranges hg).2 h
  exact orderFrom_le hg.ne g.nodes order (order_eq_ok_iff.1 ho) other ht.perm ht.forward

/-- Two chains of needs that meet: `z` is needed by `b` and `m`, and these by `a`. -/
def diamond : IncludeGraph where
  nodes := ["a", "b", "m", "z"]
  edges := [("b", "a"), ("m", "a"), ("z", "b"), ("z", "m")]

theorem order_isLeast_diamond :
    diamond.IsAcyclic ∧ diamond.order = .ok ["z", "b", "m", "a"] ∧
      diamond.Arranges ["z", "b", "m", "a"] ∧
      ∀ other, diamond.Arranges other → ["z", "b", "m", "a"] ≤ other := by
  have hproper : diamond.IsProper := by
    have hedges : ∀ e ∈ diamond.edges,
        (e.1 ∈ diamond.nodes ∧ e.2 ∈ diamond.nodes) ∧ e.1 ≠ e.2 := by
      decide
    exact ⟨by decide, fun p c he => (hedges _ he).1, fun p c he => (hedges _ he).2⟩
  have horder : diamond.order = .ok ["z", "b", "m", "a"] :=
    order_eq_ok_iff.2 (by decide +kernel)
  obtain ⟨hacyclic, hleast⟩ := order_isLeast hproper
  exact ⟨hacyclic.1 ⟨_, horder⟩, horder, hleast _ horder⟩

end FfiHeaders.IncludeGraph

namespace FfiHeaders.State

theorem isProper_includeGraph {s : State} {g : IncludeGraph} (h : s.includeGraph = .ok g) :
    g.IsProper where
  nodup := nodup_nodes h
  mem p c he := by
    refine ⟨(mem_nodes h).2 (Or.inr ⟨c, he⟩), (mem_nodes h).2 (Or.inl ?_)⟩
    exact ((mem_graph_edges h).1 he).1
  ne p c he := ((mem_graph_edges h).1 he).2.1

end FfiHeaders.State
