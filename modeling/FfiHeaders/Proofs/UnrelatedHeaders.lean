import FfiHeaders.Proofs.LeastOrder

/-!
# Headers that are related to no other

A header without edges is free from the start and makes no other header free. So it is taken at some
point between two others, which are taken in the same order as without it.
-/
namespace FfiHeaders.IncludeGraph

variable {g g' : IncludeGraph} {v : String}

/-- The second graph has one node more, and the same edges. -/
structure AddsNode (g : IncludeGraph) (v : String) (g' : IncludeGraph) : Prop where
  fresh : v ∉ g.nodes
  nodes : g'.nodes.Perm (v :: g.nodes)
  edges : ∀ p c, (p, c) ∈ g'.edges ↔ (p, c) ∈ g.edges

theorem next?_eq_some_iff {remaining : List String} {u : String} :
    g.next? remaining = some u ↔
      (u ∈ remaining ∧ g.isFree remaining u) ∧ ∀ w ∈ remaining, g.isFree remaining w → u ≤ w := by
  constructor
  · intro h
    refine ⟨⟨mem_of_next? h, isFree_of_next? h⟩, fun w hw hfree => ?_⟩
    exact le_of_least? h w (List.mem_filter.2 ⟨hw, hfree⟩)
  · rintro ⟨hu, hle⟩
    have hmem : u ∈ remaining.filter (g.isFree remaining) := List.mem_filter.2 hu
    cases hw : g.next? remaining with
    | none =>
      rw [least?_eq_none_iff.1 hw] at hmem
      cases hmem
    | some w =>
      have huw : u ≤ w := hle w (mem_of_next? hw) (isFree_of_next? hw)
      exact congrArg some (le_antisymm (le_of_least? hw u hmem) huw)

theorem orderFrom_of_next? {remaining : List String} {u : String}
    (h : g.next? remaining = some u) :
    g.orderFrom remaining = (g.orderFrom (remaining.erase u)).map (u :: ·) := by
  have hne : remaining.isEmpty = false :=
    List.isEmpty_eq_false_iff.2 (List.ne_nil_of_mem (mem_of_next? h))
  rw [orderFrom, hne, if_neg Bool.false_ne_true]
  split
  · next hn => rw [hn] at h; cases h
  · next w hw =>
    obtain rfl : w = u := Option.some.inj (hw.symm.trans h)
    rfl

namespace AddsNode

variable (h : g.AddsNode v g')
include h

theorem not_mem_edges (hg : g.IsProper) (c : String) : (v, c) ∉ g.edges :=
  fun he => h.fresh (hg.mem v c he).1

theorem isAcyclic (ha : g.IsAcyclic) : g'.IsAcyclic := by
  have hleads : g'.Leads = g.Leads := by
    unfold Leads
    simp only [h.edges]
  exact fun w => hleads ▸ ha w

/-- Whether the new node still remains makes no other node free. -/
theorem isFree_iff_erase (hg : g.IsProper) {remaining rest : List String}
    (hrest : rest.Perm (remaining.erase v)) {w : String} :
    g'.isFree remaining w ↔ g.isFree rest w := by
  rw [isFree_iff, isFree_iff]
  refine forall_congr' fun u => ?_
  rw [h.edges]
  refine imp_congr_right fun he => not_congr ?_
  have hu : u ≠ v := by
    rintro rfl
    exact h.not_mem_edges hg w he
  rw [hrest.mem_iff, List.mem_erase_of_ne hu]

/-- What is taken first is also first without the new node, unless it is that node. -/
theorem next?_erase (hg : g.IsProper) {remaining rest : List String}
    (hrest : rest.Perm (remaining.erase v)) {u : String} (hu : g'.next? remaining = some u)
    (hne : u ≠ v) : g.next? rest = some u := by
  obtain ⟨⟨hmem, hfree⟩, hle⟩ := next?_eq_some_iff.1 hu
  refine next?_eq_some_iff.2 ⟨⟨?_, (h.isFree_iff_erase hg hrest).1 hfree⟩, fun w hw hwfree => ?_⟩
  · exact hrest.mem_iff.2 ((List.mem_erase_of_ne hne).2 hmem)
  · exact hle w (List.mem_of_mem_erase (hrest.mem_iff.1 hw))
      ((h.isFree_iff_erase hg hrest).2 hwfree)

/-- The two searches take the same nodes, but for the step in which the new one is taken. -/
theorem orderFrom_erase (hg : g.IsProper) (remaining : List String) :
    remaining.Nodup → ∀ order, g'.orderFrom remaining = some order →
      ∀ rest : List String, rest.Perm (remaining.erase v) →
        g.orderFrom rest = some (order.erase v) := by
  induction remaining using orderFrom.induct g' with
  | case1 remaining hr =>
    intro _ order ho rest hrest
    rw [orderFrom, if_pos hr, Option.some.injEq] at ho
    subst ho
    rw [List.isEmpty_iff.1 hr, List.erase_nil] at hrest
    rw [hrest.eq_nil, orderFrom, if_pos List.isEmpty_nil, List.erase_nil]
  | case2 remaining hr hn =>
    intro _ order ho
    rw [orderFrom, if_neg hr] at ho
    split at ho
    · cases ho
    · next w hw => rw [hn] at hw; cases hw
  | case3 remaining hr u hu ih =>
    intro hnodup order ho rest hrest
    rw [orderFrom_of_next? hu] at ho
    obtain ⟨us, hus, rfl⟩ := Option.map_eq_some_iff.1 ho
    have hih := ih (hnodup.erase u) us hus
    by_cases huv : u = v
    · subst huv
      have hus' : u ∉ us := fun hm =>
        hnodup.not_mem_erase ((orderFrom_sound _ us hus).1.subset hm)
      rw [List.erase_cons_head]
      rw [List.erase_of_not_mem hnodup.not_mem_erase, List.erase_of_not_mem hus'] at hih
      exact hih rest hrest
    · have hnext := h.next?_erase hg hrest hu huv
      have hrest' : (rest.erase u).Perm ((remaining.erase u).erase v) :=
        List.erase_comm (l := remaining) u v ▸ hrest.erase u
      rw [orderFrom_of_next? hnext, hih _ hrest', List.erase_cons_tail (by simpa using huv)]
      rfl

end AddsNode

/-- One more header, which neither needs another nor is needed by one, joins the order of the headers
at some place and leaves the order of the others as it is. -/
theorem order_of_addsNode (hg : g.IsProper) (ha : g.IsAcyclic) (h : g.AddsNode v g') :
    ∃ order order', g.order = .ok order ∧ g'.order = .ok order' ∧ v ∈ order' ∧
      order'.erase v = order := by
  obtain ⟨order', ho'⟩ := exists_orderFrom (h.isAcyclic ha) g'.nodes
  have hnodup : g'.nodes.Nodup := h.nodes.nodup_iff.2 (List.nodup_cons.2 ⟨h.fresh, hg.nodup⟩)
  have hrest : g.nodes.Perm (g'.nodes.erase v) :=
    (List.cons_perm_iff_perm_erase.1 h.nodes.symm).2
  have hmem : v ∈ order' :=
    (orderFrom_sound g'.nodes order' ho').1.mem_iff.2 (h.nodes.mem_iff.2 List.mem_cons_self)
  exact ⟨order'.erase v, order', order_eq_ok_iff.2 (h.orderFrom_erase hg _ hnodup _ ho' _ hrest),
    order_eq_ok_iff.2 ho', hmem, rfl⟩

/-- Two chains of needs that meet: `c` is needed by `b` and `m`, and these by `a`. -/
def kite : IncludeGraph where
  nodes := ["a", "b", "c", "m"]
  edges := [("b", "a"), ("c", "b"), ("c", "m"), ("m", "a")]

/-- The header `f` is included before `m`, which is free no earlier than `b`. -/
theorem order_of_addsNode_kite :
    let wider : IncludeGraph := ⟨["a", "b", "c", "f", "m"], kite.edges⟩
    kite.IsProper ∧ kite.IsAcyclic ∧ kite.AddsNode "f" wider ∧
      wider.order = .ok ["c", "b", "f", "m", "a"] ∧ kite.order = .ok ["c", "b", "m", "a"] := by
  intro wider
  have hproper : kite.IsProper := by
    have hedges : ∀ e ∈ kite.edges, (e.1 ∈ kite.nodes ∧ e.2 ∈ kite.nodes) ∧ e.1 ≠ e.2 := by
      decide
    exact ⟨by decide, fun p c he => (hedges _ he).1, fun p c he => (hedges _ he).2⟩
  have hwider : wider.order = .ok ["c", "b", "f", "m", "a"] :=
    order_eq_ok_iff.2 (by decide +kernel)
  have hacyclic : kite.IsAcyclic :=
    (exists_order_iff hproper).1 ⟨["c", "b", "m", "a"], order_eq_ok_iff.2 (by decide +kernel)⟩
  have hadds : kite.AddsNode "f" wider := ⟨by decide, by decide, fun _ _ => Iff.rfl⟩
  obtain ⟨order, order', ho, ho', -, he⟩ := order_of_addsNode hproper hacyclic hadds
  obtain rfl : _ = order' := Except.ok.inj (hwider.symm.trans ho')
  exact ⟨hproper, hacyclic, hadds, hwider, ho.trans (congrArg Except.ok he.symm)⟩

end FfiHeaders.IncludeGraph
