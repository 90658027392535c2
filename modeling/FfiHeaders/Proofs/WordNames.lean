import FfiHeaders.Proofs.IncludeOrder

/-!
# Names that are words

Words have an order of their own, so a state that mentions nothing but words has an include graph.
-/
namespace FfiHeaders

theorem sorted_sortTexts (ss : List String) : (sortTexts ss).Pairwise (· ≤ ·) := by
  have htrans : ∀ a b c : String, decide (a ≤ b) → decide (b ≤ c) → decide (a ≤ c) := by
    intro a b c hab hbc
    exact decide_eq_true (String.le_trans (of_decide_eq_true hab) (of_decide_eq_true hbc))
  have htotal : ∀ a b : String, decide (a ≤ b) || decide (b ≤ a) := by
    intro a b
    simpa using String.le_total a b
  have h := List.pairwise_mergeSort htrans htotal ss
  exact h.imp (by simp)

theorem sortTexts_congr {ss ts : List String} (h : ss.Perm ts) : sortTexts ss = sortTexts ts := by
  have hp : (sortTexts ss).Perm (sortTexts ts) :=
    (perm_sortTexts ss).trans (h.trans (perm_sortTexts ts).symm)
  exact hp.eq_of_pairwise (fun _ _ _ _ => String.le_antisymm) (sorted_sortTexts ss)
    (sorted_sortTexts ts)

namespace Symbol

theorem isWord_iff {s : Symbol} : s.isWord ↔ ∃ n, s = word n := by
  cases s <;> simp [isWord]

theorem exists_words {ss : List Symbol} (h : ∀ s ∈ ss, s.isWord) : ∃ ns : List String, ss = ns.map word := by
  induction ss with
  | nil => exact ⟨[], rfl⟩
  | cons s ss ih =>
    obtain ⟨hs, hss⟩ := List.forall_mem_cons.1 h
    obtain ⟨n, rfl⟩ := isWord_iff.1 hs
    obtain ⟨ns, rfl⟩ := ih hss
    exact ⟨n :: ns, rfl⟩

theorem sorted?_words (ns : List String) :
    sorted? (ns.map word) = some ((sortTexts ns).map word) := by
  match ns with
  | [] => rw [sortTexts, List.mergeSort_nil]; rfl
  | [n] => rw [sortTexts, List.mergeSort_singleton]; rfl
  | n :: m :: ns =>
    have hmap := List.map_mergeSort (r := fun a b : String => decide (a ≤ b))
      (s := fun a b => (precedes? a b).getD true) (f := word) (l := n :: m :: ns)
      (fun _ _ _ _ => rfl)
    rw [sortTexts, hmap]
    refine if_pos (List.all_eq_true.2 fun t ht => ?_)
    obtain ⟨k, -, rfl⟩ := List.mem_map.1 ht
    rfl

end Symbol

namespace State

/-- No header mentions a type by anything but a word. -/
def MentionsWords (s : State) : Prop := ∀ h, ∀ n ∈ s.mentioned h, n.isWord

theorem mentionsWords_of_entries {s : State} (h : ∀ e ∈ s.deps.entries, ∀ n ∈ e.2, n.isWord) :
    s.MentionsWords := by
  intro k n hn
  rw [mentioned] at hn
  cases hk : s.deps.get? k with
  | none =>
    rw [hk] at hn
    cases hn
  | some ns =>
    rw [hk] at hn
    exact h _ (Table.mem_of_lookup hk) n hn

theorem exists_includeEdges {s : State} (hs : s.MentionsWords) :
    ∃ edges, s.includeEdges = .ok edges := by
  refine Result.exists_bind (Result.exists_mapM fun h _ => ?_) fun groups => ⟨groups.flatten, rfl⟩
  obtain ⟨ns, hns⟩ := Symbol.exists_words (hs h)
  rw [hns, Symbol.sorted?_words]
  exact ⟨_, rfl⟩

theorem exists_includeGraph {s : State} (hs : s.MentionsWords) : ∃ g, s.includeGraph = .ok g :=
  Result.exists_bind (exists_includeEdges hs) fun _ => ⟨_, rfl⟩

end State

end FfiHeaders
