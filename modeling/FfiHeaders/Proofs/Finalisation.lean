import FfiHeaders.Header.Bundle
import FfiHeaders.Proofs.IncludeOrder

/-!
# Finished states

What is known of a state that has been finalised with success, and of the files made from it.
-/
namespace FfiHeaders

namespace Text

/-- `kept` is the text up to the last character that fails `p`. -/
structure IsTrimmed (p : Char → Bool) (text kept : String) : Prop where
  append : ∃ tail, text = kept ++ tail ∧ ∀ c ∈ tail.toList, p c
  last : ∀ c ∈ kept.toList.getLast?, p c = false

theorem isTrimmed_dropEndWhile (p : Char → Bool) (text : String) :
    IsTrimmed p text (String.ofList (dropEndWhile p text.toList)) where
  append := by
    obtain ⟨t, ht, hp⟩ := exists_dropEndWhile_append p text.toList
    refine ⟨String.ofList t, ?_, by rwa [String.toList_ofList]⟩
    rw [← String.ofList_append, ← ht, String.ofList_toList]
  last c hc := by
    rw [String.toList_ofList] at hc
    exact not_of_getLast?_dropEndWhile hc

end Text

namespace State

variable {s : State} {customCode : String} {b : Bundle}

/-- What finalising with success says about the state and the files. -/
structure Finishes (s : State) (customCode : String) (b : Bundle) : Prop where
  isOpen : s.isFinalised = false
  aggregate_not_mem : Header.aggregate s.library ∉ s.outputs.keys
  guards : s.checkGuards = .ok ()
  ordered : ∃ g, s.includeGraph = .ok g ∧ g.order = .ok b.order
  files : b.files = s.files customCode b.order

theorem finalise_eq_ok : (s.finalise customCode).2 = .ok b ↔ s.Finishes customCode b := by
  constructor
  · intro h
    unfold finalise at h
    split at h
    · cases h
    · next hf =>
      change s.bundle customCode = .ok b at h
      dsimp only [bundle] at h
      split at h
      · cases h
      · next ha =>
        obtain ⟨u, hg, h⟩ := Result.bind_eq_ok.1 h
        obtain ⟨g, hi, h⟩ := Result.bind_eq_ok.1 h
        obtain ⟨order, ho, h⟩ := Result.bind_eq_ok.1 h
        cases h
        exact ⟨by simpa using hf, fun hm => ha (Table.contains_iff.2 hm), hg, ⟨g, hi, ho⟩, rfl⟩
  · intro h
    obtain ⟨g, hi, ho⟩ := h.ordered
    have ha : s.outputs.contains (Header.aggregate s.library) = false :=
      Bool.eq_false_iff.2 fun hc => h.aggregate_not_mem (Table.contains_iff.1 hc)
    have hb : s.bundle customCode = .ok ⟨b.order, s.files customCode b.order⟩ := by
      dsimp only [bundle]
      rw [if_neg (by simp [ha]), h.guards, hi]
      change (g.order >>= fun order =>
        (.ok ⟨order, s.files customCode order⟩ : Except Failure Bundle)) = _
      rw [ho]
      rfl
    rw [finalise, if_neg (by simp [h.isOpen]), hb, ← h.files]

/-- A state with one header, whose texts mention nothing, finishes unless the header goes by the name or
the guard of the aggregate header. -/
theorem finishes_of_single {h : String} (hopen : s.isFinalised = false) (hkeys : s.outputs.keys = [h])
    (hdeps : s.deps.keys = []) (haggregate : h ≠ Header.aggregate s.library)
    (hguard : Header.sanitise h ≠ Header.sanitise (Header.aggregateId s.library)) :
    s.Finishes customCode ⟨[h], s.files customCode [h]⟩ := by
  have hsorted : sortTexts s.outputs.keys = [h] := by
    rw [hkeys]
    exact List.mergeSort_singleton h
  have hneedy : sortTexts (s.deps.keys.filter fun k => s.outputs.contains k) = [] := by
    rw [hdeps]
    exact List.mergeSort_nil
  have hguards : s.checkGuards = .ok () := by
    rw [checkGuards, hsorted]
    dsimp only [sharedGuard?, Table.lookup]
    rw [if_neg hguard.symm]
  have hgraph : s.includeGraph = .ok ⟨[h], []⟩ := by
    rw [includeGraph, includeEdges, hneedy, hsorted]
    rfl
  refine ⟨hopen, ?_, hguards, ⟨_, hgraph, ?_⟩, rfl⟩
  · rw [hkeys]
    exact fun hm => haggregate (List.mem_singleton.1 hm).symm
  · rw [IncludeGraph.order, IncludeGraph.order?_singleton]

theorem mismatch_of_includeGraph {f : Failure} (h : s.includeGraph = .error f) :
    ∃ m, f = .mismatch m := by
  unfold includeGraph includeEdges at h
  rcases Result.bind_eq_error.1 h with h | ⟨edges, -, h⟩
  · rcases Result.bind_eq_error.1 h with h | ⟨groups, -, h⟩
    · obtain ⟨k, -, hk⟩ := Result.exists_of_mapM_error h
      split at hk
      · cases hk
      · cases hk
        exact ⟨_, rfl⟩
    · cases h
  · cases h

theorem exists_cycle_of_order {g : IncludeGraph} {f : Failure} (h : g.order = .error f) :
    ∃ cycle, f = .cyclic cycle := by
  unfold IncludeGraph.order at h
  split at h
  · cases h
  · cases h
    exact ⟨_, rfl⟩

/-- What stops the making of the headers: the path of one of them, their guards, a name without a place
in the order of names, or headers that need each other. -/
theorem bundle_eq_error {f : Failure} (h : s.bundle customCode = .error f) :
    (Header.aggregate s.library ∈ s.outputs.keys ∧
        f = .reject (.aggregateTaken (Header.aggregate s.library))) ∨
      (Header.aggregate s.library ∉ s.outputs.keys ∧ s.checkGuards = .error f) ∨
      (∃ m, f = .mismatch m) ∨ ∃ cycle, f = .cyclic cycle := by
  dsimp only [bundle] at h
  split at h
  · next ha =>
    have hf := Except.error.inj h
    exact Or.inl ⟨Table.contains_iff.1 ha, hf.symm⟩
  · next ha =>
    rcases Result.bind_eq_error.1 h with h | ⟨u, -, h⟩
    · exact Or.inr (Or.inl ⟨fun hm => ha (Table.contains_iff.2 hm), h⟩)
    rcases Result.bind_eq_error.1 h with h | ⟨g, -, h⟩
    · exact Or.inr (Or.inr (Or.inl (mismatch_of_includeGraph h)))
    rcases Result.bind_eq_error.1 h with h | ⟨order, -, h⟩
    · exact Or.inr (Or.inr (Or.inr (exists_cycle_of_order h)))
    · cases h

theorem files_keys (s : State) (customCode : String) (order : List String) :
    (s.files customCode order).map (·.1) =
      sortTexts s.outputs.keys ++ [Header.aggregate s.library] := by
  simp [State.files, Function.comp_def]

namespace Finishes

variable (h : s.Finishes customCode b)
include h

theorem nodup_keys : (b.files.map (·.1)).Nodup := by
  rw [h.files, files_keys]
  refine List.nodup_append.2 ⟨(perm_sortTexts _).nodup_iff.2 s.outputs.nodup_keys, by simp, ?_⟩
  rintro k hk _ hl rfl
  rw [List.mem_singleton] at hl
  exact h.aggregate_not_mem (hl ▸ mem_sortTexts.1 hk)

theorem mem_keys {k : String} :
    k ∈ b.files.map (·.1) ↔ k = Header.aggregate s.library ∨ k ∈ s.outputs.keys := by
  rw [h.files, files_keys, List.mem_append, mem_sortTexts, List.mem_singleton, or_comm]

theorem mem_module_file {k : String} (hk : k ∈ s.outputs.keys) :
    (k, moduleHeader k (s.output k)) ∈ b.files := by
  rw [h.files]
  exact List.mem_append_left _ (List.mem_map.2 ⟨k, mem_sortTexts.2 hk, rfl⟩)

theorem mem_aggregate_file :
    (Header.aggregate s.library, aggregateHeader s.library customCode b.order) ∈ b.files := by
  rw [h.files]
  exact List.mem_append_right _ (List.mem_singleton.2 rfl)

/-- The headers are ordered each once, and none stands before a header that it needs. -/
theorem order_of_homes (hs : ∀ n k, s.home? n = some k → k ∈ s.outputs.keys) :
    b.order.Nodup ∧ (∀ k, k ∈ b.order ↔ k ∈ s.outputs.keys) ∧
      ∀ c n p, c ∈ s.outputs.keys → n ∈ s.mentioned c → s.home? n = some p → p ≠ c →
        [p, c].Sublist b.order := by
  obtain ⟨g, hg, ho⟩ := h.ordered
  have ht := IncludeGraph.isTopological_of_order? (IncludeGraph.order?_of_order ho)
  have hnodes : ∀ k, k ∈ g.nodes ↔ k ∈ s.outputs.keys := by
    intro k
    rw [mem_nodes hg]
    refine ⟨fun hk => hk.elim id ?_, Or.inl⟩
    rintro ⟨c, hc⟩
    obtain ⟨-, -, n, -, hn⟩ := (mem_graph_edges hg).1 hc
    exact hs n k hn
  refine ⟨ht.perm.nodup_iff.2 (nodup_nodes hg), fun k => ht.perm.mem_iff.trans (hnodes k), ?_⟩
  intro c n p hc hn hp hne
  exact ht.sublist_of_edge ((mem_graph_edges hg).2 ⟨hc, hne, n, hn, hp⟩) hne
    ((hnodes p).2 (hs n p hp)) ((hnodes c).2 hc)

end Finishes

end State

end FfiHeaders
