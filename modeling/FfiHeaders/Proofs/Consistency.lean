import FfiHeaders.Proofs.AggregateHeader
import FfiHeaders.Proofs.CycleSearch
import FfiHeaders.Proofs.Session
import FfiHeaders.Proofs.WordNames

/-!
# Consistent states

Which states can be finalised, and what is wrong with those that cannot. The checks are made in a
fixed order, so a state with several faults is refused for the first of them.
-/
namespace FfiHeaders.State

variable {s : State}

/-- A header with output mentions a type that another header declares. -/
def Needs (s : State) (p c : String) : Prop :=
  c ∈ s.outputs.keys ∧ p ≠ c ∧ ∃ n ∈ s.mentioned c, s.home? n = some p

/-- The texts from which the guards of all headers are made, that of the aggregate header first. -/
def guardIds (s : State) : List String := Header.aggregateId s.library :: s.outputs.keys

/-- The headers can be told apart, and none needs itself through others. -/
structure IsConsistent (s : State) : Prop where
  aggregate : Header.aggregate s.library ∉ s.outputs.keys
  guards : (s.guardIds.map Header.sanitise).Nodup
  acyclic : ∀ h, ¬Relation.TransGen s.Needs h h

/-- A header has the guard of another one, or that of the aggregate header. -/
def SharesGuard (s : State) (first second : String) : Prop :=
  second ∈ s.outputs.keys ∧ first ≠ second ∧
    (first ∈ s.outputs.keys ∧ Header.sanitise first = Header.sanitise second ∨
      first = Header.aggregate s.library ∧
        Header.sanitise (Header.aggregateId s.library) = Header.sanitise second)

/-- What a state that cannot be finalised is refused for: the first condition that it fails. -/
inductive Refuses (s : State) : Failure → Prop
  | used (h : s.isFinalised) : Refuses s (.reject .finalisedTwice)
  | aggregate (hopen : s.isFinalised = false) (h : Header.aggregate s.library ∈ s.outputs.keys) :
      Refuses s (.reject (.aggregateTaken (Header.aggregate s.library)))
  | guard (hopen : s.isFinalised = false) (ha : Header.aggregate s.library ∉ s.outputs.keys)
      {first second : String} (h : s.SharesGuard first second) :
      Refuses s (.reject (.sharedGuard first second (Header.sanitise second)))
  | cycle (hopen : s.isFinalised = false) (ha : Header.aggregate s.library ∉ s.outputs.keys)
      (hd : (s.guardIds.map Header.sanitise).Nodup) (h : ∃ v, Relation.TransGen s.Needs v v)
      {cycle : List Edge} (hc : ∀ e ∈ cycle, s.Needs e.1 e.2) : Refuses s (.cyclic cycle)

/-! ### The scan for shared guards -/

theorem sharedGuard?_eq_none_iff {seen : List (String × String)} {hs : List String}
    (hn : (seen.map (·.1)).Nodup) :
    sharedGuard? seen hs = none ↔ (seen.map (·.1) ++ hs.map Header.sanitise).Nodup := by
  induction hs generalizing seen with
  | nil => simpa [sharedGuard?] using hn
  | cons h hs ih =>
    rw [sharedGuard?, List.map_cons, List.nodup_middle]
    split
    · next first hf =>
      refine iff_of_false nofun fun hd => ?_
      have hmem : Header.sanitise h ∈ seen.map (·.1) := by
        by_contra hm
        rw [Table.lookup_eq_none_iff.2 hm] at hf
        cases hf
      exact (List.nodup_cons.1 hd).1 (List.mem_append_left _ hmem)
    · next hf =>
      have hnew : (((Header.sanitise h, h) :: seen).map (·.1)).Nodup :=
        List.nodup_cons.2 ⟨Table.lookup_eq_none_iff.1 hf, hn⟩
      exact ih hnew

/-- The scan reports a header whose guard it has met before. -/
theorem exists_of_sharedGuard? {seen : List (String × String)} {hs : List String} {cause : Cause}
    (h : sharedGuard? seen hs = some cause) :
    ∃ first second, cause = .sharedGuard first second (Header.sanitise second) ∧ second ∈ hs ∧
      ((Header.sanitise second, first) ∈ seen ∨
        [first, second].Sublist hs ∧ Header.sanitise first = Header.sanitise second) := by
  induction hs generalizing seen with
  | nil => cases h
  | cons k ks ih =>
    rw [sharedGuard?] at h
    split at h
    · next first hf =>
      obtain rfl := Option.some.inj h
      exact ⟨first, k, rfl, List.mem_cons_self, Or.inl (Table.mem_of_lookup hf)⟩
    · obtain ⟨first, second, rfl, hmem, hor⟩ := ih h
      refine ⟨first, second, rfl, List.mem_cons_of_mem k hmem, ?_⟩
      rcases hor with hseen | ⟨hsub, hsame⟩
      · rcases List.mem_cons.1 hseen with heq | hseen
        · -- the guard was met at `k` itself, which stands before the rest
          obtain ⟨hguard, rfl⟩ := Prod.mk.inj heq
          exact Or.inr ⟨(List.singleton_sublist.2 hmem).cons_cons first, hguard.symm⟩
        · exact Or.inl hseen
      · exact Or.inr ⟨hsub.cons k, hsame⟩

theorem perm_guardIds (s : State) :
    (Header.aggregateId s.library :: sortTexts s.outputs.keys).Perm s.guardIds :=
  (perm_sortTexts s.outputs.keys).cons _

theorem checkGuards_eq_ok_iff :
    s.checkGuards = .ok () ↔ (s.guardIds.map Header.sanitise).Nodup := by
  rw [← ((perm_guardIds s).map Header.sanitise).nodup_iff, List.map_cons]
  have hseen : ([(Header.sanitise (Header.aggregateId s.library), Header.aggregate s.library)].map
      (·.1)).Nodup := List.nodup_singleton _
  refine Iff.trans ?_ (sharedGuard?_eq_none_iff hseen)
  rw [checkGuards]
  split
  · next cause hc => exact iff_of_false (by simp) (by simp [hc])
  · next hc => exact iff_of_true rfl hc

theorem sharesGuard_of_checkGuards {f : Failure} (ha : Header.aggregate s.library ∉ s.outputs.keys)
    (h : s.checkGuards = .error f) :
    ∃ first second, f = .reject (.sharedGuard first second (Header.sanitise second)) ∧
      s.SharesGuard first second := by
  rw [checkGuards] at h
  split at h
  · next cause hc =>
    obtain rfl := Except.error.inj h
    obtain ⟨first, second, rfl, hmem, hor⟩ := exists_of_sharedGuard? hc
    have hsecond : second ∈ s.outputs.keys := mem_sortTexts.1 hmem
    refine ⟨first, second, rfl, hsecond, ?_⟩
    rcases hor with hseen | ⟨hsub, hsame⟩
    · obtain ⟨hguard, rfl⟩ := Prod.mk.inj (List.mem_singleton.1 hseen)
      exact ⟨fun he => ha (he ▸ hsecond), Or.inr ⟨rfl, hguard.symm⟩⟩
    · have hnodup : (sortTexts s.outputs.keys).Nodup :=
        (perm_sortTexts _).nodup_iff.2 s.outputs.nodup_keys
      have hfirst : first ∈ s.outputs.keys := mem_sortTexts.1 (hsub.subset List.mem_cons_self)
      exact ⟨by simpa using hnodup.sublist hsub, Or.inl ⟨hfirst, hsame⟩⟩
  · cases h

/-! ### The include graph -/

theorem leads_iff {g : IncludeGraph} (h : s.includeGraph = .ok g) {u v : String} :
    g.Leads u v ↔ Relation.TransGen s.Needs u v := by
  have hrel : (fun u v => (u, v) ∈ g.edges) = s.Needs := by
    funext u v
    exact propext (mem_graph_edges h)
  rw [IncludeGraph.Leads, hrel]

theorem exists_order_of_acyclic (hs : s.MentionsWords) :
    (∃ g order, s.includeGraph = .ok g ∧ g.order = .ok order) ↔
      ∀ h, ¬Relation.TransGen s.Needs h h := by
  obtain ⟨g, hg⟩ := exists_includeGraph hs
  have horder := IncludeGraph.exists_order_iff (isProper_includeGraph hg)
  simp only [IncludeGraph.IsAcyclic, leads_iff hg] at horder
  rw [← horder]
  constructor
  · rintro ⟨g', order, hg', ho⟩
    obtain rfl : g = g' := Except.ok.inj (hg.symm.trans hg')
    exact ⟨order, ho⟩
  · rintro ⟨order, ho⟩
    exact ⟨g, order, hg, ho⟩

/-! ### Finalising -/

theorem finalise_state (s : State) (customCode : String) :
    (s.finalise customCode).1 = { s with isFinalised := true } := by
  rw [finalise]
  split
  · next h =>
    obtain ⟨libName, decls, deps, outputs, isFinalised⟩ := s
    obtain rfl : isFinalised = true := h
    rfl
  · rfl

theorem exists_finalise_eq_ok (hs : s.MentionsWords) (customCode : String) :
    (∃ b, (s.finalise customCode).2 = .ok b) ↔ s.isFinalised = false ∧ s.IsConsistent := by
  simp only [finalise_eq_ok]
  constructor
  · rintro ⟨b, hb⟩
    obtain ⟨g, hg, ho⟩ := hb.ordered
    exact ⟨hb.isOpen, hb.aggregate_not_mem, checkGuards_eq_ok_iff.1 hb.guards,
      (exists_order_of_acyclic hs).1 ⟨g, b.order, hg, ho⟩⟩
  · rintro ⟨hopen, haggregate, hguards, hacyclic⟩
    obtain ⟨g, order, hg, ho⟩ := (exists_order_of_acyclic hs).2 hacyclic
    exact ⟨⟨order, s.files customCode order⟩, hopen, haggregate, checkGuards_eq_ok_iff.2 hguards,
      ⟨g, hg, ho⟩, rfl⟩

theorem refuses_of_bundle (hs : s.MentionsWords) (hopen : s.isFinalised = false)
    {customCode : String} {f : Failure} (h : s.bundle customCode = .error f) : s.Refuses f := by
  dsimp only [bundle] at h
  split at h
  · next ha =>
    obtain rfl := Except.error.inj h
    exact .aggregate hopen (Table.contains_iff.1 ha)
  · next ha =>
    have ha : Header.aggregate s.library ∉ s.outputs.keys := fun hm => ha (Table.contains_iff.2 hm)
    rcases Result.bind_eq_error.1 h with hguards | ⟨u, hguards, h⟩
    · obtain ⟨first, second, rfl, hshared⟩ := sharesGuard_of_checkGuards ha hguards
      exact .guard hopen ha hshared
    rcases Result.bind_eq_error.1 h with hgraph | ⟨g, hg, h⟩
    · obtain ⟨g, hg⟩ := exists_includeGraph hs
      rw [hg] at hgraph
      cases hgraph
    have hg' := isProper_includeGraph hg
    rcases Result.bind_eq_error.1 h with horder | ⟨order, horder, h⟩
    · have hcyclic : ¬g.IsAcyclic := by
        intro hacyclic
        obtain ⟨order, ho⟩ := (IncludeGraph.exists_order_iff hg').2 hacyclic
        rw [ho] at horder
        cases horder
      rw [IncludeGraph.order_of_not_isAcyclic hg' hcyclic] at horder
      obtain rfl := Except.error.inj horder
      obtain ⟨v, hv⟩ := not_forall_not.1 hcyclic
      refine .cycle hopen ha (checkGuards_eq_ok_iff.1 hguards) ⟨v, (leads_iff hg).1 hv⟩ ?_
      intro e he
      exact (mem_graph_edges hg).1 ((IncludeGraph.isCycle_findCycle hg' hcyclic).mem e he)
    · cases h

theorem refuses_of_finalise (hs : s.MentionsWords) {customCode : String} {f : Failure}
    (h : (s.finalise customCode).2 = .error f) : s.Refuses f := by
  rw [finalise] at h
  split at h
  · next hf =>
    obtain rfl := Except.error.inj h
    exact .used hf
  · next hopen => exact refuses_of_bundle hs (Bool.eq_false_iff.2 hopen) h

/-- Only to finalise twice is a bug. All else that is refused is a fault of the headers. -/
theorem Refuses.level {f : Failure} (h : s.Refuses f) :
    f.diagnostic?.map (·.level) = some (if s.isFinalised then .bug else .error) := by
  cases h with
  | used h => rw [if_pos h]; rfl
  | aggregate hopen | guard hopen | cycle hopen => rw [hopen]; rfl

/-- Finalising gives files exactly for an open and consistent state, and otherwise refuses the state
for the first condition that it fails. It changes nothing but that the state is used up, and a session
gets files at most once. -/
theorem finalise_verdict (hs : s.MentionsWords) (customCode : String) :
    ((∃ b, (s.finalise customCode).2 = .ok b) ↔ s.isFinalised = false ∧ s.IsConsistent) ∧
      (∀ f, (s.finalise customCode).2 = .error f →
        s.Refuses f ∧
          f.diagnostic?.map (·.level) = some (if s.isFinalised then .bug else .error)) ∧
      (s.finalise customCode).1 = { s with isFinalised := true } ∧
      (∀ w : Writer, w.state = (s.finalise customCode).1 →
        ∀ requests, ∀ x ∈ w.finalisations requests, x = .error (.reject .finalisedTwice)) ∧
      ∀ (w : Writer) (requests : List Request),
        (w.finalisations requests).countP (·.isOk) ≤ 1 := by
  refine ⟨exists_finalise_eq_ok hs customCode, fun f h => ?_, finalise_state s customCode, ?_,
    Writer.countP_finalisations_le_one⟩
  · have hf := refuses_of_finalise hs h
    exact ⟨hf, hf.level⟩
  · intro w hw requests
    refine Writer.finalisations_of_isFinalised ?_ requests
    rw [hw]
    exact finalise_isFinalised s customCode

theorem eq_of_needs_lateHomeState {p c : String} (h : lateHomeState.Needs p c) :
    p = "lib/z.h" ∧ c = "lib/a.h" := by
  obtain ⟨-, -, n, hn, hp⟩ := h
  have hmentioned : ∀ e ∈ lateHomeState.deps.entries, e.1 = "lib/a.h" ∧ e.2 = [.word "Node"] := by
    decide +kernel
  rw [mentioned] at hn
  cases hc : lateHomeState.deps.get? c with
  | none =>
    rw [hc] at hn
    cases hn
  | some ns =>
    obtain ⟨rfl, rfl⟩ := hmentioned _ (Table.mem_of_lookup hc)
    rw [hc] at hn
    obtain rfl := List.mem_singleton.1 hn
    exact ⟨(Option.some.inj hp).symm, rfl⟩

theorem finalise_verdict_lateHome :
    lateHomeState.MentionsWords ∧ lateHomeState.IsConsistent ∧
      (∃ b, (lateHomeState.finalise "").2 = .ok b) ∧
      ∀ x ∈ Writer.finalisations ⟨(lateHomeState.finalise "").1, ""⟩
          [.addCustomCode "int x;", .finalise, .finalise], x = .error (.reject .finalisedTwice) := by
  have hwords : lateHomeState.MentionsWords := mentionsWords_of_entries (by decide +kernel)
  have hconsistent : lateHomeState.IsConsistent := by
    refine ⟨by decide, by decide, fun h hh => ?_⟩
    obtain ⟨c, hc, -⟩ := Relation.TransGen.head'_iff.1 hh
    obtain ⟨p, -, hp⟩ := Relation.TransGen.tail'_iff.1 hh
    have hz := (eq_of_needs_lateHomeState hc).1
    have ha := (eq_of_needs_lateHomeState hp).2
    rw [hz] at ha
    exact absurd ha (by decide)
  obtain ⟨hok, -, -, hlater, -⟩ := finalise_verdict hwords ""
  exact ⟨hwords, hconsistent, hok.2 ⟨rfl, hconsistent⟩, hlater _ rfl _⟩

end FfiHeaders.State
