import FfiHeaders.Proofs.EmissionOrder
import FfiHeaders.Proofs.Needs
import FfiHeaders.Proofs.SessionInvariant

/-!
# What a rejected declaration leaves behind

A rejected declaration writes nothing and declares nothing, but its header goes on mentioning the user
types that were met before the fault. Later calls do not notice. Once the headers are put in order, each
of these names may make the header need the home of the name, and that is all it can do.
-/
namespace FfiHeaders

namespace State

variable {s t u v : State} {k customCode : String} {names : List String} {g : IncludeGraph}

/-- What calls made one after the other result in. -/
def outcomes (s : State) : List Call → List (Except Failure Outcome)
  | [] => []
  | c :: cs =>
    (s.emitItem c.module c.item).2 :: (s.emitItem c.module c.item).1.outcomes cs

/-! ### Outcomes -/

theorem write_outcome (s t : State) (h : String) (d : Declaration) :
    (s.write h d).2 = (t.write h d).2 := by
  unfold write
  dsimp only
  split
  · rfl
  · split
    · split <;> rfl
    · rfl

/-- What an emission results in depends on the name of the library only. -/
theorem emit_outcome (h : s.libName = t.libName) (module : List Value) (d : Declaration) :
    (s.emit module d).2 = (t.emit module d).2 := by
  unfold emit
  rw [h]
  split
  · rfl
  · rfl
  · split
    · rfl
    · split
      · rfl
      · exact write_outcome s t _ d

theorem outcomes_eq (h : s.libName = t.libName) (cs : List Call) : s.outcomes cs = t.outcomes cs := by
  induction cs generalizing s t with
  | nil => rfl
  | cons c cs ih =>
    have hhead : (s.emitItem c.module c.item).2 = (t.emitItem c.module c.item).2 := by
      obtain ⟨module, item⟩ := c
      cases item with
      | declaration d => exact emit_outcome h module d
      | module name items => rfl
    have hlib : (s.emitItem c.module c.item).1.libName = (t.emitItem c.module c.item).1.libName := by
      rw [(emitItem_extends s c.module c.item).libName, h, (emitItem_extends t c.module c.item).libName]
    rw [outcomes, outcomes, hhead, ih hlib]

/-! ### More mentions -/

/-- The second state is the first one, but for the names that the header `k` mentions besides. -/
structure MentionsMore (k : String) (names : List String) (s t : State) : Prop where
  libName : t.libName = s.libName
  isFinalised : t.isFinalised = s.isFinalised
  outputs : t.outputs = s.outputs
  decls : t.decls = s.decls
  mentioned (h n : String) : .word n ∈ t.mentioned h ↔ .word n ∈ s.mentioned h ∨ h = k ∧ n ∈ names

theorem mentionsMore_addMentions (s : State) (k : String) (names : List String) :
    MentionsMore k names s (s.addMentions k (names.map .word)) where
  libName := addMentions_libName s k _
  isFinalised := addMentions_isFinalised s k _
  outputs := addMentions_outputs s k _
  decls := addMentions_decls s k _
  mentioned h n := by
    rw [word_mem_mentioned_addMentions, eq_comm (a := k)]
    simp

namespace MentionsMore

variable (h : MentionsMore k names s t)
include h

theorem eq : t = { s with deps := t.deps } := by
  obtain ⟨hlib, hfinalised, houtputs, hdecls, -⟩ := h
  cases t
  simp_all

theorem home? : t.home? = s.home? := by
  funext n
  rw [State.home?, h.decls, State.home?]

theorem receive (p : Deposit) : MentionsMore k names (s.receive p) (t.receive p) where
  libName := by rw [receive_libName, receive_libName, h.libName]
  isFinalised := by rw [receive_isFinalised, receive_isFinalised, h.isFinalised]
  outputs := by
    rw [receive_outputs, receive_outputs, output_of_outputs h.outputs, h.outputs]
  decls := by rw [receive_decls, receive_decls, h.decls]
  mentioned k' n := by
    have hreceive : ∀ r : State, (r.receive p).mentioned k' =
        (r.addMentions p.header p.mentions).mentioned k' := by
      intro r
      rw [State.mentioned, receive_deps, State.mentioned]
    rw [hreceive, hreceive, word_mem_mentioned_addMentions, word_mem_mentioned_addMentions,
      h.mentioned]
    exact or_right_comm

theorem run (cs : List Call) : MentionsMore k names (s.run cs) (t.run cs) := by
  rw [run_eq_foldl, run_eq_foldl, h.libName]
  induction cs.filterMap (Call.deposit? s.libName) generalizing s t with
  | nil => exact h
  | cons p ps ih => exact ih (h.receive p)

end MentionsMore

/-! ### Needs -/

/-- The names make the header `k`, which mentions them, need the header `p`. -/
def AddsNeed (s : State) (k : String) (names : List String) (p : String) : Prop :=
  k ∈ s.outputs.keys ∧ p ≠ k ∧ ∃ n ∈ names, s.home? (.word n) = some p

theorem needs_iff_words (hs : s.MentionsWords) {p c : String} :
    s.Needs p c ↔
      c ∈ s.outputs.keys ∧ p ≠ c ∧ ∃ n, .word n ∈ s.mentioned c ∧ s.home? (.word n) = some p := by
  refine and_congr_right fun _ => and_congr_right fun _ => ?_
  constructor
  · rintro ⟨m, hm, hp⟩
    obtain ⟨n, rfl⟩ := Symbol.isWord_iff.1 (hs c m hm)
    exact ⟨n, hm, hp⟩
  · rintro ⟨n, hn, hp⟩
    exact ⟨.word n, hn, hp⟩

theorem MentionsMore.needs_iff (h : MentionsMore k names s t) (hs : s.MentionsWords)
    (ht : t.MentionsWords) {p c : String} :
    t.Needs p c ↔ s.Needs p c ∨ c = k ∧ s.AddsNeed k names p := by
  rw [needs_iff_words hs, needs_iff_words ht, h.outputs, h.home?]
  simp only [h.mentioned, or_and_right, exists_or, and_or_left]
  refine or_congr_right ?_
  constructor
  · rintro ⟨hc, hne, n, ⟨rfl, hn⟩, hp⟩
    exact ⟨rfl, hc, hne, n, hn, hp⟩
  · rintro ⟨rfl, hc, hne, n, hn, hp⟩
    exact ⟨hc, hne, n, ⟨rfl, hn⟩, hp⟩

/-! ### Finished headers -/

/-- What is checked before the headers are put in order. -/
def admission (s : State) : Except Failure Unit :=
  if s.isFinalised then .error (.reject .finalisedTwice)
  else if s.outputs.contains (Header.aggregate s.library) then
    .error (.reject (.aggregateTaken (Header.aggregate s.library)))
  else s.checkGuards

theorem finalise_eq_admission (hg : s.includeGraph = .ok g) (customCode : String) :
    (s.finalise customCode).2 =
      (s.admission >>= fun _ => g.order >>= fun order => .ok ⟨order, s.files customCode order⟩) := by
  unfold finalise admission
  by_cases hf : s.isFinalised
  · rw [if_pos hf, if_pos hf]
    rfl
  · rw [if_neg hf, if_neg hf]
    dsimp only [bundle]
    rw [hg]
    split
    · rfl
    · rfl

/-- A state that is admitted has files or a cycle. -/
theorem finalise_of_admission (hg : s.includeGraph = .ok g) (h : s.admission = .ok ())
    (customCode : String) :
    (∃ b, (s.finalise customCode).2 = .ok b) ∨
      ∃ cycle, (s.finalise customCode).2 = .error (.cyclic cycle) := by
  rw [finalise_eq_admission hg, h]
  cases ho : g.order with
  | ok order => exact Or.inl ⟨_, rfl⟩
  | error e =>
    obtain ⟨cycle, rfl⟩ := exists_cycle_of_order ho
    exact Or.inr ⟨cycle, rfl⟩

/-- How the headers of a state `u` and those of a state `v` that mentions `names` at the header `k`
besides are finished. -/
structure FinishAlike (k : String) (names : List String) (u v : State) (customCode : String) :
    Prop where
  needs (p c : String) : v.Needs p c ↔ u.Needs p c ∨ c = k ∧ u.AddsNeed k names p
  same (h : ∀ p, u.AddsNeed k names p → u.Needs p k) :
    (v.finalise customCode).2 = (u.finalise customCode).2
  /-- There are no files but those of `u`, up to the order of includes. -/
  files (b : Bundle) (h : (v.finalise customCode).2 = .ok b) :
    ∃ b', (u.finalise customCode).2 = .ok b' ∧ b.order.Perm b'.order ∧
      b.files = u.files customCode b.order
  /-- There are no failures but those of `u` and cycles. -/
  failure (f : Failure) (h : (v.finalise customCode).2 = .error f) :
    (u.finalise customCode).2 = .error f ∨
      (∃ cycle, f = .cyclic cycle) ∧
        ((∃ b, (u.finalise customCode).2 = .ok b) ∨
          ∃ cycle, (u.finalise customCode).2 = .error (.cyclic cycle))

theorem exists_order_of_needs (hg : u.includeGraph = .ok g) {g' : IncludeGraph}
    (hg' : v.includeGraph = .ok g') (hneeds : ∀ p c, u.Needs p c → v.Needs p c)
    (h : ∃ order, g'.order = .ok order) : ∃ order, g.order = .ok order := by
  have hacyclic := (IncludeGraph.exists_order_iff (isProper_includeGraph hg')).1 h
  refine (IncludeGraph.exists_order_iff (isProper_includeGraph hg)).2 fun w hw => ?_
  refine hacyclic w (Relation.TransGen.mono (fun p c he => ?_) w w hw)
  exact (mem_graph_edges hg').2 (hneeds p c ((mem_graph_edges hg).1 he))

theorem perm_order (hu : u.HomesHaveOutput) (hg : u.includeGraph = .ok g) {order : List String}
    (h : g.order = .ok order) : order.Perm u.outputs.keys := by
  have harranges := IncludeGraph.arranges_of_order (isProper_includeGraph hg) h
  refine (List.perm_ext_iff_of_nodup harranges.nodup u.outputs.nodup_keys).2 fun w => ?_
  rw [harranges.mem, nodes_of_homesHaveOutput hu hg, mem_sortTexts]

/-- What is checked and what is written do not depend on what the headers mention. -/
theorem MentionsMore.finalise_eq (h : MentionsMore k names u v) (hg : v.includeGraph = .ok g)
    (customCode : String) :
    (v.finalise customCode).2 =
      (u.admission >>= fun _ => g.order >>= fun order => .ok ⟨order, u.files customCode order⟩) := by
  have hadmission : v.admission = u.admission := by
    rw [h.eq]
    rfl
  have hfiles : v.files customCode = u.files customCode := by
    rw [h.eq]
    rfl
  rw [finalise_eq_admission hg, hadmission, hfiles]

theorem MentionsMore.finishAlike (h : MentionsMore k names u v) {cs ds : List Call}
    (hu : u.IsSound cs) (hv : v.IsSound ds) (customCode : String) :
    FinishAlike k names u v customCode := by
  obtain ⟨g, hg⟩ := exists_includeGraph hu.words
  obtain ⟨g', hg'⟩ := exists_includeGraph hv.words
  have hneeds : ∀ p c, v.Needs p c ↔ u.Needs p c ∨ c = k ∧ u.AddsNeed k names p :=
    fun p c => h.needs_iff hu.words hv.words
  have hfinal := finalise_eq_admission hg customCode
  have hfinal' := h.finalise_eq hg' customCode
  refine ⟨hneeds, fun hsame => ?_, fun b hb => ?_, fun f hf => ?_⟩
  · have horder : g.order = g'.order := by
      refine order_congr_of_needs hu.homes hv.homes hg hg' h.outputs.symm fun p c => ?_
      rw [hneeds]
      refine (or_iff_left_of_imp ?_).symm
      rintro ⟨rfl, hp⟩
      exact hsame p hp
    rw [hfinal, hfinal', horder]
  · rw [hfinal'] at hb
    obtain ⟨x, hx, hb⟩ := Result.bind_eq_ok.1 hb
    obtain ⟨order', ho', hb⟩ := Result.bind_eq_ok.1 hb
    obtain ⟨order, ho⟩ :=
      exists_order_of_needs hg hg' (fun p c hp => (hneeds p c).2 (Or.inl hp)) ⟨order', ho'⟩
    cases hb
    refine ⟨⟨order, u.files customCode order⟩, ?_, ?_, rfl⟩
    · rw [hfinal, hx, ho]
      rfl
    · have hperm := perm_order hv.homes hg' ho'
      rw [h.outputs] at hperm
      exact hperm.trans (perm_order hu.homes hg ho).symm
  · rw [hfinal'] at hf
    rcases Result.bind_eq_error.1 hf with hx | ⟨x, hx, hf⟩
    · exact Or.inl (by rw [hfinal, hx]; rfl)
    · rcases Result.bind_eq_error.1 hf with ho' | ⟨order', -, hf⟩
      · exact Or.inr ⟨exists_cycle_of_order ho', finalise_of_admission hg hx customCode⟩
      · cases hf

/-! ### Rejected declarations -/

/-- A declaration that fails leaves nothing, or at its header the names that were met before the
fault. -/
theorem exists_leftovers {module : List Value} {d : Declaration} (hd : d.hasTextNames) {f : Failure}
    (h : s.emit module d = (t, .error f)) :
    ∃ k names, (∀ n ∈ names, n ∈ d.userTypes) ∧
      (names ≠ [] →
        Header.ofModule s.libName module = .ok k ∧ d.render.mentions = names.map .word) ∧
      t = s.addMentions k (names.map .word) := by
  have he := emission_emit s module d
  rw [h] at he
  cases he with
  | unread | unfit | homeless =>
    exact ⟨"", [], List.forall_mem_nil _, fun hne => absurd rfl hne, rfl⟩
  | unwritten k _ _ _ hm _ =>
    have hconfined := Declaration.isConfined_render hd
    obtain ⟨names, hnames⟩ : ∃ names : List String, d.render.mentions = names.map .word := by
      refine Symbol.exists_words fun n hn => ?_
      obtain ⟨m, -, rfl⟩ := hconfined.mentions n hn
      rfl
    refine ⟨k, names, fun n hn => ?_, fun _ => ⟨hm, hnames⟩, by rw [hnames]⟩
    obtain ⟨m, hm, hnm⟩ :=
      hconfined.mentions (.word n) (hnames ▸ List.mem_map_of_mem hn)
    cases hnm
    exact hm
  | nameless _ _ _ _ _ _ _ hn =>
    rw [Declaration.ofValue?_name hd] at hn
    cases hn

end State

namespace Writer

/-- In any session a declaration that fails leaves at its header the names that were met before the
fault, if it leaves any. Later calls result in the same and leave the same behind, besides these names,
and the headers are finished as if the declaration had not been there, unless one of the names gives its
header a need that it does not have anyway. -/
theorem leftovers_of_emit (libName : Value) (customCode : String) (rs : List Request)
    (hrs : ∀ r ∈ rs, ∀ d ∈ r.declarations, d.hasTextNames) {s t : State}
    (hs : s = ((new libName customCode).session rs).state) {module : List Value} {d : Declaration}
    (hd : d.hasTextNames) {f : Failure} (h : s.emit module d = (t, .error f)) :
    ∃ k names, (∀ n ∈ names, n ∈ d.userTypes) ∧
      (names ≠ [] →
        Header.ofModule s.libName module = .ok k ∧ d.render.mentions = names.map .word) ∧
      t = s.addMentions k (names.map .word) ∧
      ∀ cs : List Call, (∀ c ∈ cs, ∀ e, c.item = .declaration e → e.hasTextNames) →
        t.outcomes cs = s.outcomes cs ∧
          t.run cs = { s.run cs with deps := (t.run cs).deps } ∧
          ∀ code, State.FinishAlike k names (s.run cs) (t.run cs) code := by
  have hsound := isSound_session (w := new libName customCode) (State.isSound_initial libName) hrs
  rw [← hs] at hsound
  have hsound' := (State.emission_emit s module d).isSound hsound hd
  rw [h] at hsound'
  obtain ⟨k, names, hnames, hk, ht⟩ := State.exists_leftovers hd h
  refine ⟨k, names, hnames, hk, ht, fun cs hcs => ?_⟩
  have hmore := State.mentionsMore_addMentions s k names
  rw [← ht] at hmore
  have hrun := hmore.run cs
  exact ⟨State.outcomes_eq hmore.libName cs, hrun.eq,
    hrun.finishAlike (hsound.run hcs) (hsound'.run hcs)⟩

/-- An alias in the header of a rejected function, and a struct of another header that needs it. The
function has mentioned the struct. -/
def linkedCalls : List Call :=
  [⟨[.text "ffi", .text "a"], .declaration idAlias⟩, State.nodeCall]

/-- The state after `linkedCalls`, where the headers mention the names in `deps`. -/
def linkedState (deps : Table String (List Symbol)) : State where
  libName := .text "lib"
  decls := ⟨[(.word "Id", "lib/a.h"), (.word "Node", "lib/z.h")], by decide⟩
  deps := deps
  outputs :=
    ⟨[("lib/a.h", "typedef uint32_t Id;\n\n"),
      ("lib/z.h", "typedef struct Node \x7b\n\tId id;\n\x7d Node;\n\n")], by decide⟩
  isFinalised := false

/-- A rejected declaration can bring about a cycle. -/
theorem exists_cycle_of_rejection :
    ∃ t f, ((new (.text "lib") "").session []).state.emit [.text "ffi", .text "a"]
        State.swapFunction = (t, .error f) ∧ f.IsRejection ∧
      (∃ b, ((((new (.text "lib") "").session []).state.run linkedCalls).finalise "").2 = .ok b) ∧
      ((t.run linkedCalls).finalise "").2 =
        .error (.cyclic [("lib/a.h", "lib/z.h"), ("lib/z.h", "lib/a.h")]) := by
  have hsorted : sortTexts ["lib/a.h", "lib/z.h"] = ["lib/a.h", "lib/z.h"] :=
    List.mergeSort_of_pairwise (by decide)
  have hguards : (["lib_root", "lib/a.h", "lib/z.h"].map Header.sanitise).Nodup := by decide
  have hkeys : ∀ deps, sortTexts (linkedState deps).outputs.keys = ["lib/a.h", "lib/z.h"] :=
    fun _ => hsorted
  have hadmission : ∀ deps, (linkedState deps).admission = .ok () :=
    fun deps => State.checkGuards_eq_ok_iff (s := linkedState deps).2 hguards
  refine ⟨_, _, rfl, ⟨_, _, rfl⟩, ?_, ?_⟩
  · let deps : Table String (List Symbol) := ⟨[("lib/z.h", [.word "Id"])], by decide⟩
    have hrun : ((new (.text "lib") "").session []).state.run linkedCalls = linkedState deps := rfl
    have hneedy : sortTexts ((linkedState deps).deps.keys.filter fun h =>
        (linkedState deps).outputs.contains h) = ["lib/z.h"] := List.mergeSort_singleton _
    have hgraph : (linkedState deps).includeGraph =
        .ok ⟨["lib/a.h", "lib/z.h"], [("lib/a.h", "lib/z.h")]⟩ := by
      rw [State.includeGraph, State.includeEdges, hneedy, hkeys]
      rfl
    have horder : IncludeGraph.order ⟨["lib/a.h", "lib/z.h"], [("lib/a.h", "lib/z.h")]⟩ =
        .ok ["lib/a.h", "lib/z.h"] :=
      IncludeGraph.order_eq_ok_iff.2 (by decide +kernel)
    rw [hrun, State.finalise_eq_admission hgraph, hadmission, horder]
    exact ⟨_, rfl⟩
  · let deps : Table String (List Symbol) :=
      ⟨[("lib/a.h", [.word "Node"]), ("lib/z.h", [.word "Id"])], by decide⟩
    change ((linkedState deps).finalise "").2 = _
    have hneedy : sortTexts ((linkedState deps).deps.keys.filter fun h =>
        (linkedState deps).outputs.contains h) = ["lib/a.h", "lib/z.h"] :=
      List.mergeSort_of_pairwise (by decide)
    have hgraph : (linkedState deps).includeGraph =
        .ok ⟨["lib/a.h", "lib/z.h"], [("lib/z.h", "lib/a.h"), ("lib/a.h", "lib/z.h")]⟩ := by
      rw [State.includeGraph, State.includeEdges, hneedy, hkeys]
      rfl
    have horder : IncludeGraph.order
        ⟨["lib/a.h", "lib/z.h"], [("lib/z.h", "lib/a.h"), ("lib/a.h", "lib/z.h")]⟩ =
          .error (.cyclic [("lib/a.h", "lib/z.h"), ("lib/z.h", "lib/a.h")]) := by
      have hnone : IncludeGraph.order?
          ⟨["lib/a.h", "lib/z.h"], [("lib/z.h", "lib/a.h"), ("lib/a.h", "lib/z.h")]⟩ = none := by
        decide +kernel
      rw [IncludeGraph.order, hnone]
      rfl
    rw [State.finalise_eq_admission hgraph, hadmission, horder]
    rfl

theorem leftovers_of_emit_swap :
    ∃ s t f,
      s = ((new (.text "lib") "").session
        [.emit State.nodeCall.module State.nodeCall.item]).state ∧
      State.swapFunction.hasTextNames ∧
      s.emit [.text "ffi", .text "a"] State.swapFunction = (t, .error f) ∧
      t.mentioned "lib/a.h" = [.word "Node"] ∧
      ((t.run [State.idCall]).finalise "").2 = ((s.run [State.idCall]).finalise "").2 := by
  have hrs : ∀ r ∈ [Request.emit State.nodeCall.module State.nodeCall.item],
      ∀ d ∈ r.declarations, d.hasTextNames := by decide
  have hcs : ∀ c ∈ [State.idCall], ∀ e, c.item = .declaration e → e.hasTextNames := by
    intro c hc e he
    obtain rfl := List.mem_singleton.1 hc
    cases he
    rfl
  have hd : State.swapFunction.hasTextNames := by decide
  refine ⟨_, _, _, rfl, hd, rfl, rfl, ?_⟩
  obtain ⟨k, names, -, hk, -, hlater⟩ := leftovers_of_emit (.text "lib") "" _ hrs rfl hd
    (show State.emit _ [.text "ffi", .text "a"] State.swapFunction = (_, .error _) from rfl)
  obtain ⟨-, -, hfinish⟩ := hlater _ hcs
  refine (hfinish "").same fun p hp => ?_
  obtain ⟨hout, -, n, hn, -⟩ := hp
  have hheader := (hk (List.ne_nil_of_mem hn)).1
  cases hheader
  exact absurd hout (by decide)

end Writer

end FfiHeaders
