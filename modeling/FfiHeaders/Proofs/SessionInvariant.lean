import FfiHeaders.Proofs.Classification
import FfiHeaders.Proofs.Consistency
import FfiHeaders.Proofs.ModuleHeaders
import FfiHeaders.Proofs.Session

/-!
# What holds throughout a session

A session is a run of emissions between which the library may be renamed as long as nothing has been
written. `State.IsSound` is kept by an emission, therefore by a run, and so by each request.
-/
namespace FfiHeaders

/-! ### The calls of a session -/

/-- The call that a walk makes at a declaration. -/
def Visit.call? : Visit → Option Call
  | .declaration path d => some ⟨path, .declaration d⟩
  | .hidden _ _ => none

namespace State

/-- The calls of a walk, up to the first failure. -/
def calls (s : State) : List Visit → List Call
  | [] => []
  | v :: vs =>
    v.call?.toList ++
      match (s.visit v).result with
      | .error _ => []
      | .ok () => (s.visit v).state.calls vs

theorem run_append (s : State) (cs ds : List Call) : s.run (cs ++ ds) = (s.run cs).run ds := by
  induction cs generalizing s with
  | nil => rfl
  | cons c cs ih => exact ih _

theorem visit_state (s : State) (v : Visit) : (s.visit v).state = s.run v.call?.toList := by
  cases v with
  | hidden path name =>
    rw [visit]
    split <;> rfl
  | declaration path d =>
    change (s.visit (.declaration path d)).state = (s.emit path d).1
    rw [visit]
    split
    · next t outcome ht => rw [ht]
    · next t f ht => rw [ht]

theorem feed_state (s : State) (vs : List Visit) : (s.feed vs).state = s.run (s.calls vs) := by
  induction vs generalizing s with
  | nil => rfl
  | cons v vs ih =>
    rw [feed, calls, run_append, ← visit_state]
    cases (s.visit v).result with
    | error f => rfl
    | ok u => exact ih _

theorem mem_of_mem_calls {s : State} {vs : List Visit} {c : Call} (h : c ∈ s.calls vs) :
    ∃ d, c.item = .declaration d ∧ .declaration c.module d ∈ vs := by
  induction vs generalizing s with
  | nil => cases h
  | cons v vs ih =>
    rcases List.mem_append.1 h with h | h
    · cases v with
      | hidden path name => cases h
      | declaration path d =>
        obtain rfl := List.mem_singleton.1 h
        exact ⟨d, rfl, List.mem_cons_self⟩
    · split at h
      · cases h
      · obtain ⟨d, hd, hm⟩ := ih h
        exact ⟨d, hd, List.mem_cons_of_mem v hm⟩

end State

/-- The declarations that a request may emit. -/
def Request.declarations : Request → List Declaration
  | .emit _ (.declaration d) => [d]
  | .compile m _ => (declarationsOf [m.name] m.items).map (·.2)
  | _ => []

namespace Writer

/-- The calls that a request comes to. -/
def calls (w : Writer) : Request → List Call
  | .emit module item => [⟨module, item⟩]
  | .compile m _ => w.state.calls m.visits
  | _ => []

/-- The writer after a session. A request that fails does not end the session. -/
def session (w : Writer) : List Request → Writer
  | [] => w
  | r :: rs => (w.after r).session rs

/-- The calls of a session. -/
def sessionCalls (w : Writer) : List Request → List Call
  | [] => []
  | r :: rs => w.calls r ++ (w.after r).sessionCalls rs

variable {w : Writer} {r : Request}

theorem mem_declarations_of_mem_calls {c : Call} (hc : c ∈ w.calls r) {d : Declaration}
    (hd : c.item = .declaration d) : d ∈ r.declarations := by
  cases r with
  | emit module item =>
    obtain rfl := List.mem_singleton.1 hc
    cases hd
    exact List.mem_singleton.2 rfl
  | compile m finish =>
    obtain ⟨e, he, hm⟩ := State.mem_of_mem_calls hc
    obtain rfl := Item.declaration.inj (he.symm.trans hd)
    rw [Module.visits, visitsOf_eq_map] at hm
    obtain ⟨f, hf, hv⟩ := List.mem_map.1 hm
    refine List.mem_map.2 ⟨f, hf, ?_⟩
    rw [Visit.of] at hv
    split at hv
    · exact (Visit.declaration.inj hv).2
    · cases hv
  | setLibName | addCustomCode | finalise => cases hc

theorem compile_state (w : Writer) (m : Module) (finish : Bool) :
    (w.compile m finish).state = (w.state.feed m.visits).state ∨
      (w.compile m finish).state = ((w.state.feed m.visits).state.finalise w.customCode).1 := by
  rw [compile]
  split
  · exact Or.inl rfl
  · split
    · refine Or.inr ?_
      rcases (w.state.feed m.visits).state.finalise w.customCode with ⟨s, f | b⟩
      · rfl
      · rfl
    · exact Or.inl rfl

/-- A request renames the library while nothing is written, or makes its calls, after which it may
finalise. -/
theorem after_state (w : Writer) (r : Request) :
    (∃ name, w.state.outputs.isEmpty ∧ (w.after r).state = { w.state with libName := name }) ∨
      (w.after r).state =
        { w.state.run (w.calls r) with isFinalised := (w.after r).state.isFinalised } := by
  cases r with
  | emit module item => exact Or.inr rfl
  | compile m finish =>
    refine Or.inr ?_
    rw [after, calls, ← State.feed_state]
    dsimp only
    rcases compile_state w m finish with h | h
    · rw [h]
    · rw [h, State.finalise_state]
  | setLibName name =>
    rw [after, setLibName]
    split
    · next h => exact Or.inl ⟨name, h, rfl⟩
    · exact Or.inr rfl
  | addCustomCode code => exact Or.inr rfl
  | finalise =>
    refine Or.inr ?_
    change (w.state.finalise w.customCode).1 =
      { w.state with isFinalised := (w.state.finalise w.customCode).1.isFinalised }
    rw [State.finalise_state]

end Writer

/-! ### Emissions -/

namespace State

variable {s t : State} {module : List Value} {d : Declaration} {r : State × Except Failure Outcome}

/-- An emission writes the whole text of the declaration to the header of its module, or nothing. -/
theorem Emission.outputs (he : Emission s module d r) :
    r.1.outputs = s.outputs ∨
      ∃ h text, d.render.result = .ok text ∧ Header.ofModule s.libName module = .ok h ∧
        r.1.outputs = (s.append h text).outputs := by
  have happend : ∀ h text, ((s.addMentions h d.render.mentions).append h text).outputs =
      (s.append h text).outputs := by
    intro h text
    rw [append, addMentions_output, addMentions_outputs, append]
  cases he with
  | skipped | unread | unfit | homeless => exact Or.inl rfl
  | unwritten h => exact Or.inl (addMentions_outputs s h _)
  | nameless h text _ _ hm hr | function h text _ _ hm hr | type h text _ _ _ hm hr =>
    exact Or.inr ⟨h, text, hr, hm, happend h text⟩

theorem Emission.mem_mentioned (he : Emission s module d r) {h : String} {n : Symbol}
    (hn : n ∈ r.1.mentioned h) : n ∈ s.mentioned h ∨ n ∈ d.render.mentions := by
  have hadd : ∀ k, n ∈ (s.addMentions k d.render.mentions).mentioned h →
      n ∈ s.mentioned h ∨ n ∈ d.render.mentions :=
    fun k hk => (mem_of_mem_mentioned_addMentions hk).imp_right And.right
  cases he with
  | skipped | unread | unfit | homeless => exact Or.inl hn
  | unwritten k | nameless k | function k | type k => exact hadd k hn

theorem output_of_outputs (h : s.outputs = t.outputs) (k : String) : s.output k = t.output k := by
  rw [output, h, output]

/-- The path is that of a module for which one of the calls was made. -/
def IsRouted (libName : String) (cs : List Call) (h : String) : Prop :=
  ∃ c ∈ cs, ∃ ms, ms ≠ [] ∧ c.module = ms.map .text ∧ h = Header.path libName ms

/-- What holds of a state that some calls have led to. -/
structure IsSound (s : State) (cs : List Call) : Prop where
  homes : s.HomesHaveOutput
  routed : ∀ h ∈ s.outputs.keys, IsRouted s.library cs h
  ended : ∀ h ∈ s.outputs.keys, ∃ t, s.output h = t ++ ";\n\n"
  words : s.MentionsWords

theorem isSound_initial (libName : Value) : (initial libName).IsSound [] :=
  ⟨homesHaveOutput_initial libName, nofun, nofun, nofun⟩

theorem isRouted_of_ofModule {libName : Value} {c : Call} {cs : List Call} (hc : c ∈ cs) {h : String}
    (hm : Header.ofModule libName c.module = .ok h) : IsRouted libName.plain cs h := by
  obtain ⟨ms, hne, hmodule, hpath⟩ := Header.exists_of_ofModule_ok hm
  exact ⟨c, hc, ms, hne, hmodule, hpath⟩

theorem Emission.isSound {cs : List Call} (he : Emission s module d r) (hs : s.IsSound cs)
    (hd : d.hasTextNames) : r.1.IsSound (cs ++ [⟨module, .declaration d⟩]) where
  homes := he.homesHaveOutput hs.homes
  routed k hk := by
    have hold : k ∈ s.outputs.keys → IsRouted s.library (cs ++ [⟨module, .declaration d⟩]) k := by
      intro hk
      obtain ⟨c, hc, hm⟩ := hs.routed k hk
      exact ⟨c, List.mem_append_left _ hc, hm⟩
    rw [library, he.extends.libName]
    rcases he.outputs with ho | ⟨h, text, -, hm, ho⟩
    · exact hold (ho ▸ hk)
    · rw [ho] at hk
      rcases mem_keys_append.1 hk with rfl | hk
      · exact isRouted_of_ofModule (c := ⟨module, .declaration d⟩)
          (List.mem_append_right _ List.mem_cons_self) hm
      · exact hold hk
  ended k hk := by
    rcases he.outputs with ho | ⟨h, text, hr, -, ho⟩
    · rw [output_of_outputs ho]
      exact hs.ended k (ho ▸ hk)
    · -- a declaration is written as a whole, so its end is the new end of its header
      obtain ⟨t, rfl⟩ := Declaration.exists_of_render_ok hr
      rw [output_of_outputs ho, append_output]
      split
      · exact ⟨s.output h ++ t, by rw [String.append_assoc]⟩
      · next hne =>
        rw [ho] at hk
        exact hs.ended k ((mem_keys_append.1 hk).resolve_left fun hh => hne hh.symm)
  words k n hn := by
    rcases he.mem_mentioned hn with hn | hn
    · exact hs.words k n hn
    · obtain ⟨m, -, rfl⟩ := (Declaration.isConfined_render hd).mentions n hn
      rfl

theorem IsSound.mono {cs ds : List Call} (hs : s.IsSound cs) (h : ∀ c ∈ cs, c ∈ ds) : s.IsSound ds where
  homes := hs.homes
  routed k hk := by
    obtain ⟨c, hc, hm⟩ := hs.routed k hk
    exact ⟨c, h c hc, hm⟩
  ended := hs.ended
  words := hs.words

theorem IsSound.run {cs ds : List Call} (hs : s.IsSound cs)
    (hds : ∀ c ∈ ds, ∀ d, c.item = .declaration d → d.hasTextNames) :
    (s.run ds).IsSound (cs ++ ds) := by
  induction ds generalizing s cs with
  | nil => rwa [List.append_nil]
  | cons c ds ih =>
    obtain ⟨hc, hds⟩ := List.forall_mem_cons.1 hds
    have hstep : (s.emitItem c.module c.item).1.IsSound (cs ++ [c]) := by
      obtain ⟨module, item⟩ := c
      cases item with
      | declaration d => exact (emission_emit s module d).isSound hs (hc d rfl)
      | module name items => exact hs.mono fun c hc => List.mem_append_left _ hc
    rw [State.run, List.append_cons]
    exact ih hstep hds

theorem IsSound.rename {cs : List Call} (hs : s.IsSound cs) (h : s.outputs.isEmpty) (name : Value) :
    { s with libName := name }.IsSound cs := by
  -- nothing is written yet, so there is no path that the old name is part of
  have hnone : s.outputs.keys = [] := by
    rw [Table.keys, List.isEmpty_iff.1 h]
    rfl
  refine ⟨hs.homes, fun k hk => ?_, hs.ended, hs.words⟩
  change k ∈ s.outputs.keys at hk
  rw [hnone] at hk
  cases hk

theorem IsSound.finalised {cs : List Call} (hs : s.IsSound cs) (isFinalised : Bool) :
    { s with isFinalised := isFinalised }.IsSound cs :=
  ⟨hs.homes, hs.routed, hs.ended, hs.words⟩

/-- The include graph of a sound state has the headers with output as its nodes, and its edges lead
from one of them to another one. -/
theorem IsSound.includeGraph {cs : List Call} (hs : s.IsSound cs) :
    ∃ g, s.includeGraph = .ok g ∧ g.nodes.Perm s.outputs.keys ∧
      ∀ p c, (p, c) ∈ g.edges → p ≠ c ∧ p ∈ s.outputs.keys ∧ c ∈ s.outputs.keys := by
  obtain ⟨g, hg⟩ := exists_includeGraph hs.words
  have hedges : ∀ p c, (p, c) ∈ g.edges → p ≠ c ∧ p ∈ s.outputs.keys ∧ c ∈ s.outputs.keys := by
    intro p c he
    obtain ⟨hc, hne, n, -, hp⟩ := (mem_graph_edges hg).1 he
    exact ⟨hne, hs.homes _ p hp, hc⟩
  refine ⟨g, hg, ?_, hedges⟩
  refine (List.perm_ext_iff_of_nodup (nodup_nodes hg) s.outputs.nodup_keys).2 fun v => ?_
  rw [mem_nodes hg, or_iff_left_of_imp]
  rintro ⟨c, hc⟩
  exact (hedges v c hc).2.1

/-- Nothing that the first state holds is lost in the second one. -/
structure Keeps (s t : State) : Prop where
  outputs : ∀ h ∈ s.outputs.keys, h ∈ t.outputs.keys
  output : ∀ h, ∃ more, t.output h = s.output h ++ more
  decls : ∀ n ∈ s.decls.keys, n ∈ t.decls.keys
  mentioned : ∀ h, ∀ n ∈ s.mentioned h, n ∈ t.mentioned h

theorem Extends.keeps (h : Extends s t) (hs : s.MentionsWords) : s.Keeps t where
  outputs := h.outputs
  output := h.output
  decls := h.decls
  mentioned k n hn := by
    obtain ⟨m, rfl⟩ := Symbol.isWord_iff.1 (hs k n hn)
    exact h.mentioned k m hn

end State

/-! ### Sessions -/

namespace Writer

variable {w : Writer}

theorem isSound_after {cs : List Call} (hw : w.state.IsSound cs) {r : Request}
    (hr : ∀ d ∈ r.declarations, d.hasTextNames) : (w.after r).state.IsSound (cs ++ w.calls r) := by
  rcases after_state w r with ⟨name, hempty, hstate⟩ | hstate
  · rw [hstate]
    exact (hw.rename hempty name).mono fun c hc => List.mem_append_left _ hc
  · rw [hstate]
    refine (hw.run fun c hc d hd => ?_).finalised _
    exact hr d (mem_declarations_of_mem_calls hc hd)

theorem isSound_session {cs : List Call} (hw : w.state.IsSound cs) {rs : List Request}
    (hrs : ∀ r ∈ rs, ∀ d ∈ r.declarations, d.hasTextNames) :
    (w.session rs).state.IsSound (cs ++ w.sessionCalls rs) := by
  induction rs generalizing w cs with
  | nil => rwa [sessionCalls, List.append_nil]
  | cons r rs ih =>
    obtain ⟨hr, hrs⟩ := List.forall_mem_cons.1 hrs
    rw [session, sessionCalls, ← List.append_assoc]
    exact ih (isSound_after hw hr) hrs

theorem keeps_after (hw : w.state.MentionsWords) (r : Request) :
    w.state.Keeps (w.after r).state := by
  rcases after_state w r with ⟨name, -, hstate⟩ | hstate
  · have h := (State.Extends.refl w.state).keeps hw
    rw [hstate]
    exact ⟨h.outputs, h.output, h.decls, h.mentioned⟩
  · have h := (State.run_extends w.state (w.calls r)).keeps hw
    rw [hstate]
    exact ⟨h.outputs, h.output, h.decls, h.mentioned⟩

/-- After any session the state is sound and its include graph is one of the headers that are there, and
whatever is asked next loses nothing. -/
theorem session_invariant (libName : Value) (customCode : String) (rs : List Request)
    (hrs : ∀ r ∈ rs, ∀ d ∈ r.declarations, d.hasTextNames) :
    ((new libName customCode).session rs).state.IsSound ((new libName customCode).sessionCalls rs) ∧
      (∃ g, ((new libName customCode).session rs).state.includeGraph = .ok g ∧
        g.nodes.Perm ((new libName customCode).session rs).state.outputs.keys ∧
        ∀ p c, (p, c) ∈ g.edges → p ≠ c ∧
          p ∈ ((new libName customCode).session rs).state.outputs.keys ∧
          c ∈ ((new libName customCode).session rs).state.outputs.keys) ∧
      ∀ r, ((new libName customCode).session rs).state.Keeps
        (((new libName customCode).session rs).after r).state := by
  have hsound := isSound_session (w := new libName customCode) (State.isSound_initial libName) hrs
  rw [List.nil_append] at hsound
  exact ⟨hsound, hsound.includeGraph, keeps_after hsound.words⟩

/-- A function is rejected, the library is renamed in time and once too late, and a type gets a second
home after the headers are finished. -/
def roughSession : List Request :=
  [.emit [.text "ffi", .text "z"] (.declaration State.swapFunction), .setLibName (.text "lib"),
    .compile sharedTree false, .setLibName (.text "late"), .finalise,
    .emit [.text "ffi", .text "z"] (.declaration idAlias)]

theorem session_invariant_roughSession :
    (∀ r ∈ roughSession, ∀ d ∈ r.declarations, d.hasTextNames) ∧
      State.IsRouted "lib" ((new (.text "backend") "").sessionCalls roughSession) "lib/z.h" ∧
      ∃ g, ((new (.text "backend") "").session roughSession).state.includeGraph = .ok g ∧
        g.nodes.Perm ["lib/a.h", "lib/z.h"] := by
  have hnames : ∀ r ∈ roughSession, ∀ d ∈ r.declarations, d.hasTextNames := by decide
  obtain ⟨hsound, ⟨g, hg, hnodes, -⟩, -⟩ :=
    session_invariant (.text "backend") "" roughSession hnames
  exact ⟨hnames, hsound.routed "lib/z.h" (List.mem_cons_of_mem _ List.mem_cons_self), g, hg, hnodes⟩

end Writer

end FfiHeaders
