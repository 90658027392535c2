import FfiHeaders.Header.Emission
import FfiHeaders.Proofs.Mentions

/-!
# Runs of emissions

`Emission` lists what the emission of a declaration can do to a state. A run takes one emission after
the other, whatever each of them results in; what holds of every emission holds of runs by induction.
-/
namespace FfiHeaders

namespace State

variable {s t u : State}

theorem word_mem_mentioned_addMentions {h h' : String} {ns : List Symbol} {n : String} :
    .word n ∈ (s.addMentions h ns).mentioned h' ↔
      .word n ∈ s.mentioned h' ∨ h = h' ∧ .word n ∈ ns := by
  unfold addMentions
  split
  · next he => simp [List.isEmpty_iff.1 he]
  · by_cases hh : h = h'
    · subst hh
      simp [mentioned, Table.get?_set]
    · simp [mentioned, Table.get?_set, hh]

@[simp] theorem append_mentioned (h text h' : String) :
    (s.append h text).mentioned h' = s.mentioned h' := rfl

@[simp] theorem declare_output (n : Symbol) (h h' : String) :
    (s.declare n h).output h' = s.output h' := rfl

@[simp] theorem addMentions_output (h : String) (ns : List Symbol) (h' : String) :
    (s.addMentions h ns).output h' = s.output h' := by
  simp [output]

theorem mem_keys_append {h text h' : String} :
    h' ∈ (s.append h text).outputs.keys ↔ h' = h ∨ h' ∈ s.outputs.keys :=
  Table.mem_keys_set

/-- What the emission of a declaration leaves behind, and what it results in. -/
inductive Emission (s : State) (module : List Value) (d : Declaration) :
    State × Except Failure Outcome → Prop
  | skipped (r : Skip) (hs : d.skip? = .ok (some r)) : Emission s module d (s, .ok (.skipped r))
  | unread (f : Failure) (hs : d.skip? = .error f) : Emission s module d (s, .error f)
  | unfit (f : Failure) (hs : d.skip? = .ok none) (hc : d.check = .error f) :
      Emission s module d (s, .error f)
  | homeless (f : Failure) (hs : d.skip? = .ok none) (hc : d.check = .ok ())
      (hm : Header.ofModule s.libName module = .error f) : Emission s module d (s, .error f)
  | unwritten (h : String) (f : Failure) (hs : d.skip? = .ok none) (hc : d.check = .ok ())
      (hm : Header.ofModule s.libName module = .ok h) (hr : d.render.result = .error f) :
      Emission s module d (s.addMentions h d.render.mentions, .error f)
  | nameless (h text : String) (hs : d.skip? = .ok none) (hc : d.check = .ok ())
      (hm : Header.ofModule s.libName module = .ok h) (hr : d.render.result = .ok text)
      (ht : d.declaresType) (hn : Symbol.ofValue? d.name = none) :
      Emission s module d
        ((s.addMentions h d.render.mentions).append h text, .error (.mismatch .operation))
  | function (h text : String) (hs : d.skip? = .ok none) (hc : d.check = .ok ())
      (hm : Header.ofModule s.libName module = .ok h) (hr : d.render.result = .ok text)
      (ht : d.declaresType = false) :
      Emission s module d ((s.addMentions h d.render.mentions).append h text, .ok (.emitted h))
  | type (h text : String) (n : Symbol) (hs : d.skip? = .ok none) (hc : d.check = .ok ())
      (hm : Header.ofModule s.libName module = .ok h) (hr : d.render.result = .ok text)
      (ht : d.declaresType) (hn : Symbol.ofValue? d.name = some n) :
      Emission s module d
        (((s.addMentions h d.render.mentions).append h text).declare n h, .ok (.emitted h))

theorem emission_emit (s : State) (module : List Value) (d : Declaration) :
    Emission s module d (s.emit module d) := by
  unfold emit
  split
  · next f hs => exact .unread f hs
  · next r hs => exact .skipped r hs
  · next hs =>
    split
    · next f hc => exact .unfit f hs hc
    · next hc =>
      split
      · next f hm => exact .homeless f hs hc hm
      · next h hm =>
        unfold write
        simp only []
        split
        · next f hr => exact .unwritten h f hs hc hm hr
        · next text hr =>
          split
          · next ht =>
            split
            · next n hn => exact .type h text n hs hc hm hr ht hn
            · next hn => exact .nameless h text hs hc hm hr ht hn
          · next ht => exact .function h text hs hc hm hr (by simpa using ht)

/-- A later state keeps what an earlier one holds. -/
structure Extends (s t : State) : Prop where
  libName : t.libName = s.libName
  isFinalised : t.isFinalised = s.isFinalised
  outputs : ∀ h ∈ s.outputs.keys, h ∈ t.outputs.keys
  decls : ∀ n ∈ s.decls.keys, n ∈ t.decls.keys
  output : ∀ h, ∃ more, t.output h = s.output h ++ more
  mentioned : ∀ h n, Symbol.word n ∈ s.mentioned h → Symbol.word n ∈ t.mentioned h

namespace Extends

theorem refl (s : State) : Extends s s :=
  ⟨rfl, rfl, fun _ h => h, fun _ h => h, fun _ => ⟨"", by simp⟩, fun _ _ h => h⟩

theorem trans (h₁ : Extends s t) (h₂ : Extends t u) : Extends s u where
  libName := h₂.libName.trans h₁.libName
  isFinalised := h₂.isFinalised.trans h₁.isFinalised
  outputs h hh := h₂.outputs h (h₁.outputs h hh)
  decls n hn := h₂.decls n (h₁.decls n hn)
  output h := by
    obtain ⟨a, ha⟩ := h₁.output h
    obtain ⟨b, hb⟩ := h₂.output h
    exact ⟨a ++ b, by rw [hb, ha, String.append_assoc]⟩
  mentioned h n hn := h₂.mentioned h n (h₁.mentioned h n hn)

theorem addMentions (s : State) (h : String) (ns : List Symbol) :
    Extends s (s.addMentions h ns) where
  libName := addMentions_libName s h ns
  isFinalised := addMentions_isFinalised s h ns
  outputs h' hh := by rwa [addMentions_outputs]
  decls n hn := by rwa [addMentions_decls]
  output h' := ⟨"", by simp⟩
  mentioned h' n hn := word_mem_mentioned_addMentions.2 (Or.inl hn)

theorem append (s : State) (h text : String) : Extends s (s.append h text) where
  libName := rfl
  isFinalised := rfl
  outputs h' hh := mem_keys_append.2 (Or.inr hh)
  decls n hn := hn
  output h' := by
    rw [append_output]
    split
    · next hh => exact ⟨text, by rw [hh]⟩
    · exact ⟨"", by simp⟩
  mentioned h' n hn := hn

theorem declare (s : State) (n : Symbol) (h : String) : Extends s (s.declare n h) where
  libName := rfl
  isFinalised := rfl
  outputs h' hh := hh
  decls m hm := Table.mem_keys_set.2 (Or.inr hm)
  output h' := ⟨"", by simp⟩
  mentioned h' m hm := hm

end Extends

theorem Emission.extends {module : List Value} {d : Declaration} {r : State × Except Failure Outcome}
    (h : Emission s module d r) : Extends s r.1 := by
  cases h with
  | skipped | unread | unfit | homeless => exact .refl s
  | unwritten h => exact .addMentions s h _
  | nameless h text | function h text => exact (Extends.addMentions s h _).trans (.append _ h text)
  | type h text n =>
    exact ((Extends.addMentions s h _).trans (.append _ h text)).trans (.declare _ n h)

/-- Every type that has a home has it at a header with output. -/
def HomesHaveOutput (s : State) : Prop := ∀ n h, s.decls.get? n = some h → h ∈ s.outputs.keys

theorem Emission.homesHaveOutput {module : List Value} {d : Declaration}
    {r : State × Except Failure Outcome} (h : Emission s module d r) (hs : s.HomesHaveOutput) :
    r.1.HomesHaveOutput := by
  have hadd : ∀ h ns, (s.addMentions h ns).HomesHaveOutput := by
    intro h ns n k hk
    rw [addMentions_decls] at hk
    rw [addMentions_outputs]
    exact hs n k hk
  have happend : ∀ h ns text, ((s.addMentions h ns).append h text).HomesHaveOutput :=
    fun h ns text n k hk => mem_keys_append.2 (Or.inr (hadd h ns n k hk))
  cases h with
  | skipped | unread | unfit | homeless => exact hs
  | unwritten h => exact hadd h _
  | nameless h text | function h text => exact happend h _ text
  | type h text m =>
    intro n k hk
    rw [State.declare, Table.get?_set] at hk
    split at hk
    · obtain rfl := Option.some.inj hk
      exact mem_keys_append.2 (Or.inl rfl)
    · exact happend h _ text n k hk

/-- An emitted declaration leaves its text and the types that it mentions at its header. -/
theorem Emission.emitted {module : List Value} {d : Declaration} {h : String}
    (he : Emission s module d (t, .ok (.emitted h))) :
    ∃ text, d.render.result = .ok text ∧ Header.ofModule s.libName module = .ok h ∧
      t.outputs.keys = (s.append h text).outputs.keys ∧
      (∀ k, t.output k = (s.append h text).output k) ∧
      ∀ n ∈ d.userTypes, .word n ∈ t.mentioned h := by
  have hout : ∀ {ns text} k,
      ((s.addMentions h ns).append h text).output k = (s.append h text).output k := by
    intro ns text k
    simp only [append_output, addMentions_output]
  have hkeys : ∀ {ns text},
      ((s.addMentions h ns).append h text).outputs.keys = (s.append h text).outputs.keys := by
    intro ns text
    simp [State.append]
  have hm : ∀ {text}, d.render.result = .ok text → ∀ n ∈ d.userTypes,
      .word n ∈ ((s.addMentions h d.render.mentions).append h text).mentioned h := by
    intro text hr n hn
    rw [append_mentioned]
    exact word_mem_mentioned_addMentions.2 (Or.inr ⟨rfl, (d.mem_mentions_render hr n).2 hn⟩)
  cases he with
  | function _ text hs hc hmod hr ht => exact ⟨text, hr, hmod, hkeys, hout, hm hr⟩
  | type _ text m hs hc hmod hr ht hn => exact ⟨text, hr, hmod, hkeys, hout, hm hr⟩

end State

/-- A call that emits an item of a module. -/
structure Call where
  module : List Value
  item : Item

namespace State

variable {s t : State}

theorem emitItem_extends (s : State) (module : List Value) (i : Item) :
    Extends s (s.emitItem module i).1 := by
  cases i with
  | declaration d => exact (emission_emit s module d).extends
  | module name items => exact .refl s

theorem emitItem_homesHaveOutput (hs : s.HomesHaveOutput) (module : List Value) (i : Item) :
    (s.emitItem module i).1.HomesHaveOutput := by
  cases i with
  | declaration d => exact (emission_emit s module d).homesHaveOutput hs
  | module name items => exact hs

/-- The state after a sequence of calls. A call that fails does not end the run. -/
def run (s : State) : List Call → State
  | [] => s
  | c :: cs => (s.emitItem c.module c.item).1.run cs

/-- The declaration that a call emits, with its header. -/
def emittedBy (s : State) (c : Call) : List (String × Declaration) :=
  match c.item, (s.emitItem c.module c.item).2 with
  | .declaration d, .ok (.emitted h) => [(h, d)]
  | _, _ => []

/-- The declarations that a run emits, each with its header, in order. -/
def emitted (s : State) : List Call → List (String × Declaration)
  | [] => []
  | c :: cs => s.emittedBy c ++ (s.emitItem c.module c.item).1.emitted cs

theorem run_extends (s : State) (cs : List Call) : Extends s (s.run cs) := by
  induction cs generalizing s with
  | nil => exact .refl s
  | cons c cs ih => exact (emitItem_extends s c.module c.item).trans (ih _)

theorem run_homesHaveOutput (hs : s.HomesHaveOutput) (cs : List Call) :
    (s.run cs).HomesHaveOutput := by
  induction cs generalizing s with
  | nil => exact hs
  | cons c cs ih => exact ih (emitItem_homesHaveOutput hs c.module c.item)

theorem mem_emittedBy {c : Call} {e : String × Declaration} (h : e ∈ s.emittedBy c) :
    c.item = .declaration e.2 ∧ Emission s c.module e.2
      ((s.emitItem c.module c.item).1, .ok (.emitted e.1)) := by
  obtain ⟨module, item⟩ := c
  cases item with
  | module name items => simp [emittedBy] at h
  | declaration d =>
    have hd := emission_emit s module d
    simp only [emittedBy, emitItem] at h ⊢
    split at h
    · next d' k hi hr =>
      cases hi
      rw [List.mem_singleton] at h
      subst h
      refine ⟨rfl, ?_⟩
      rwa [← hr]
    · cases h

/-- What a run emits into a header is mentioned there to the end. -/
theorem mentioned_run_of_emitted {cs : List Call} {e : String × Declaration}
    (he : e ∈ s.emitted cs) :
    e.1 ∈ (s.run cs).outputs.keys ∧ ∀ n ∈ e.2.userTypes, .word n ∈ (s.run cs).mentioned e.1 := by
  induction cs generalizing s with
  | nil => cases he
  | cons c cs ih =>
    rcases List.mem_append.1 he with he | he
    · obtain ⟨text, -, -, hk, -, hm⟩ := (mem_emittedBy he).2.emitted
      have hx := run_extends (s.emitItem c.module c.item).1 cs
      refine ⟨hx.outputs _ ?_, fun n hn => hx.mentioned _ n (hm n hn)⟩
      rw [hk]
      exact mem_keys_append.2 (Or.inl rfl)
    · exact ih he

end State

end FfiHeaders
