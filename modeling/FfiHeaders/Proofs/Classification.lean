import FfiHeaders.Proofs.AcceptedTypes
import FfiHeaders.Proofs.Exports
import FfiHeaders.Proofs.Run

/-!
# Classes of declarations

Whether a declaration is exported and whether C can express it can be read off its source. The two
decide whether emitting it skips it, rejects it or writes it, and each of these changes the state in a
known way.
-/
namespace FfiHeaders

/-! ### What C can express -/

/-- The type has a C type. -/
def TypeExpr.IsAccepted (t : TypeExpr) : Prop := ∃ x d, t.declare x = .ok d

/-- Acceptance does not depend on the name that the type declares. -/
theorem TypeExpr.IsAccepted.declare {t : TypeExpr} (h : t.IsAccepted) (x : String) :
    ∃ d, t.declare x = .ok d := by
  obtain ⟨y, d, hd⟩ := h
  exact ⟨d.renamed x, by rw [declare_renamed t y x, hd]; rfl⟩

/-- C can express an alias if it can express its type, an enum of plain constants, a struct with named
fields of such types or with one hidden field, and a function whose parameters are plain names of such
types and whose output, if any, is of such a type. Only an alias may be generic, and it is not
exported then. -/
def Declaration.IsExpressible (d : Declaration) : Prop :=
  match d.body with
  | .typeAlias t => t.IsAccepted
  | .enum variants => d.generics = [] ∧ ∀ v ∈ variants, v.fields = []
  | .struct kind fields =>
    d.generics = [] ∧
      (kind = .text "named" ∧ (∀ f ∈ fields, f.name ≠ .null ∧ f.type.IsAccepted) ∨
        kind = .text "tuple" ∧ fields.length = 1)
  | .function _ params output =>
    d.generics = [] ∧ (∀ p ∈ params, Param.IsPlain p.pattern ∧ p.type.IsAccepted) ∧
      ∀ t, output = some t → t.IsAccepted ∧ t ≠ .never

/-! ### Renderings that succeed -/

/-- The rendering has a result. -/
def Mentioning.Succeeds {α : Type} (a : Mentioning α) : Prop := ∃ x, a.result = .ok x

namespace Mentioning

variable {α β : Type}

theorem succeeds_pure (x : α) : (pure x : Mentioning α).Succeeds := ⟨x, rfl⟩

/-- Two steps succeed if both do, where the second one does not depend on the result of the first. -/
theorem succeeds_bind {a : Mentioning α} {f : α → Mentioning β} {p : Prop}
    (hf : ∀ x, (f x).Succeeds ↔ p) : (a >>= f).Succeeds ↔ a.Succeeds ∧ p := by
  constructor
  · rintro ⟨y, hy⟩
    obtain ⟨x, hx, hy, -⟩ := exists_of_bind_ok hy
    exact ⟨⟨x, hx⟩, (hf x).1 ⟨y, hy⟩⟩
  · rintro ⟨⟨x, hx⟩, hp⟩
    obtain ⟨y, hy⟩ := (hf x).2 hp
    exact ⟨y, by rw [bind_of_ok hx]; exact hy⟩

theorem succeeds_bind_pure {a : Mentioning α} {f : α → β} :
    (a >>= fun x => pure (f x)).Succeeds ↔ a.Succeeds := by
  rw [succeeds_bind (p := True) fun x => iff_true_intro (succeeds_pure (f x)), and_true]

end Mentioning

open Mentioning

theorem TypeExpr.succeeds_render {t : TypeExpr} (ht : t.hasTextNames) (x : String)
    (span : Option Span) : (t.render x span).Succeeds ↔ t.IsAccepted := by
  constructor
  · rintro ⟨text, h⟩
    obtain ⟨d, hd, -⟩ := exists_of_render_ok h
    exact ⟨x, d, hd⟩
  · intro h
    obtain ⟨d, hd⟩ := h.declare x
    have hprintable : d.isPrintable := List.all_eq_true.2 ((declares_of_declare hd).isWord ht)
    rw [render, hd]
    dsimp only
    rw [Declarator.text?, if_pos hprintable]
    exact ⟨d.text, rfl⟩

theorem Field.succeeds_renderAll {fs : List Field} (hfs : fs.all (·.type.hasTextNames))
    (span : Option Span) :
    (renderAll span fs).Succeeds ↔ ∀ f ∈ fs, f.name ≠ .null ∧ f.type.IsAccepted := by
  induction fs with
  | nil => exact iff_of_true (succeeds_pure "") (List.forall_mem_nil _)
  | cons f fs ih =>
    rw [List.all_cons, Bool.and_eq_true] at hfs
    have hf : (f.render span).Succeeds ↔ f.name ≠ .null ∧ f.type.IsAccepted := by
      have hnull : f.isPositional ↔ f.name = .null := by
        rw [isPositional]
        cases f.name <;> simp [Value.isNull]
      unfold render
      split
      · next hp =>
        refine iff_of_false ?_ fun h => h.1 (hnull.1 hp)
        rintro ⟨x, hx⟩
        cases hx
      · next hp =>
        rw [succeeds_bind_pure, TypeExpr.succeeds_render hfs.1]
        exact (and_iff_right fun h => hp (hnull.2 h)).symm
    rw [List.forall_mem_cons, ← ih hfs.2, ← hf, renderAll]
    exact succeeds_bind fun line => succeeds_bind_pure

theorem Param.succeeds_renderAll {ps : List Param} (hps : TypeExpr.paramsHaveTextNames ps)
    (function : String) (span : Option Span) :
    (renderAll function span ps).Succeeds ↔
      ∀ p ∈ ps, IsPlain p.pattern ∧ p.type.IsAccepted := by
  induction ps with
  | nil => exact iff_of_true (succeeds_pure []) (List.forall_mem_nil _)
  | cons p ps ih =>
    obtain ⟨pattern, t⟩ := p
    rw [TypeExpr.paramsHaveTextNames, Bool.and_eq_true, Bool.and_eq_true] at hps
    have hname : (∃ x, (boundName pattern function).mapError (·.atSpan span) = .ok x) ↔
        IsPlain pattern := by
      have hbinds : ∀ x, boundName pattern function = .ok x ↔ Binds pattern x := fun x => boundName_eq_ok
      rw [← exists_binds_iff]
      simp only [← hbinds]
      cases boundName pattern function with
      | error e => exact iff_of_false (by rintro ⟨x, ⟨⟩⟩) (by rintro ⟨x, ⟨⟩⟩)
      | ok x => exact Iff.rfl
    have hp : (Param.render function span (.mk pattern t)).Succeeds ↔
        IsPlain pattern ∧ t.IsAccepted := by
      exact (succeeds_bind fun x => TypeExpr.succeeds_render hps.1.2 x span).trans
        (and_congr_left' hname)
    rw [List.forall_mem_cons, ← ih hps.2, renderAll]
    exact (succeeds_bind fun arg => succeeds_bind_pure).trans (and_congr_left' hp)

theorem succeeds_renderPrototype {output : Option TypeExpr}
    (ho : TypeExpr.outputHasTextNames output) (head : String) (span : Option Span) :
    (renderPrototype head span output).Succeeds ↔
      ∀ t, output = some t → t.IsAccepted ∧ t ≠ .never := by
  unfold renderPrototype
  split
  · exact iff_of_true (succeeds_pure _) nofun
  · refine iff_of_false ?_ fun h => (h .never rfl).2 rfl
    rintro ⟨x, hx⟩
    cases hx
  · next t hnever =>
    rw [TypeExpr.succeeds_render ho]
    constructor
    · rintro h _ ⟨⟩
      exact ⟨h, fun ht => hnever (by rw [ht])⟩
    · exact fun h => (h t rfl).1

namespace Declaration

variable {d : Declaration}

/-- The declaration leaves open no types, and its variants, if it is an enum, are plain constants. -/
def IsConcrete (d : Declaration) : Prop :=
  match d.body with
  | .typeAlias _ => True
  | .enum variants => d.generics = [] ∧ ∀ v ∈ variants, v.fields = []
  | .struct _ _ | .function _ _ _ => d.generics = []

theorem check_eq_ok_iff : d.check = .ok () ↔ d.IsConcrete := by
  have hconcrete : ∀ cause : Cause, (if d.generics.isEmpty then .ok ()
      else .error (.rejected cause d.span) : Except Failure Unit) = .ok () ↔ d.generics = [] := by
    intro cause
    rw [← List.isEmpty_iff]
    split
    · next h => exact iff_of_true rfl h
    · next h => exact iff_of_false nofun h
  unfold check IsConcrete
  cases hb : d.body with
  | typeAlias t => exact iff_of_true rfl trivial
  | enum variants =>
    dsimp only
    rw [Result.bind_eq_ok]
    constructor
    · rintro ⟨u, hu, h⟩
      refine ⟨(hconcrete _).1 hu, ?_⟩
      split at h
      · cases h
      · next hv =>
        intro v hm
        simpa [Variant.isUnit] using List.find?_eq_none.1 hv v hm
    · rintro ⟨hg, h⟩
      refine ⟨(), (hconcrete _).2 hg, ?_⟩
      split
      · next v hv =>
        have hv' := List.find?_some hv
        simp [Variant.isUnit, h v (List.mem_of_find?_eq_some hv)] at hv'
      · rfl
  | struct kind fields => exact hconcrete _
  | function abi params output => exact hconcrete _

theorem succeeds_renderStructBody {kind : Value} {fields : List Field}
    (hfs : fields.all (·.type.hasTextNames)) (span : Option Span) :
    (renderStructBody kind fields span).Succeeds ↔
      kind = .text "named" ∧ (∀ f ∈ fields, f.name ≠ .null ∧ f.type.IsAccepted) ∨
        kind = .text "tuple" ∧ fields.length = 1 := by
  unfold renderStructBody
  split
  · rw [succeeds_bind_pure, Field.succeeds_renderAll hfs]
    simp
  · exact iff_of_true (succeeds_pure "") (Or.inr ⟨rfl, rfl⟩)
  · next hnamed htuple =>
    refine iff_of_false (by rintro ⟨x, ⟨⟩⟩) ?_
    rintro (⟨hk, -⟩ | ⟨hk, hl⟩)
    · exact hnamed hk
    · obtain ⟨f, hf⟩ := List.length_eq_one_iff.1 hl
      exact htuple f hk hf

/-- A declaration can be written if it passes its check and its types can be rendered. -/
theorem isExpressible_iff (hd : d.hasTextNames) :
    d.IsExpressible ↔ d.check = .ok () ∧ d.render.Succeeds := by
  rw [check_eq_ok_iff]
  rw [hasTextNames, Bool.and_eq_true] at hd
  unfold IsExpressible IsConcrete render
  cases hb : d.body with
  | typeAlias t =>
    simp only [hb] at hd ⊢
    rw [succeeds_bind_pure, TypeExpr.succeeds_render hd.2, true_and]
  | enum variants => exact (and_iff_left (succeeds_pure _)).symm
  | struct kind fields =>
    simp only [hb] at hd ⊢
    rw [succeeds_bind_pure, succeeds_renderStructBody hd.2]
  | function abi params output =>
    simp only [hb, Bool.and_eq_true] at hd ⊢
    rw [succeeds_bind fun args =>
        succeeds_bind_pure.trans (succeeds_renderPrototype hd.2.2 _ d.span),
      Param.succeeds_renderAll hd.2.1.2]

end Declaration

/-! ### Outcomes -/

namespace Declaration

variable {d : Declaration}

theorem hasTextAbi_of_hasTextNames (hd : d.hasTextNames) : d.hasTextAbi := by
  rw [hasTextNames, Bool.and_eq_true] at hd
  unfold hasTextAbi
  cases hb : d.body with
  | typeAlias | enum | struct => rfl
  | function abi params output =>
    simp only [hb, Bool.and_eq_true] at hd ⊢
    exact hd.2.1.1

theorem ofValue?_name (hd : d.hasTextNames) : Symbol.ofValue? d.name = some (.word d.name.plain) := by
  rw [hasTextNames, Bool.and_eq_true] at hd
  cases hn : d.name with
  | text n => rfl
  | _ => simp [hn, Value.isText] at hd

theorem isRejection_of_check {f : Failure} (h : d.check = .error f) : f.IsRejection := by
  have hconcrete : ∀ {cause : Cause}, (if d.generics.isEmpty then .ok ()
      else .error (.rejected cause d.span) : Except Failure Unit) = .error f → f.IsRejection := by
    intro cause hc
    split at hc
    · cases hc
    · cases hc
      exact ⟨_, _, rfl⟩
  unfold check at h
  cases hb : d.body with
  | typeAlias t =>
    rw [hb] at h
    cases h
  | enum variants =>
    simp only [hb] at h
    rcases Result.bind_eq_error.1 h with h | ⟨u, -, h⟩
    · exact hconcrete h
    · split at h
      · cases h
        exact ⟨_, _, rfl⟩
      · cases h
  | struct | function =>
    rw [hb] at h
    exact hconcrete h

end Declaration

theorem Symbol.mem_of_mem_distinct {n : Symbol} {ss : List Symbol} (h : n ∈ distinct ss) : n ∈ ss := by
  suffices hfrom : ∀ seen : List Symbol,
      n ∈ ss.foldl (fun seen s => if seen.any (same s) then seen else seen ++ [s]) seen →
        n ∈ seen ∨ n ∈ ss from (hfrom [] h).resolve_left List.not_mem_nil
  clear h
  induction ss with
  | nil => exact fun seen h => Or.inl h
  | cons s ss ih =>
    intro seen h
    rw [List.foldl_cons] at h
    rcases ih _ h with h | h
    · split at h
      · exact Or.inl h
      · rcases List.mem_append.1 h with h | h
        · exact Or.inl h
        · exact Or.inr (List.mem_cons.2 (Or.inl (List.mem_singleton.1 h)))
    · exact Or.inr (List.mem_cons_of_mem s h)

namespace State

variable {s t : State} {h : String} {d : Declaration}

/-- From `s` to `t` the header `h` has come to mention some of the names, and no other header has. -/
structure Records (s t : State) (h : String) (names : List String) : Prop where
  other (k : String) : k ≠ h → t.deps.get? k = s.deps.get? k
  kept (n : String) : .word n ∈ s.mentioned h → .word n ∈ t.mentioned h
  new (n : Symbol) : n ∈ t.mentioned h → n ∈ s.mentioned h ∨ ∃ m ∈ names, n = .word m
  nothing : names = [] → t.deps = s.deps

theorem Records.refl (s : State) (h : String) (names : List String) : Records s s h names :=
  ⟨fun _ _ => rfl, fun _ hn => hn, fun _ hn => Or.inl hn, fun _ => rfl⟩

theorem mem_of_mem_mentioned_addMentions {ns : List Symbol} {k : String} {n : Symbol}
    (hn : n ∈ (s.addMentions h ns).mentioned k) : n ∈ s.mentioned k ∨ h = k ∧ n ∈ ns := by
  unfold addMentions at hn
  split at hn
  · exact Or.inl hn
  · rw [mentioned, Table.get?_set] at hn
    split at hn
    · next hk =>
      subst hk
      exact (List.mem_append.1 (Symbol.mem_of_mem_distinct hn)).imp_right fun hn => ⟨rfl, hn⟩
    · exact Or.inl hn

theorem records_addMentions {ns : List Symbol} {names : List String}
    (hns : ∀ n ∈ ns, ∃ m ∈ names, n = .word m) : Records s (s.addMentions h ns) h names where
  other k hk := by
    unfold addMentions
    split
    · rfl
    · rw [Table.get?_set, if_neg fun hh => hk hh.symm]
  kept n hn := word_mem_mentioned_addMentions.2 (Or.inl hn)
  new n hn := (mem_of_mem_mentioned_addMentions hn).imp_right fun hn => hns n hn.2
  nothing hnone := by
    have hempty : ns = [] := List.eq_nil_iff_forall_not_mem.2 fun n hn => by
      obtain ⟨m, hm, -⟩ := hns n hn
      rw [hnone] at hm
      cases hm
    rw [hempty]
    rfl

/-- From `s` to `t` the declaration has been written at the end of the header `h`, which is now the home
of the type that it declares and mentions all user types that it writes out. -/
structure Writes (s t : State) (h : String) (d : Declaration) : Prop where
  eq : ∃ text, d.render.result = .ok text ∧
    t = { s with
      deps := t.deps
      outputs := s.outputs.set h (s.output h ++ text)
      decls := if d.declaresType then s.decls.set (.word d.name.plain) h else s.decls }
  records : Records s t h d.userTypes
  mentioned : ∀ n ∈ d.userTypes, .word n ∈ t.mentioned h

theorem writes_of_render {text : String} (hd : d.hasTextNames) (hr : d.render.result = .ok text)
    (ht : t = { s.addMentions h d.render.mentions with
      outputs := s.outputs.set h (s.output h ++ text)
      decls := if d.declaresType then s.decls.set (.word d.name.plain) h else s.decls }) :
    Writes s t h d := by
  have hrec := records_addMentions (s := s) (h := h) (Declaration.isConfined_render hd).mentions
  subst ht
  refine ⟨⟨text, hr, ?_⟩, ⟨hrec.other, hrec.kept, hrec.new, hrec.nothing⟩, fun n hn => ?_⟩
  · simp only [addMentions_libName, addMentions_isFinalised]
  · exact word_mem_mentioned_addMentions.2 (Or.inr ⟨rfl, (d.mem_mentions_render hr n).2 hn⟩)

theorem addMentions_append (s : State) (h text : String) (ns : List Symbol) :
    (s.addMentions h ns).append h text =
      { s.addMentions h ns with outputs := s.outputs.set h (s.output h ++ text) } := by
  rw [append, addMentions_output, addMentions_outputs]

/-- Which class a declaration is of decides what its emission can be. -/
theorem Emission.classify {libName : String} {ms : List String} {r : State × Except Failure Outcome}
    (he : Emission s (ms.map .text) d r) (hs : s.libName = .text libName) (hms : ms ≠ [])
    (hd : d.hasTextNames) :
    (¬d.IsExported ∧ ∃ reason, r = (s, .ok (.skipped reason))) ∨
      (d.IsExported ∧ ¬d.IsExpressible ∧
        ∃ f, f.IsRejection ∧ r.2 = .error f ∧
          (r.1 = s ∨ r.1 = s.addMentions (Header.path libName ms) d.render.mentions)) ∨
      (d.IsExported ∧ d.IsExpressible ∧
        r.2 = .ok (.emitted (Header.path libName ms)) ∧ Writes s r.1 (Header.path libName ms) d) := by
  have hhome : Header.ofModule s.libName (ms.map .text) = .ok (Header.path libName ms) := by
    rw [hs]
    exact Header.ofModule_texts libName hms
  have hname := Declaration.ofValue?_name hd
  have hpath : ∀ {k}, Header.ofModule s.libName (ms.map .text) = .ok k → k = Header.path libName ms :=
    fun hk => Except.ok.inj (hk.symm.trans hhome)
  have hexpressible := Declaration.isExpressible_iff hd
  cases he with
  | skipped reason hskip =>
    refine Or.inl ⟨fun hx => ?_, reason, rfl⟩
    rw [Declaration.skip?_eq_none_iff.2 hx] at hskip
    cases hskip
  | unread f hskip =>
    -- that the calling convention cannot be looked up is ruled out by its name
    obtain ⟨reason, hr⟩ := Declaration.exists_skip (Declaration.hasTextAbi_of_hasTextNames hd)
    rw [hr] at hskip
    cases hskip
  | unfit f hskip hc =>
    refine Or.inr (Or.inl ⟨Declaration.skip?_eq_none_iff.1 hskip, fun hx => ?_, f,
      Declaration.isRejection_of_check hc, rfl, Or.inl rfl⟩)
    rw [(hexpressible.1 hx).1] at hc
    cases hc
  | homeless f hskip hc hm =>
    rw [hhome] at hm
    cases hm
  | unwritten k f hskip hc hm hr =>
    -- the names met before the fault stay recorded
    refine Or.inr (Or.inl ⟨Declaration.skip?_eq_none_iff.1 hskip, fun hx => ?_, f,
      (Declaration.isConfined_render hd).failure f hr, rfl, Or.inr (by rw [hpath hm])⟩)
    obtain ⟨text, htext⟩ := (hexpressible.1 hx).2
    rw [htext] at hr
    cases hr
  | nameless k text hskip hc hm hr ht hn =>
    rw [hname] at hn
    cases hn
  | function k text hskip hc hm hr ht =>
    refine Or.inr (Or.inr ⟨Declaration.skip?_eq_none_iff.1 hskip, hexpressible.2 ⟨hc, text, hr⟩, ?_, ?_⟩)
    · rw [hpath hm]
    · rw [← hpath hm]
      refine writes_of_render hd hr ?_
      rw [addMentions_append, ht, if_neg Bool.false_ne_true, ← addMentions_decls s k d.render.mentions]
  | type k text n hskip hc hm hr ht hn =>
    refine Or.inr (Or.inr ⟨Declaration.skip?_eq_none_iff.1 hskip, hexpressible.2 ⟨hc, text, hr⟩, ?_, ?_⟩)
    · rw [hpath hm]
    · rw [← hpath hm]
      refine writes_of_render hd hr ?_
      rw [addMentions_append, Option.some.inj (hn.symm.trans hname), declare_word, if_pos ht,
        addMentions_decls]

/-- A declaration is skipped exactly if it is not exported, rejected exactly if it is exported and C
cannot express it, and written to the header of its module otherwise. Skipping changes nothing, a
rejection at most what that header mentions, and writing nothing but what `Writes` says. -/
theorem emit_classification {libName : String} {ms : List String} (hs : s.libName = .text libName)
    (hms : ms ≠ []) (hd : d.hasTextNames) :
    ((∃ reason, (s.emit (ms.map .text) d).2 = .ok (.skipped reason)) ↔ ¬d.IsExported) ∧
      ((∃ cause span, (s.emit (ms.map .text) d).2 = .error (.rejected cause span)) ↔
        d.IsExported ∧ ¬d.IsExpressible) ∧
      ((s.emit (ms.map .text) d).2 = .ok (.emitted (Header.path libName ms)) ↔
        d.IsExported ∧ d.IsExpressible) ∧
      (¬d.IsExported → (s.emit (ms.map .text) d).1 = s) ∧
      (d.IsExported ∧ ¬d.IsExpressible →
        (s.emit (ms.map .text) d).1 = { s with deps := (s.emit (ms.map .text) d).1.deps } ∧
          Records s (s.emit (ms.map .text) d).1 (Header.path libName ms) d.userTypes) ∧
      (d.IsExported ∧ d.IsExpressible →
        Writes s (s.emit (ms.map .text) d).1 (Header.path libName ms) d) := by
  rcases (emission_emit s (ms.map .text) d).classify hs hms hd with
    ⟨hx, reason, hr⟩ | ⟨hx, hne, f, ⟨cause, span, rfl⟩, hr, hst⟩ | ⟨hx, he, hr, hw⟩
  · rw [hr]
    exact ⟨iff_of_true ⟨reason, rfl⟩ hx, iff_of_false nofun fun h => hx h.1,
      iff_of_false nofun fun h => hx h.1, fun _ => rfl, fun h => absurd h.1 hx,
      fun h => absurd h.1 hx⟩
  · rw [hr]
    refine ⟨iff_of_false nofun fun h => h hx, iff_of_true ⟨cause, span, rfl⟩ ⟨hx, hne⟩,
      iff_of_false nofun fun h => hne h.2, fun h => absurd hx h, fun _ => ?_, fun h => absurd h.2 hne⟩
    rcases hst with hst | hst
    · rw [hst]
      exact ⟨rfl, .refl s _ _⟩
    · rw [hst]
      refine ⟨?_, records_addMentions (Declaration.isConfined_render hd).mentions⟩
      unfold addMentions
      split <;> rfl
  · rw [hr]
    exact ⟨iff_of_false nofun fun h => h hx, iff_of_false nofun fun h => h.2 he,
      iff_of_true rfl ⟨hx, he⟩, fun h => absurd hx h, fun h => absurd he h.2, fun _ => hw⟩

/-- A function whose first parameter is of a user type and whose second one C cannot pass. -/
def swapFunction : Declaration :=
  ⟨.text "swap", [.word (.text "no_mangle")], [], true, none, .function (.text "system")
    [.mk (.text "mut a") (.named "Node"),
      .mk (.text "b") (.tuple [.named "Node", .named "u8"])] none⟩

theorem emit_classification_swap :
    swapFunction.hasTextNames ∧ swapFunction.IsExported ∧ ¬swapFunction.IsExpressible ∧
      ((initial (.text "lib")).emit [.text "ffi", .text "a"] swapFunction).1.outputs = .empty ∧
      ((initial (.text "lib")).emit [.text "ffi", .text "a"] swapFunction).1.mentioned "lib/a.h" =
        [.word "Node"] := by
  have hnames : swapFunction.hasTextNames := by decide
  have hmodule : ["ffi", "a"] ≠ [] := by decide
  obtain ⟨-, hrejected, -, -, hstate, -⟩ :=
    emit_classification (s := initial (.text "lib")) rfl hmodule hnames
  have hclass := hrejected.1 ⟨_, _, rfl⟩
  exact ⟨hnames, hclass.1, hclass.2, congrArg State.outputs (hstate hclass).1, rfl⟩

end State

end FfiHeaders
