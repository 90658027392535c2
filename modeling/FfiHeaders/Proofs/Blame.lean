import FfiHeaders.Proofs.Composition
import FfiHeaders.Source.OfDocument

/-!
# Who is to blame for a rejection

A rejection is either an error of the source or a bug of the generator. A compilation reports a bug for
two reasons, and the source can give it both, because reading a document checks neither: a field without
a name among named fields, and a path without segments.
-/
namespace FfiHeaders

namespace Failure

def IsBug (f : Failure) : Prop := f.diagnostic?.map (·.level) = some .bug

/-- The declaration lacks the name of a field or the segments of a path. -/
def IsGap (f : Failure) : Prop :=
  ∃ span, f = .rejected .positionalField span ∨ f = .rejected .emptyPath span

theorem IsGap.isBug {f : Failure} (h : f.IsGap) : f.IsBug := by
  obtain ⟨span, rfl | rfl⟩ := h
  · rfl
  · rfl

theorem isBug_atSpan {f : Failure} {span : Option Span} : (f.atSpan span).IsBug ↔ f.IsBug := by
  cases f with
  | rejected cause old => cases old <;> rfl
  | _ => rfl

theorem IsGap.atSpan {f : Failure} (h : f.IsGap) (span : Option Span) : (f.atSpan span).IsGap := by
  obtain ⟨_ | old, rfl | rfl⟩ := h
  · exact ⟨span, Or.inl rfl⟩
  · exact ⟨span, Or.inr rfl⟩
  · exact ⟨some old, Or.inl rfl⟩
  · exact ⟨some old, Or.inr rfl⟩

theorem IsRejection.level {f : Failure} (h : f.IsRejection) :
    f.diagnostic?.map (·.level) = some .error ∨ f.IsBug := by
  obtain ⟨cause, span, rfl⟩ := h
  cases hlevel : cause.level with
  | error => exact Or.inl (congrArg some hlevel)
  | bug => exact Or.inr (congrArg some hlevel)

end Failure

/-! ### Steps that blame gaps -/

/-- The step reports no bug but a gap, and not even that where `p` holds. -/
def BlamesGaps {α : Type} (p : Prop) (r : Except Failure α) : Prop :=
  ∀ f, r = .error f → f.IsBug → f.IsGap ∧ ¬p

namespace BlamesGaps

variable {α β : Type} {p q : Prop} {r : Except Failure α}

theorem ok (x : α) : BlamesGaps p (.ok x : Except Failure α) := nofun

theorem fault {f : Failure} (h : ¬f.IsBug) : BlamesGaps p (.error f : Except Failure α) := by
  rintro _ ⟨⟩ hbug
  exact absurd hbug h

theorem gap {f : Failure} (h : f.IsGap) (hp : ¬p) : BlamesGaps p (.error f : Except Failure α) := by
  rintro _ ⟨⟩ -
  exact ⟨h, hp⟩

theorem mono (h : BlamesGaps q r) (hpq : p → q) : BlamesGaps p r :=
  fun f hf hbug => (h f hf hbug).imp_right fun hq hp => hq (hpq hp)

theorem error {f : Failure} (h : BlamesGaps p (.error f : Except Failure α)) :
    BlamesGaps p (.error f : Except Failure β) := by
  rintro _ ⟨⟩
  exact h f rfl

theorem bind {g : α → Except Failure β} (h : BlamesGaps p r) (hg : ∀ x, BlamesGaps p (g x)) :
    BlamesGaps p (r >>= g) := by
  intro f hf
  rcases Result.bind_eq_error.1 hf with hf | ⟨x, -, hf⟩
  · exact h f hf
  · exact hg x f hf

theorem map (h : BlamesGaps p r) (g : α → β) : BlamesGaps p (g <$> r) :=
  fun f hf => h f (Result.map_eq_error.1 hf)

theorem atSpan (h : BlamesGaps p r) (span : Option Span) :
    BlamesGaps p (r.mapError (·.atSpan span)) := by
  intro f hf hbug
  cases r with
  | ok x => cases hf
  | error e =>
    cases hf
    obtain ⟨hgap, hp⟩ := h e rfl (Failure.isBug_atSpan.1 hbug)
    exact ⟨hgap.atSpan span, hp⟩

theorem andThen {a : Mentioning α} {g : α → Mentioning β} (h : BlamesGaps p a.result)
    (hg : ∀ x, BlamesGaps p (g x).result) : BlamesGaps p (a >>= g).result := by
  cases ha : a.result with
  | error e =>
    rw [ha] at h
    rw [Mentioning.bind_of_error ha]
    exact h.error
  | ok x =>
    rw [Mentioning.bind_of_ok ha]
    exact hg x

end BlamesGaps

/-! ### Types -/

namespace TypeExpr

mutual

/-- Whether every path in the type has a segment. -/
def isComplete : TypeExpr → Bool
  | path segments generics => !segments.isEmpty && areComplete generics
  | function params output _ => areParamsComplete params && isOutputComplete output
  | tuple ts => areComplete ts
  | never => true
  | pointer _ t | array t _ | reference _ _ t | slice t => t.isComplete

def areComplete : List TypeExpr → Bool
  | [] => true
  | t :: ts => t.isComplete && areComplete ts

def areParamsComplete : List Param → Bool
  | [] => true
  | .mk _ t :: ps => t.isComplete && areParamsComplete ps

def isOutputComplete : Option TypeExpr → Bool
  | none => true
  | some t => t.isComplete

end

theorem blamesGaps_refuse {α : Type} {p : Prop} {t : TypeExpr} {cause : TypeExpr → Cause}
    (h : (cause t).level = .error) : BlamesGaps p (t.refuse cause : Except Failure α) := by
  have hlevel : ¬(Failure.reject (cause t)).IsBug := by
    intro hbug
    have hbug : (cause t).level = .bug := Option.some.inj hbug
    rw [h] at hbug
    cases hbug
  unfold refuse
  split
  · exact .fault hlevel
  · exact .fault nofun

theorem blamesGaps_symbol {p : Prop} (v : Value) : BlamesGaps p (symbol v) := by
  unfold symbol
  split
  · exact .ok _
  · exact .fault nofun

theorem blamesGaps_ofPath (segments : List Value) (generics : List TypeExpr) :
    BlamesGaps (segments ≠ []) (ofPath segments generics) := by
  unfold ofPath
  split
  · next hlast => exact .gap ⟨none, Or.inr rfl⟩ fun h => h (List.getLast?_eq_none_iff.1 hlast)
  · split
    · exact blamesGaps_refuse rfl
    · split
      · exact (blamesGaps_symbol _).map _
      · split
        · exact .fault nofun
        · split
          · exact (blamesGaps_symbol _).map _
          · exact blamesGaps_refuse rfl

theorem blamesGaps_anonymous (t : TypeExpr) : BlamesGaps t.isComplete t.anonymous := by
  induction t using anonymous.induct with
  | case1 segments generics =>
    rw [anonymous]
    refine (blamesGaps_ofPath segments generics).mono fun h => ?_
    rw [isComplete, Bool.and_eq_true] at h
    rintro rfl
    cases h.1
  | case2 isMutable t ih | case3 t length ih =>
    rw [anonymous, isComplete]
    exact ih.map _
  | case4 params output lifetimes =>
    rw [anonymous]
    exact blamesGaps_refuse rfl
  | case5 => exact .ok _
  | case6 =>
    refine .fault fun hbug => ?_
    cases hbug
  | case7 t =>
    rw [anonymous]
    · exact blamesGaps_refuse rfl
    all_goals assumption

theorem blamesGaps_result (output : Option TypeExpr) :
    BlamesGaps (isOutputComplete output) (result output) := by
  cases output with
  | none => exact .ok _
  | some t => exact blamesGaps_anonymous t

end TypeExpr

namespace Param

theorem blamesGaps_trimmed {p : Prop} (pattern : Value) : BlamesGaps p (trimmed pattern) := by
  unfold trimmed
  split
  · exact .ok _
  · exact .fault nofun

theorem blamesGaps_boundName {p : Prop} (pattern : Value) (function : String) :
    BlamesGaps p (boundName pattern function) := by
  refine (blamesGaps_trimmed pattern).bind fun cs => ?_
  split
  · exact .ok _
  · exact .fault nofun

theorem blamesGaps_pointerBoundName {p : Prop} (pattern : Value) (function : String) :
    BlamesGaps p (pointerBoundName pattern function) := by
  refine (blamesGaps_trimmed pattern).bind fun cs => ?_
  split
  · exact .ok _
  · exact blamesGaps_boundName pattern function

end Param

namespace TypeExpr

mutual

theorem blamesGaps_declare : ∀ (t : TypeExpr) (x : String), BlamesGaps t.isComplete (t.declare x)
  | function params output lifetimes, x => by
    rw [declare, isComplete, Bool.and_eq_true]
    split
    · exact blamesGaps_refuse rfl
    · refine ((blamesGaps_declareArgs _ _ params).mono And.left).bind fun args => ?_
      exact ((blamesGaps_result output).mono And.right).bind fun c => .ok _
  | path _ _, x | pointer _ _, x | array _ _, x | tuple _, x | never, x | reference _ _ _, x
  | slice _, x => by
    rw [declare]
    · exact (blamesGaps_anonymous _).map _
    · simp

theorem blamesGaps_declareArgs (isPrintable : Bool) (text : String) :
    ∀ params : List Param,
      BlamesGaps (areParamsComplete params) (declareArgs isPrintable text params)
  | [] => .ok _
  | .mk pattern t :: params => by
    rw [declareArgs, areParamsComplete, Bool.and_eq_true]
    have harg : BlamesGaps t.isComplete (declareArg isPrintable text (.mk pattern t)) := by
      rw [declareArg]
      split
      · exact (Param.blamesGaps_pointerBoundName pattern text).bind fun x => blamesGaps_declare t x
      · exact .fault nofun
    refine (harg.mono And.left).bind fun d => ?_
    exact ((blamesGaps_declareArgs isPrintable text params).mono And.right).bind fun ds => .ok _

end

end TypeExpr

/-! ### Declarations -/

theorem TypeExpr.blamesGaps_render (t : TypeExpr) (x : String) (span : Option Span) :
    BlamesGaps t.isComplete (t.render x span).result := by
  have hdeclare := (blamesGaps_declare t x).atSpan span
  unfold render
  cases hd : t.declare x with
  | error f =>
    rw [hd, Except.mapError] at hdeclare
    exact hdeclare.error
  | ok d =>
    dsimp only
    split
    · exact .ok _
    · exact .fault nofun

/-- Whether the field has a name, and its type every part. -/
def Field.isComplete (f : Field) : Bool := !f.isPositional && f.type.isComplete

theorem Field.blamesGaps_renderAll (fs : List Field) (span : Option Span) :
    BlamesGaps (fs.all isComplete) (renderAll span fs).result := by
  induction fs with
  | nil => exact .ok _
  | cons f fs ih =>
    have hf : BlamesGaps f.isComplete (f.render span).result := by
      rw [isComplete, Bool.and_eq_true, Bool.not_eq_true']
      unfold render
      split
      · next hp =>
        refine .gap ⟨_, Or.inl rfl⟩ fun h => ?_
        rw [hp] at h
        cases h.1
      · exact ((f.type.blamesGaps_render _ span).mono And.right).andThen fun text => .ok _
    rw [renderAll, List.all_cons, Bool.and_eq_true]
    refine (hf.mono And.left).andThen fun line => ?_
    exact (ih.mono And.right).andThen fun lines => .ok _

theorem Param.blamesGaps_renderAll (ps : List Param) (function : String) (span : Option Span) :
    BlamesGaps (TypeExpr.areParamsComplete ps) (renderAll function span ps).result := by
  induction ps with
  | nil => exact .ok _
  | cons p ps ih =>
    obtain ⟨pattern, t⟩ := p
    have hp : BlamesGaps t.isComplete (Param.render function span (.mk pattern t)).result :=
      BlamesGaps.andThen ((blamesGaps_boundName pattern function).atSpan span)
        fun x => t.blamesGaps_render x span
    rw [renderAll, TypeExpr.areParamsComplete, Bool.and_eq_true]
    refine (hp.mono And.left).andThen fun arg => ?_
    exact (ih.mono And.right).andThen fun args => .ok _

theorem blamesGaps_renderPrototype (output : Option TypeExpr) (head : String) (span : Option Span) :
    BlamesGaps (TypeExpr.isOutputComplete output) (renderPrototype head span output).result := by
  unfold renderPrototype
  split
  · exact .ok _
  · exact .fault nofun
  · next t _ => exact t.blamesGaps_render head span

namespace Declaration

/-- The fields that the declaration writes out have names, and every path in it has a segment. -/
def IsComplete (d : Declaration) : Prop :=
  match d.body with
  | .typeAlias t => t.isComplete
  | .enum _ => True
  | .struct kind fields => kind = .text "named" → fields.all Field.isComplete
  | .function _ params output =>
    TypeExpr.areParamsComplete params ∧ TypeExpr.isOutputComplete output

theorem blamesGaps_renderStructBody (kind : Value) (fields : List Field) (span : Option Span) :
    BlamesGaps (kind = .text "named" → fields.all Field.isComplete)
      (renderStructBody kind fields span).result := by
  unfold renderStructBody
  split
  · refine ((Field.blamesGaps_renderAll _ span).mono fun h => h rfl).andThen fun lines => ?_
    exact .ok _
  · exact .ok _
  · exact .fault nofun

theorem blamesGaps_render (d : Declaration) : BlamesGaps d.IsComplete d.render.result := by
  unfold render IsComplete
  cases hb : d.body with
  | typeAlias t => exact (t.blamesGaps_render _ d.span).andThen fun text => .ok _
  | enum variants => exact .ok _
  | struct kind fields =>
    exact (blamesGaps_renderStructBody kind fields d.span).andThen fun body => .ok _
  | function abi params output =>
    refine ((Param.blamesGaps_renderAll params _ d.span).mono And.left).andThen fun args => ?_
    exact ((blamesGaps_renderPrototype output _ d.span).mono And.right).andThen fun text => .ok _

theorem blamesGaps_check {p : Prop} (d : Declaration) : BlamesGaps p d.check := by
  have hconcrete : ∀ {cause : Cause}, cause.level = .error →
      BlamesGaps p (if d.generics.isEmpty then .ok () else .error (.rejected cause d.span)) := by
    intro cause hcause
    split
    · exact .ok _
    · refine .fault fun hbug => ?_
      have hbug : cause.level = .bug := Option.some.inj hbug
      rw [hcause] at hbug
      cases hbug
  unfold check
  cases hb : d.body with
  | typeAlias t => exact .ok _
  | enum variants =>
    refine (hconcrete rfl).bind fun u => ?_
    split
    · exact .fault nofun
    · exact .ok _
  | struct | function => exact hconcrete rfl

/-- What is wrong with an exported declaration: the first fault found in it. -/
def fault? (d : Declaration) : Option Failure :=
  match d.check >>= fun _ => d.render.result with
  | .ok _ => none
  | .error f => some f

theorem fault?_eq_some_iff {d : Declaration} {f : Failure} :
    d.fault? = some f ↔
      d.check = .error f ∨ d.check = .ok () ∧ d.render.result = .error f := by
  unfold fault?
  cases d.check with
  | error e => exact Option.some_inj.trans (by simp)
  | ok u =>
    change (match d.render.result with | .ok _ => none | .error f => some f) = some f ↔ _
    cases d.render.result with
    | error e => simp
    | ok text => simp

theorem isRejection_of_fault? {d : Declaration} (hd : d.hasTextNames) {f : Failure}
    (h : d.fault? = some f) : f.IsRejection := by
  rcases fault?_eq_some_iff.1 h with hcheck | ⟨-, hrender⟩
  · exact isRejection_of_check hcheck
  · exact (isConfined_render hd).failure f hrender

/-- A fault is a bug exactly if it is a gap, and a complete declaration has no such fault. -/
theorem isBug_iff_of_fault? {d : Declaration} {f : Failure} (h : d.fault? = some f) :
    (f.IsBug ↔ f.IsGap) ∧ (f.IsBug → ¬d.IsComplete) := by
  have hblames : f.IsBug → f.IsGap ∧ ¬d.IsComplete := by
    rcases fault?_eq_some_iff.1 h with hcheck | ⟨-, hrender⟩
    · exact d.blamesGaps_check f hcheck
    · exact d.blamesGaps_render f hrender
  exact ⟨⟨fun hbug => (hblames hbug).1, Failure.IsGap.isBug⟩, fun hbug => (hblames hbug).2⟩

end Declaration

/-! ### Compilations -/

namespace State

variable {s : State} {libName : String}

/-- An emission fails exactly for an exported declaration with a fault, and with that fault. -/
theorem Emission.eq_error_iff {path : List Value} {d : Declaration}
    {r : State × Except Failure Outcome} (he : Emission s path d r) (hs : s.libName = .text libName)
    (hne : path ≠ []) (hpath : path.all Value.isText) (hd : d.hasTextNames) {f : Failure} :
    r.2 = .error f ↔ d.IsExported ∧ d.fault? = some f := by
  obtain ⟨ms, rfl⟩ := Value.exists_texts hpath
  have hms : ms ≠ [] := by
    rintro rfl
    exact hne rfl
  have hskip := Declaration.skip?_eq_none_iff (d := d)
  cases he with
  | skipped reason hs' =>
    refine iff_of_false nofun fun hx => ?_
    rw [hskip.2 hx.1] at hs'
    cases hs'
  | unread e hs' =>
    obtain ⟨reason, hr⟩ := Declaration.exists_skip (Declaration.hasTextAbi_of_hasTextNames hd)
    rw [hr] at hs'
    cases hs'
  | unfit e hs' hc =>
    have hfault : d.fault? = some e := Declaration.fault?_eq_some_iff.2 (Or.inl hc)
    rw [hfault, and_iff_right (hskip.1 hs'), Option.some.injEq, Except.error.injEq]
  | homeless e hs' hc hm =>
    rw [hs, Header.ofModule_texts libName hms] at hm
    cases hm
  | unwritten h e hs' hc hm hr =>
    have hfault : d.fault? = some e := Declaration.fault?_eq_some_iff.2 (Or.inr ⟨hc, hr⟩)
    rw [hfault, and_iff_right (hskip.1 hs'), Option.some.injEq, Except.error.injEq]
  | nameless h text hs' hc hm hr ht hn =>
    rw [Declaration.ofValue?_name hd] at hn
    cases hn
  | function h text hs' hc hm hr | type h text n hs' hc hm hr =>
    refine iff_of_false nofun fun hx => ?_
    rcases Declaration.fault?_eq_some_iff.1 hx.2 with hc' | ⟨-, hr'⟩
    · rw [hc] at hc'
      cases hc'
    · rw [hr] at hr'
      cases hr'

theorem visit_eq_error_iff {path : List Value} {d : Declaration} {f : Failure} :
    (s.visit (.declaration path d)).result = .error f ↔ (s.emit path d).2 = .error f := by
  rw [visit]
  rcases s.emit path d with ⟨t, e | outcome⟩
  · simp
  · simp

/-- A walk fails with the first fault of a public declaration that is exported. -/
theorem feed_eq_error_iff {es : List (List Value × Declaration)} (hs : s.libName = .text libName)
    (hes : ∀ e ∈ es, e.1 ≠ [] ∧ e.1.all Value.isText ∧ e.2.hasTextNames) {f : Failure} :
    (s.feed (es.map .of)).result = .error f ↔
      (es.filter fun e => e.2.isPublic && decide e.2.IsExported).findSome? (·.2.fault?) = some f := by
  induction es generalizing s with
  | nil => simp [feed]
  | cons e es ih =>
    obtain ⟨⟨hne, hpath, hd⟩, hes⟩ := List.forall_mem_cons.1 hes
    have hstate : (s.visit (.of e)).state.libName = .text libName :=
      (visit_extends s _).libName.trans hs
    have hrest := ih hstate hes
    have hvisit : ∀ g, (s.visit (.of e)).result = .error g ↔
        (e.2.isPublic ∧ e.2.IsExported) ∧ e.2.fault? = some g := by
      intro g
      cases hp : e.2.isPublic with
      | true =>
        have hv : Visit.of e = .declaration e.1 e.2 := if_pos hp
        rw [hv, visit_eq_error_iff, (emission_emit s e.1 e.2).eq_error_iff hs hne hpath hd]
        simp
      | false =>
        have hv : Visit.of e = .hidden e.1 e.2.name := if_neg (by simp [hp])
        obtain ⟨p, hp⟩ := Value.exists_texts hpath
        rw [hv, hp, visit, Value.texts?_map_text]
        simp
    rw [List.map_cons, feed]
    by_cases hx : e.2.isPublic ∧ e.2.IsExported
    · rw [List.filter_cons_of_pos (by simpa using hx), List.findSome?_cons]
      cases hfault : e.2.fault? with
      | some g =>
        rw [(hvisit g).2 ⟨hx, hfault⟩]
        simp
      | none =>
        cases hr : (s.visit (.of e)).result with
        | error g =>
          have hg := ((hvisit g).1 hr).2
          rw [hfault] at hg
          cases hg
        | ok u => exact hrest
    · rw [List.filter_cons_of_neg (by simpa using hx)]
      cases hr : (s.visit (.of e)).result with
      | error g => exact absurd ((hvisit g).1 hr).1 hx
      | ok u => exact hrest

end State

namespace Writer

theorem compile_eq_error_iff {w : Writer} {m : Module} {f : Failure} :
    (w.compile m true).result = .error f ↔
      (w.state.feed m.visits).result = .error f ∨
        (w.state.feed m.visits).result = .ok () ∧
          ((w.state.feed m.visits).state.finalise w.customCode).2 = .error f := by
  rw [compile_eq_andThen]
  cases hr : (w.state.feed m.visits).result with
  | error e =>
    rw [Progress.andThen_of_error hr]
    simp
  | ok u =>
    rw [Progress.andThen_of_ok hr]
    dsimp only
    rw [(close_of_finish _ _).2]
    cases ((w.state.feed m.visits).state.finalise w.customCode).2 with
    | error e => simp [Except.map]
    | ok b => simp [Except.map]

theorem level_of_finalise_feed {libName customCode : String} {m : Module}
    (hm : ∀ e ∈ declarationsOf [m.name] m.items, e.2.hasTextNames) {f : Failure}
    (h : (((new (.text libName) customCode).state.feed m.visits).state.finalise customCode).2 =
      .error f) : f.diagnostic?.map (·.level) = some .error := by
  have hnames : ∀ d ∈ (Request.compile m false).declarations, d.hasTextNames := by
    intro d hd
    obtain ⟨e, he, rfl⟩ := List.mem_map.1 hd
    exact hm e he
  have hsound : ((State.initial (.text libName)).feed m.visits).state.IsSound
      ([] ++ (new (.text libName) customCode).calls (.compile m false)) := by
    rw [State.feed_state]
    refine (State.isSound_initial _).run fun c hc d hd => hnames d ?_
    exact mem_declarations_of_mem_calls (w := new (.text libName) customCode) hc hd
  have hopen : ((State.initial (.text libName)).feed m.visits).state.isFinalised = false :=
    (State.feed_extends _ _).isFinalised
  rw [(State.refuses_of_finalise hsound.words h).level, hopen]
  rfl

/-- A compilation gives files or is rejected. The rejection is an error, except that a bug is reported
where the first fault of the exported declarations is a gap; if they are complete, there is none. -/
theorem compile_blames (libName customCode : String) {m : Module}
    (hm : ∀ e ∈ declarationsOf [m.name] m.items, e.1.all Value.isText ∧ e.2.hasTextNames) :
    (∀ f, ((new (.text libName) customCode).compile m true).result = .error f →
        f.diagnostic?.map (·.level) = some .error ∨ f.IsBug ∧ f.IsGap) ∧
      (∀ f, f.IsBug →
        (((new (.text libName) customCode).compile m true).result = .error f ↔
          m.exports.findSome? (·.2.fault?) = some f)) ∧
      ((∀ e ∈ m.exports, e.2.IsComplete) →
        ∀ f, ((new (.text libName) customCode).compile m true).result = .error f →
          f.diagnostic?.map (·.level) = some .error) := by
  have hes : ∀ e ∈ declarationsOf [m.name] m.items,
      e.1 ≠ [] ∧ e.1.all Value.isText ∧ e.2.hasTextNames := by
    intro e he
    refine ⟨?_, hm e he⟩
    rw [declarationsOf_eq_map] at he
    obtain ⟨p, -, rfl⟩ := List.mem_map.1 he
    exact List.cons_ne_nil _ _
  have hfeed : ∀ f, ((new (.text libName) customCode).state.feed m.visits).result = .error f ↔
      m.exports.findSome? (·.2.fault?) = some f := by
    intro f
    rw [Module.visits, visitsOf_eq_map]
    exact State.feed_eq_error_iff rfl hes
  have hlevel : ∀ {f}, m.exports.findSome? (·.2.fault?) = some f →
      (f.diagnostic?.map (·.level) = some .error ∨ f.IsBug ∧ f.IsGap) ∧
        (f.IsBug → ∃ e ∈ m.exports, ¬e.2.IsComplete) := by
    intro f hf
    obtain ⟨e, he, hef⟩ := List.exists_of_findSome?_eq_some hf
    obtain ⟨hgap, hcomplete⟩ := Declaration.isBug_iff_of_fault? hef
    refine ⟨?_, fun hbug => ⟨e, he, hcomplete hbug⟩⟩
    rcases (Declaration.isRejection_of_fault? (hm e (List.mem_filter.1 he).1).2 hef).level with
      herror | hbug
    · exact Or.inl herror
    · exact Or.inr ⟨hbug, hgap.1 hbug⟩
  have hend : ∀ {f}, (((new (.text libName) customCode).state.feed m.visits).state.finalise
      customCode).2 = .error f → f.diagnostic?.map (·.level) = some .error :=
    fun hf => level_of_finalise_feed (fun e he => (hm e he).2) hf
  have hnotBug : ∀ {f : Failure}, f.diagnostic?.map (·.level) = some .error → ¬f.IsBug := by
    intro f herror hbug
    rw [Failure.IsBug, herror] at hbug
    cases hbug
  refine ⟨fun f hf => ?_, fun f hbug => ?_, fun hcomplete f hf => ?_⟩
  · rcases compile_eq_error_iff.1 hf with hf | ⟨-, hf⟩
    · exact (hlevel ((hfeed f).1 hf)).1
    · exact Or.inl (hend hf)
  · rw [compile_eq_error_iff, hfeed]
    exact or_iff_left fun hf => hnotBug (hend hf.2) hbug
  · rcases compile_eq_error_iff.1 hf with hf | ⟨-, hf⟩
    · obtain ⟨herror | ⟨hbug, -⟩, hmissing⟩ := hlevel ((hfeed f).1 hf)
      · exact herror
      · obtain ⟨e, he, hne⟩ := hmissing hbug
        exact absurd (hcomplete e he) hne
    · exact hend hf

/-- Two fields of a struct of which the second one has no name, as a document describes them. -/
def namelessDocument : Value :=
  .object [("name", .text "ffi"), ("items", .list [.object
    [("kind", .text "struct"), ("name", .text "Pair"),
      ("attrs", .list [.object [("name", .text "repr"), ("items", .list [.text "C"])]]),
      ("fields", .list [.object [("name", .text "first"), ("type", .text "u8")],
        .object [("type", .text "u8")]])]])]

/-- An alias of a path without segments, as a document describes it. -/
def pathlessDocument : Value :=
  .object [("name", .text "ffi"), ("items", .list [.object
    [("kind", .text "type"), ("name", .text "Empty"),
      ("type", .object [("kind", .text "path"), ("segments", .list [])])]])]

/-- To compile what the document describes, where all names are texts, is reported as a bug. -/
def ReportsBug (document : Value) : Prop :=
  ∃ m f, Source.moduleOf document = .ok m ∧
    (∀ e ∈ declarationsOf [m.name] m.items, e.1.all Value.isText ∧ e.2.hasTextNames) ∧
    ((new (.text "lib") "").compile m true).result = .error f ∧ f.IsBug

theorem reportsBug_of_gap : ReportsBug pathlessDocument ∧ ReportsBug namelessDocument :=
  ⟨⟨_, _, rfl, by decide, rfl, rfl⟩, ⟨_, _, rfl, by decide, rfl, rfl⟩⟩

/-- A function whose parameter is a pattern, behind an alias of a path without segments that is not
exported. -/
def patternTree : Module where
  name := .text "ffi"
  items :=
    [.declaration ⟨.text "Empty", [], [.text "T"], true, none, .typeAlias (.path [] [])⟩,
      .declaration ⟨.text "swap", [.word (.text "no_mangle")], [], true, none,
        .function (.text "C") [.mk (.text "(a, b)") (.named "u8")] none⟩]

theorem compile_blames_patternTree :
    (∀ e ∈ declarationsOf [patternTree.name] patternTree.items,
      e.1.all Value.isText ∧ e.2.hasTextNames) ∧
      (∀ e ∈ patternTree.exports, e.2.IsComplete) ∧
      ∃ f, ((new (.text "lib") "").compile patternTree true).result = .error f ∧
        f.diagnostic?.map (·.level) = some .error := by
  have hnames : ∀ e ∈ declarationsOf [patternTree.name] patternTree.items,
      e.1.all Value.isText ∧ e.2.hasTextNames := by decide
  have hcomplete : ∀ e ∈ patternTree.exports, e.2.IsComplete := by
    refine List.forall_mem_cons.2 ⟨⟨rfl, rfl⟩, List.forall_mem_nil _⟩
  obtain ⟨-, -, hlevel⟩ := compile_blames "lib" "" hnames
  exact ⟨hnames, hcomplete, _, rfl, hlevel hcomplete _ rfl⟩

end Writer

end FfiHeaders
