import FfiHeaders.Proofs.Run

/-!
# Where rejections are placed

A type does not know where it was written, so a fault of a type has no place of its own. The
declaration around it lends its place, unless the fault is that of a member which has one.
-/
namespace FfiHeaders

/-- The failure is a rejection at one of `spans`, or it is reported to nobody. -/
inductive Failure.IsPlaced (spans : List (Option Span)) : Failure → Prop
  | rejected (cause : Cause) {span : Option Span} (h : span ∈ spans) :
      IsPlaced spans (.rejected cause span)
  | mismatch (m : Mismatch) : IsPlaced spans (.mismatch m)

theorem Failure.IsPlaced.atSpan {f : Failure} (h : f.IsPlaced [none]) (span : Option Span) :
    (f.atSpan span).IsPlaced [span] := by
  cases h with
  | rejected cause hnone =>
    obtain rfl := List.mem_singleton.1 hnone
    exact .rejected cause (List.mem_singleton_self span)
  | mismatch m => exact .mismatch m

/-- The step fails at none but the given places. -/
def FailsAt {α : Type} (spans : List (Option Span)) (r : Except Failure α) : Prop :=
  ∀ f, r = .error f → f.IsPlaced spans

namespace FailsAt

variable {α β : Type} {spans more : List (Option Span)} {r : Except Failure α}

theorem ok (x : α) : FailsAt spans (.ok x : Except Failure α) := nofun

theorem error {f : Failure} (h : f.IsPlaced spans) : FailsAt spans (.error f : Except Failure α) := by
  rintro _ ⟨⟩
  exact h

theorem mono (h : FailsAt spans r) (hsub : spans ⊆ more) : FailsAt more r := by
  intro f hf
  cases h f hf with
  | rejected cause hspan => exact .rejected cause (hsub hspan)
  | mismatch m => exact .mismatch m

theorem bind {k : α → Except Failure β} (h : FailsAt spans r) (hk : ∀ x, FailsAt spans (k x)) :
    FailsAt spans (r >>= k) := by
  intro f hf
  rcases Result.bind_eq_error.1 hf with hf | ⟨x, -, hf⟩
  · exact h f hf
  · exact hk x f hf

theorem map (h : FailsAt spans r) (k : α → β) : FailsAt spans (k <$> r) :=
  fun f hf => h f (Result.map_eq_error.1 hf)

theorem atSpan (h : FailsAt [none] r) (span : Option Span) :
    FailsAt [span] (r.mapError (·.atSpan span)) := by
  cases r with
  | ok x => exact .ok x
  | error f => exact .error ((h f rfl).atSpan span)

theorem andThen {a : Mentioning α} {k : α → Mentioning β} (h : FailsAt spans a.result)
    (hk : ∀ x, FailsAt spans (k x).result) : FailsAt spans (a >>= k).result := by
  cases ha : a.result with
  | error f =>
    rw [Mentioning.bind_of_error ha]
    exact .error (h f ha)
  | ok x =>
    rw [Mentioning.bind_of_ok ha]
    exact hk x

end FailsAt

/-! ### Types -/

theorem failsAt_reject {α : Type} (cause : Cause) :
    FailsAt [none] (.error (.reject cause) : Except Failure α) :=
  .error (.rejected cause (List.mem_singleton_self _))

theorem failsAt_mismatch {α : Type} {spans : List (Option Span)} (m : Mismatch) :
    FailsAt spans (.error (.mismatch m) : Except Failure α) :=
  .error (.mismatch m)

namespace Param

theorem failsAt_trimmed (pattern : Value) : FailsAt [none] (trimmed pattern) := by
  cases pattern with
  | text s => exact .ok _
  | _ => exact failsAt_mismatch _

theorem failsAt_boundName (pattern : Value) (function : String) :
    FailsAt [none] (boundName pattern function) := by
  refine (failsAt_trimmed pattern).bind fun cs => ?_
  split
  · exact .ok _
  · exact failsAt_reject _

theorem failsAt_pointerBoundName (pattern : Value) (function : String) :
    FailsAt [none] (pointerBoundName pattern function) := by
  refine (failsAt_trimmed pattern).bind fun cs => ?_
  split
  · exact .ok _
  · exact failsAt_boundName pattern function

end Param

namespace TypeExpr

theorem failsAt_refuse {α : Type} (t : TypeExpr) (cause : TypeExpr → Cause) :
    FailsAt [none] (t.refuse cause : Except Failure α) := by
  unfold refuse
  split
  · exact failsAt_reject _
  · exact failsAt_mismatch _

theorem failsAt_symbol (v : Value) : FailsAt [none] (symbol v) := by
  unfold symbol
  split
  · exact .ok _
  · exact failsAt_mismatch _

theorem failsAt_ofPath (segments : List Value) (generics : List TypeExpr) :
    FailsAt [none] (ofPath segments generics) := by
  unfold ofPath
  split
  · exact failsAt_reject _
  · split
    · exact failsAt_refuse _ _
    · split
      · exact (failsAt_symbol _).map _
      · split
        · exact failsAt_mismatch _
        · split
          · exact (failsAt_symbol _).map _
          · exact failsAt_refuse _ _

theorem failsAt_anonymous (t : TypeExpr) : FailsAt [none] t.anonymous := by
  induction t using anonymous.induct with
  | case1 segments generics =>
    rw [anonymous]
    exact failsAt_ofPath segments generics
  | case2 isMutable t ih | case3 t length ih =>
    rw [anonymous]
    exact ih.map _
  | case4 params output lifetimes =>
    rw [anonymous]
    exact failsAt_refuse _ _
  | case5 => exact .ok _
  | case6 => exact failsAt_reject _
  | case7 t =>
    rw [anonymous]
    · exact failsAt_refuse _ _
    all_goals assumption

theorem failsAt_result (output : Option TypeExpr) : FailsAt [none] (result output) := by
  cases output with
  | none => exact .ok _
  | some t => exact failsAt_anonymous t

mutual

/-- However deep the type at fault lies, its fault has no place yet. -/
theorem failsAt_declare : ∀ (t : TypeExpr) (x : String), FailsAt [none] (t.declare x)
  | function params output lifetimes, x => by
    rw [declare]
    split
    · exact failsAt_refuse _ _
    · refine (failsAt_declareArgs _ _ params).bind fun args => ?_
      exact (failsAt_result output).bind fun c => .ok _
  | path _ _, x | pointer _ _, x | array _ _, x | tuple _, x | never, x | reference _ _ _, x
  | slice _, x => by
    rw [declare]
    · exact (failsAt_anonymous _).map _
    · simp

theorem failsAt_declareArgs (isPrintable : Bool) (text : String) :
    ∀ params : List Param, FailsAt [none] (declareArgs isPrintable text params)
  | [] => .ok _
  | .mk pattern t :: params => by
    have harg : FailsAt [none] (declareArg isPrintable text (.mk pattern t)) := by
      rw [declareArg]
      split
      · exact (Param.failsAt_pointerBoundName pattern text).bind fun x => failsAt_declare t x
      · exact failsAt_mismatch _
    rw [declareArgs]
    refine harg.bind fun d => ?_
    exact (failsAt_declareArgs isPrintable text params).bind fun ds => .ok _

end

theorem failsAt_render (t : TypeExpr) (x : String) (span : Option Span) :
    FailsAt [span] (t.render x span).result := by
  unfold render
  cases hd : t.declare x with
  | error f => exact .error ((failsAt_declare t x f hd).atSpan span)
  | ok d =>
    dsimp only
    split
    · exact .ok _
    · exact failsAt_mismatch _

end TypeExpr

/-! ### Declarations -/

/-- The places of the fields that have no name. -/
def Field.unnamedPlaces (fs : List Field) : List Span := (fs.filter isPositional).filterMap (·.span)

/-- The places of the variants that have fields. -/
def Variant.payloadPlaces (vs : List Variant) : List Span :=
  (vs.filter (!·.isUnit)).filterMap (·.span)

/-- The places of the members that can be at fault themselves, whatever their types are. -/
def Declaration.memberPlaces (d : Declaration) : List Span :=
  match d.body with
  | .enum variants => Variant.payloadPlaces variants
  | .struct _ fields => Field.unnamedPlaces fields
  | .typeAlias _ | .function .. => []

/-- A member's fault is placed at the member, or around it if the member has no place. -/
theorem or_mem_places {α : Type} {p : α → Bool} {place : α → Option Span} {xs : List α} {x : α}
    (hx : x ∈ xs) (hp : p x) (span : Option Span) :
    (place x).or span ∈ span :: ((xs.filter p).filterMap place).map some := by
  cases hplace : place x with
  | none => exact List.mem_cons_self
  | some s =>
    refine List.mem_cons_of_mem span (List.mem_map.2 ⟨s, ?_, rfl⟩)
    exact List.mem_filterMap.2 ⟨x, List.mem_filter.2 ⟨hx, hp⟩, hplace⟩

theorem Field.failsAt_renderAll (fs : List Field) (span : Option Span) :
    FailsAt (span :: (unnamedPlaces fs).map some) (renderAll span fs).result := by
  -- the places stay those of the whole list while the fields are taken one by one
  suffices h : ∀ gs : List Field, gs ⊆ fs →
      FailsAt (span :: (unnamedPlaces fs).map some) (renderAll span gs).result from
    h fs (List.Subset.refl fs)
  intro gs hgs
  induction gs with
  | nil => exact .ok _
  | cons g gs ih =>
    obtain ⟨hg, hgs⟩ := List.cons_subset.1 hgs
    have hfield : FailsAt (span :: (unnamedPlaces fs).map some) (g.render span).result := by
      unfold render
      split
      · next hp => exact .error (.rejected _ (or_mem_places hg hp span))
      · exact ((g.type.failsAt_render _ span).mono (by simp)).andThen fun text => .ok _
    rw [renderAll]
    exact hfield.andThen fun line => (ih hgs).andThen fun lines => .ok _

theorem Param.failsAt_renderAll (ps : List Param) (function : String) (span : Option Span) :
    FailsAt [span] (renderAll function span ps).result := by
  induction ps with
  | nil => exact .ok _
  | cons p ps ih =>
    have hp : FailsAt [span] (p.render function span).result :=
      FailsAt.andThen ((failsAt_boundName p.pattern function).atSpan span)
        fun x => p.type.failsAt_render x span
    rw [renderAll]
    exact hp.andThen fun arg => ih.andThen fun args => .ok _

theorem failsAt_renderPrototype (head : String) (span : Option Span) (output : Option TypeExpr) :
    FailsAt [span] (renderPrototype head span output).result := by
  unfold renderPrototype
  split
  · exact .ok _
  · exact .error (.rejected _ (List.mem_singleton_self span))
  · next t _ => exact t.failsAt_render head span

namespace Declaration

/-- The places at which the declaration may be rejected, with its own one first. -/
def places (d : Declaration) : List (Option Span) := d.span :: d.memberPlaces.map some

theorem failsAt_renderStructBody (kind : Value) (fields : List Field) (span : Option Span) :
    FailsAt (span :: (Field.unnamedPlaces fields).map some)
      (renderStructBody kind fields span).result := by
  unfold renderStructBody
  split
  · exact (Field.failsAt_renderAll _ span).andThen fun lines => .ok _
  · exact .ok _
  · exact .error (.rejected _ List.mem_cons_self)

theorem failsAt_render (d : Declaration) : FailsAt d.places d.render.result := by
  have hown : [d.span] ⊆ d.places := by simp [places]
  unfold render
  cases hb : d.body with
  | typeAlias t => exact ((t.failsAt_render _ d.span).mono hown).andThen fun text => .ok _
  | enum variants => exact .ok _
  | struct kind fields =>
    have hplaces : d.places = d.span :: (Field.unnamedPlaces fields).map some := by
      rw [places, memberPlaces, hb]
    rw [hplaces]
    exact (failsAt_renderStructBody kind fields d.span).andThen fun body => .ok _
  | function abi params output =>
    refine ((Param.failsAt_renderAll params _ d.span).mono hown).andThen fun args => ?_
    exact ((failsAt_renderPrototype _ d.span output).mono hown).andThen fun text => .ok _

theorem failsAt_check (d : Declaration) : FailsAt d.places d.check := by
  have hconcrete : ∀ cause : Cause, FailsAt d.places
      (if d.generics.isEmpty then .ok () else .error (.rejected cause d.span)) := by
    intro cause
    split
    · exact .ok _
    · exact .error (.rejected cause List.mem_cons_self)
  unfold check
  cases hb : d.body with
  | typeAlias t => exact .ok _
  | enum variants =>
    refine (hconcrete _).bind fun u => ?_
    split
    · next v hv =>
      have hplaces : d.places = d.span :: (Variant.payloadPlaces variants).map some := by
        rw [places, memberPlaces, hb]
      rw [hplaces]
      exact .error (.rejected _ (or_mem_places (List.mem_of_find?_eq_some hv) (List.find?_some hv) _))
    · exact .ok _
  | struct | function => exact hconcrete _

theorem failsAt_skip? (d : Declaration) : FailsAt d.places d.skip? := by
  unfold skip?
  split
  · exact .ok _
  · exact .ok _
  · exact .ok _
  · split
    · split
      · exact failsAt_mismatch _
      · exact .ok _
      · exact .ok _
    · exact .ok _

end Declaration

theorem Header.failsAt_ofModule {spans : List (Option Span)} {libName : Value} {module : List Value}
    (h : module ≠ []) : FailsAt spans (ofModule libName module) := by
  unfold ofModule
  rw [if_neg (by simpa using h)]
  split
  · exact failsAt_mismatch _
  · split
    · exact failsAt_mismatch _
    · exact .ok _

namespace State

/-- A declaration that has a place is rejected at a place: its own, or that of a member which is itself
at fault. -/
theorem exists_place_of_emit {s : State} {module : List Value} {d : Declaration} {own : Span}
    {f : Failure} {g : Diagnostic} (hmodule : module ≠ []) (hown : d.span = some own)
    (hemit : (s.emit module d).2 = .error f) (hg : f.diagnostic? = some g) :
    ∃ place, g.span = some place ∧ (place = own ∨ place ∈ d.memberPlaces) := by
  have hplaced : f.IsPlaced d.places := by
    have he := emission_emit s module d
    rcases hst : s.emit module d with ⟨t, r⟩
    rw [hst] at he hemit
    obtain rfl : r = .error f := hemit
    cases he with
    | unread _ hs => exact d.failsAt_skip? f hs
    | unfit _ hs hc => exact d.failsAt_check f hc
    | homeless _ hs hc hm => exact Header.failsAt_ofModule hmodule f hm
    | unwritten h _ hs hc hm hr => exact d.failsAt_render f hr
    | nameless h text hs hc hm hr ht hn => exact .mismatch _
  cases hplaced with
  | mismatch m => cases hg
  | rejected cause hspan =>
    obtain rfl := Option.some.inj hg
    rw [Declaration.places, hown] at hspan
    rcases List.mem_cons.1 hspan with rfl | hspan
    · exact ⟨own, rfl, Or.inl rfl⟩
    · obtain ⟨place, hplace, rfl⟩ := List.mem_map.1 hspan
      exact ⟨place, rfl, Or.inr hplace⟩

end State

/-- A function that takes a callback, whose own argument is a pointer to a slice. -/
def Declaration.sliceHandler (own : Span) : Declaration :=
  ⟨.text "handle", [.word (.text "no_mangle")], [], true, some own, .function (.text "C")
    [.mk (.text "cb") (.function [.mk (.text "_") (.pointer false (.slice (.named "u8")))] none [])]
    none⟩

/-- An enum of which the second variant has a field, and a place. -/
def Declaration.payloadEnum (own second : Span) : Declaration :=
  ⟨.text "Shape", [.list (.text "repr") [.word (.text "C")]], [], true, some own, .enum
    [⟨.text "Empty", [], [], none, some own⟩,
      ⟨.text "Circle", [⟨.null, .named "f32", [], none⟩], [], none, some second⟩]⟩

theorem State.exists_place_of_emit_sliceHandler :
    let own : Span := ⟨.text "ffi.src", .int 7, .null⟩
    let second : Span := ⟨.text "ffi.src", .int 9, .int 5⟩
    (∃ f g, ((State.initial (.text "lib")).emit [.text "ffi"] (.sliceHandler own)).2 = .error f ∧
      f.diagnostic? = some g ∧ g.span = some own) ∧
    ∃ f g, ((State.initial (.text "lib")).emit [.text "ffi"] (.payloadEnum own second)).2 = .error f ∧
      f.diagnostic? = some g ∧ g.span = some second := by
  intro own second
  have hmodule : [Value.text "ffi"] ≠ [] := by simp
  have hslice : ((initial (.text "lib")).emit [.text "ffi"] (.sliceHandler own)).2 = .error _ := rfl
  have hpayload : ((initial (.text "lib")).emit [.text "ffi"] (.payloadEnum own second)).2 =
      .error _ := rfl
  refine ⟨⟨_, _, hslice, rfl, ?_⟩, _, _, hpayload, rfl, ?_⟩
  · obtain ⟨place, hspan, rfl | hplace⟩ := exists_place_of_emit hmodule rfl hslice rfl
    · exact hspan
    · cases hplace
  · obtain ⟨place, hspan, rfl | hplace⟩ := exists_place_of_emit hmodule rfl hpayload rfl
    · simp [own, second] at hspan
    · obtain rfl : place = second := List.mem_singleton.1 hplace
      exact hspan

end FfiHeaders
