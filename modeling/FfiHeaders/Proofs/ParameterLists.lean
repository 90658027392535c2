import FfiHeaders.Proofs.PrototypeReading

/-!
# Parameter lists that C accepts

C wants the named parameters of a prototype to have distinct names, and none to be of type void. A
prototype takes both over from its source: the wildcard is a name like any other, so it must not stand
twice, and a parameter that carries no value becomes one of type void.
-/
namespace FfiHeaders

/-- The name that a declarator gives: a function pointer holds its own. -/
def Declarator.declaredName (d : Declarator) : String := d.type.declaredName d.name

/-- The text between the parentheses of a prototype. -/
def Declarator.listText (ds : List Declarator) : String :=
  if ds.isEmpty then "void" else String.intercalate ", " (ds.map text)

/-- No two of the names that the declarators give are alike. -/
def Declarator.HaveDistinctNames (ds : List Declarator) : Prop :=
  ((ds.map declaredName).filter (· ≠ "")).Nodup

instance (ds : List Declarator) : Decidable (Declarator.HaveDistinctNames ds) :=
  inferInstanceAs (Decidable (List.Nodup _))

/-! ### Types without a value -/

namespace CType

theorem ofPlatform_eq_void_iff {s : Symbol} : ofPlatform s = void ↔ s = .word "c_void" := by
  unfold ofPlatform
  split
  · simp
  · next n hn =>
    refine iff_of_false ?_ fun h => hn (by simpa using h)
    split <;> simp
  · next hword =>
    refine iff_of_false (by simp) ?_
    rintro rfl
    exact hword _ rfl

theorem ofName_eq_void_iff {s : Symbol} :
    ofName s = void ↔ s = .word "()" ∨ s = .word "c_void" := by
  unfold ofName
  split
  · simp
  · next n hn =>
    have hunit : Symbol.word n ≠ .word "()" := fun h => hn (by simpa using h)
    rw [or_iff_right hunit]
    split
    · next c hc =>
      refine iff_of_false (by simp) ?_
      rintro ⟨⟩
      cases hc
    · exact ofPlatform_eq_void_iff
  · next hunit hword =>
    rw [ofPlatform_eq_void_iff]
    exact ⟨Or.inr, fun h => h.resolve_left fun hs => hword _ hs⟩

end CType

namespace TypeExpr

/-- The type carries no value: it is the unit type, or named so in one of the ways that C knows. -/
def isVoid : TypeExpr → Bool
  | tuple [] => true
  | path segments _ =>
    match segments.getLast? with
    | some (.text n) => n = "c_void" || n = "()" && segments.length = 1
    | _ => false
  | _ => false

theorem PathDenotes.eq_void_iff {segments : List Value} {c : CType} (h : PathDenotes segments c) :
    c = .void ↔ (path segments []).isVoid := by
  cases h with
  | @name v s hs =>
    rw [CType.ofName_eq_void_iff, isVoid, List.getLast?_singleton]
    cases v with
    | text n =>
      obtain rfl := Option.some.inj hs
      simp [or_comm]
    | _ =>
      refine iff_of_false ?_ Bool.false_ne_true
      rintro (rfl | rfl) <;> simp [Symbol.ofValue?] at hs
  | @platform ms v s hm hp hs =>
    rw [CType.ofPlatform_eq_void_iff, isVoid, List.getLast?_concat]
    cases v with
    | text n =>
      obtain rfl := Option.some.inj hs
      simp [hm]
    | _ =>
      refine iff_of_false ?_ Bool.false_ne_true
      rintro rfl
      simp [Symbol.ofValue?] at hs

theorem Denotes.eq_void_iff {t : TypeExpr} {c : CType} (h : Denotes t c) : c = .void ↔ t.isVoid := by
  cases h with
  | path h => exact h.eq_void_iff
  | pointer isMutable h => exact iff_of_false nofun nofun
  | array length h => exact iff_of_false nofun nofun
  | unit => exact iff_of_true rfl rfl

theorem Declares.type_eq_void_iff {t : TypeExpr} {x : String} {d : Declarator} (h : Declares t x d) :
    d.type = .void ↔ t.isVoid := by
  cases h with
  | data x h => exact h.eq_void_iff
  | function x hp ho => exact iff_of_false nofun nofun

end TypeExpr

/-! ### Prototypes -/

/-- The head of a prototype stands in it as a whole, whatever the output makes of it. -/
theorem exists_around_head {head prototype : String} {span : Option Span} {output : Option TypeExpr}
    (hne : head ≠ "") (h : (renderPrototype head span output).result = .ok prototype) :
    ∃ before after, prototype = before ++ head ++ after := by
  unfold renderPrototype at h
  split at h
  · cases h
    exact ⟨"void ", "", (String.append_empty).symm⟩
  · cases h
  · obtain ⟨d, hd, -, rfl, -⟩ := TypeExpr.exists_of_render_ok h
    cases TypeExpr.declares_of_declare hd with
    | @data _ c _ hc =>
      refine ⟨c.text ++ " ", "", ?_⟩
      rw [Declarator.text, CType.declaratorText, hc.isFunction, if_neg (by simpa using hne),
        String.append_empty]
    | @function _ _ args c _ hp hr =>
      refine ⟨c.text ++ " (*", ")(" ++
        (if args.isEmpty then "void" else String.intercalate ", " (CType.argTexts args)) ++ ")", ?_⟩
      simp only [Declarator.text, CType.declaratorText, CType.isFunction, Bool.true_or, if_true,
        CType.text, String.append_assoc]

/-- The declarator of a parameter is that of its type, under the name that its pattern binds. -/
def Param.DeclaredBy (p : Param) (d : Declarator) : Prop :=
  ∃ x, Binds p.pattern x ∧ p.type.declare x = .ok d

namespace Param.DeclaredBy

variable {p : Param} {d : Declarator} {params : List Param} {ds : List Declarator}

theorem binds (h : DeclaredBy p d) : Binds p.pattern d.declaredName := by
  obtain ⟨x, hx, hd⟩ := h
  rwa [Declarator.declaredName, (TypeExpr.declares_of_declare hd).declaredName]

theorem declare (h : DeclaredBy p d) : p.type.declare d.declaredName = .ok d := by
  obtain ⟨x, hx, hd⟩ := h
  rwa [Declarator.declaredName, (TypeExpr.declares_of_declare hd).declaredName]

theorem type_eq_void_iff (h : DeclaredBy p d) : d.type = .void ↔ p.type.isVoid := by
  obtain ⟨x, hx, hd⟩ := h
  exact (TypeExpr.declares_of_declare hd).type_eq_void_iff

theorem names_eq (h : List.Forall₂ DeclaredBy params ds) {names : List String}
    (hnames : List.Forall₂ (fun p x => Spells p.pattern x) params names) :
    ds.map Declarator.declaredName = names := by
  induction h generalizing names with
  | nil =>
    cases hnames
    rfl
  | cons hd hds ih =>
    obtain _ | ⟨hx, hxs⟩ := hnames
    rw [List.map_cons, ih hxs, hd.binds.unique (binds_iff.2 hx)]

theorem forall_ne_void_iff (h : List.Forall₂ DeclaredBy params ds) :
    (∀ d ∈ ds, d.type ≠ .void) ↔ ∀ p ∈ params, p.type.isVoid = false := by
  induction h with
  | nil => simp
  | cons hd hds ih =>
    rw [List.forall_mem_cons, List.forall_mem_cons, ih, ← Bool.not_eq_true]
    exact and_congr_left fun _ => not_congr hd.type_eq_void_iff

end Param.DeclaredBy

theorem Param.ne_empty_of_spells {params : List Param} {names : List String}
    (h : List.Forall₂ (fun p x => Spells p.pattern x) params names) : ∀ x ∈ names, x ≠ "" := by
  refine ((List.forall₂_and_left names params).1 (h.flip.imp fun x p hx => ⟨?_, hx⟩)).1
  rintro rfl
  obtain ⟨s, -, hi, -⟩ := hx
  cases hi

/-- Names that are distinct but for the wildcard are distinct if that is not repeated. -/
theorem nodup_iff_count_wildcard {xs : List String} (h : (xs.filter (· ≠ "_")).Nodup) :
    xs.Nodup ↔ xs.count "_" ≤ 1 := by
  rw [List.nodup_iff_count_le_one] at h ⊢
  refine ⟨fun hx => hx "_", fun hx x => ?_⟩
  by_cases hw : x = "_"
  · rw [hw]
    exact hx
  · have := h x
    rwa [List.count_filter (by simpa using hw)] at this

namespace State

/-- The parameters of an emitted prototype have the names and types of the source. So C accepts them
exactly if the wildcard is among them once at most and each of them carries a value. -/
theorem parameters_of_emit {s : State} {module : List Value} {d : Declaration} {abi : Value}
    {params : List Param} {output : Option TypeExpr} {names : List String} {h : String}
    (hbody : d.body = .function abi params output)
    (hnames : List.Forall₂ (fun p x => Param.Spells p.pattern x) params names)
    (hdistinct : (names.filter (· ≠ "_")).Nodup)
    (hemit : (s.emit module d).2 = .ok (.emitted h)) :
    ∃ ds before after,
      (s.emit module d).1.output h =
        s.output h ++
          (before ++ (d.name.plain ++ "(" ++ Declarator.listText ds ++ ")") ++ after) ∧
      List.Forall₂ (fun p e => p.type.declare e.declaredName = .ok e) params ds ∧
      ds.map Declarator.declaredName = names ∧
      (Declarator.HaveDistinctNames ds ↔ names.count "_" ≤ 1) ∧
      ((∀ e ∈ ds, e.type ≠ .void) ↔ ∀ p ∈ params, p.type.isVoid = false) := by
  have he := emission_emit s module d
  rcases hst : s.emit module d with ⟨t, r⟩
  rw [hst] at he hemit
  obtain rfl : r = .ok (.emitted h) := hemit
  obtain ⟨text, hr, -, -, hout, -⟩ := he.emitted
  rw [Declaration.render] at hr
  simp only [hbody] at hr
  obtain ⟨args, ha, hr, -⟩ := Mentioning.exists_of_bind_ok hr
  obtain ⟨prototype, hproto, hr, -⟩ := Mentioning.exists_of_bind_ok hr
  cases hr
  obtain ⟨ds, rfl, hds⟩ := Param.exists_of_renderAll_ok ha
  obtain ⟨before, after, rfl⟩ := exists_around_head (by simp) hproto
  have hds : List.Forall₂ Param.DeclaredBy params ds := hds
  have hmap := Param.DeclaredBy.names_eq hds hnames
  refine ⟨ds, Attribute.docs "" d.attrs ++ before, after ++ ";\n\n", ?_, ?_, hmap, ?_,
    Param.DeclaredBy.forall_ne_void_iff hds⟩
  · rw [hout, append_output, if_pos rfl]
    simp only [Declarator.listText, List.isEmpty_map, String.append_assoc]
  · exact hds.imp fun p e => Param.DeclaredBy.declare
  · have hfilter : names.filter (· ≠ "") = names :=
      List.filter_eq_self.2 fun x hx => by simpa using Param.ne_empty_of_spells hnames x hx
    rw [Declarator.HaveDistinctNames, hmap, hfilter]
    exact nodup_iff_count_wildcard hdistinct

theorem parameters_of_emit_picker :
    ∃ ds, List.Forall₂ (fun (p : Param) (e : Declarator) => p.type.declare e.declaredName = .ok e)
        [.mk (.text "cb") (.function [.mk (.text "_") (.named "u8")] none []),
          .mk (.text "mut n") (.named "usize")] ds ∧
      ds.map Declarator.declaredName = ["cb", "n"] ∧ Declarator.HaveDistinctNames ds ∧
      ∀ e ∈ ds, e.type ≠ .void := by
  have hcb : Param.Spells (.text "cb") "cb" := Param.binds_iff.1 ⟨"cb", rfl, by decide⟩
  have hn : Param.Spells (.text "mut n") "n" := Param.binds_iff.1 ⟨"mut n", rfl, by decide⟩
  have hemit : ((initial (.text "lib")).emit [.text "ffi", .text "a"] .picker).2 =
      .ok (.emitted "lib/a.h") := rfl
  obtain ⟨ds, before, after, -, hds, hmap, hnames, hvoid⟩ :=
    parameters_of_emit (d := .picker) rfl (.cons hcb (.cons hn .nil)) (by decide) hemit
  refine ⟨ds, hds, hmap, hnames.2 (by decide), hvoid.2 ?_⟩
  rw [List.forall_mem_cons, List.forall_mem_cons]
  exact ⟨rfl, rfl, nofun⟩

end State

/-- A function that ignores both of its parameters. -/
def Declaration.ignorer : Declaration :=
  ⟨.text "ignore", [.word (.text "no_mangle")], [], true, none, .function (.text "C")
    [.mk (.text "_") (.named "u8"), .mk (.text "_") (.named "u16")] none⟩

/-- A function with a parameter that carries no value. -/
def Declaration.waiter : Declaration :=
  ⟨.text "wait", [.word (.text "no_mangle")], [], true, none, .function (.text "C")
    [.mk (.text "x") .unit] none⟩

/-- A repeated wildcard is a repeated name in the prototype, and a unit parameter is one of type
void. -/
theorem State.exists_parameters_refused :
    (∃ ds, ((initial (.text "lib")).emit [.text "ffi"] .ignorer).1.output "lib/lib.h" =
        "void ignore(" ++ Declarator.listText ds ++ ");\n\n" ∧
      ds.map Declarator.text = ["uint8_t _", "uint16_t _"] ∧ ¬ Declarator.HaveDistinctNames ds) ∧
    ∃ d, ((initial (.text "lib")).emit [.text "ffi"] .waiter).1.output "lib/lib.h" =
        "void wait(" ++ Declarator.listText [d] ++ ");\n\n" ∧
      d.text = "void x" ∧ d.type = .void :=
  ⟨⟨[.mk "_" (.native "uint8_t"), .mk "_" (.native "uint16_t")], rfl, rfl, by decide⟩,
    .mk "x" .void, rfl, rfl, rfl⟩

end FfiHeaders
