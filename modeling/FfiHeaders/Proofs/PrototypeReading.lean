import FfiHeaders.Proofs.AcceptedTypes
import FfiHeaders.Proofs.Run
import FfiHeaders.Proofs.TypeReading

/-!
# Reading prototypes

The prototype of an emitted function is read as that function: its parameters in order, under the
names that their patterns bind, and its output, around which a function pointer closes.
-/
namespace FfiHeaders

open Reading (Meaning Declared IsName IsBase IsHead IsDeclaration tokens)

/-- The parameter declares the name that its pattern binds, with the meaning of its type. -/
def Param.Means (p : Param) (m : Declared) : Prop :=
  ∃ x d, Binds p.pattern x ∧ p.type.declare x = .ok d ∧ m = .mk x (d.type.meaning false)

/-- The prototype around a head, and the meaning of the output: a data type stands before the head, a
function pointer closes around the whole of it. -/
inductive TypeExpr.Returns (head : String) : Option TypeExpr → String → Meaning → Prop
  | none : Returns head none ("void " ++ head) (.base false "void")
  | data {t : TypeExpr} {c : CType} (h : t.anonymous = .ok c) :
      Returns head (some t) (c.text ++ " " ++ head) (c.meaning false)
  | function {params : List Param} {output : Option TypeExpr} {lifetimes : List Value}
      {args : List Declarator} {result : CType} {list : String}
      (h : (function params output lifetimes).declare head =
        .ok (.mk "" (.function head args result)))
      (hlist : list = if args.isEmpty then "void" else String.intercalate ", " (CType.argTexts args)) :
      Returns head (some (function params output lifetimes))
        (result.text ++ " (*" ++ head ++ ")(" ++ list ++ ")")
        (.pointer false (.function (CType.argMeanings args) (result.meaning false)))

theorem Param.exists_of_render_ok {p : Param} {function a : String} {span : Option Span}
    (h : (p.render function span).result = .ok a) :
    ∃ x d, Binds p.pattern x ∧ p.type.declare x = .ok d ∧ a = d.text := by
  obtain ⟨x, hx, hd, -⟩ := Mentioning.exists_of_bind_ok h
  obtain ⟨d, hd, -, ha, -⟩ := TypeExpr.exists_of_render_ok hd
  refine ⟨x, d, ?_, hd, ha⟩
  rw [Mentioning.result_ofResult] at hx
  cases hb : boundName p.pattern function with
  | error f =>
    rw [hb] at hx
    cases hx
  | ok y =>
    rw [hb] at hx
    cases hx
    exact boundName_eq_ok.1 hb

theorem Param.exists_of_renderAll_ok {ps : List Param} {function : String} {span : Option Span}
    {args : List String} (h : (Param.renderAll function span ps).result = .ok args) :
    ∃ ds : List Declarator, args = ds.map Declarator.text ∧
      List.Forall₂ (fun p d => ∃ x, Binds p.pattern x ∧ p.type.declare x = .ok d) ps ds := by
  induction ps generalizing args with
  | nil =>
    cases h
    exact ⟨[], rfl, .nil⟩
  | cons p ps ih =>
    obtain ⟨a, ha, h, -⟩ := Mentioning.exists_of_bind_ok h
    obtain ⟨as, has, h, -⟩ := Mentioning.exists_of_bind_ok h
    cases h
    obtain ⟨x, d, hx, hd, rfl⟩ := Param.exists_of_render_ok ha
    obtain ⟨ds, rfl, hds⟩ := ih has
    exact ⟨d :: ds, rfl, .cons ⟨x, hx, hd⟩ hds⟩

namespace TypeExpr

theorem Declares.declaredName {t : TypeExpr} {x : String} {d : Declarator} (h : Declares t x d) :
    d.type.declaredName d.name = x := by
  cases h with
  | @data _ c x h =>
    have hc := h.isFunction
    cases c with
    | function => cases hc
    | _ => rfl
  | function x hp ho => rfl

/-- The parameters of a readable head are arguments that mean what they declare. -/
theorem areArguments_of_params {ps : List Param} {ds : List Declarator}
    (h : List.Forall₂ (fun p d => ∃ x, Param.Binds p.pattern x ∧ p.type.declare x = .ok d) ps ds)
    (hp : AreReadable ps) :
    Declarator.AreArguments ds ∧ List.Forall₂ Param.Means ps (CType.argMeanings ds) := by
  induction h with
  | nil => exact ⟨.nil, .nil⟩
  | @cons p d ps ds hd hds ih =>
    obtain ⟨x, hx, hd⟩ := hd
    obtain ⟨pattern, t⟩ := p
    obtain ⟨hk, hv, ht, hps⟩ := hp
    obtain ⟨ha, hm⟩ := ih hps
    have hdeclares := declares_of_declare hd
    refine ⟨.cons (Or.inr ⟨hx.isIdentifier, hk x hx⟩) (names_of_declares hdeclares ht)
      (type_ne_void_of_declares hdeclares hv) ha, ?_⟩
    obtain ⟨name, c⟩ := d
    refine .cons ⟨x, _, hx, hd, ?_⟩ hm
    rw [← hdeclares.declaredName]
    rfl

/-- A rendered prototype is made around its head, and is read as what the head declares of the
meaning of the output. -/
theorem exists_returns_of_renderPrototype {head x prototype : String} {span : Option Span}
    {output : Option TypeExpr} {f : Meaning → Meaning} (hne : head ≠ "")
    (hhead : IsHead (tokens head) x f) (ho : IsOutputReadable output)
    (h : (renderPrototype head span output).result = .ok prototype) :
    ∃ m, Returns head output prototype m ∧ Reading.read prototype = some (.mk x (f m)) := by
  unfold renderPrototype at h
  split at h
  · cases h
    refine ⟨_, .none, Reading.read_of_isDeclaration ?_⟩
    have hw : IsBase "void" := by decide
    rw [Reading.tokens_append (.inl (by decide))]
    exact Reading.isDeclaration_of_isBase hw false hhead
  · cases h
  · obtain ⟨d, hd, -, rfl, -⟩ := exists_of_render_ok h
    cases declares_of_declare hd with
    | data _ hc =>
      have hdata := isData_of_denotes hc ho
      have hread := Reading.read_of_isDeclaration (hdata.isDeclaration_text hhead)
      refine ⟨_, ?_, hread⟩
      have htext : ∀ {c : CType}, c.IsData → (Declarator.mk head c).text = c.text ++ " " ++ head := by
        intro c hc
        rw [Declarator.text, CType.declaratorText, hc.isFunction, if_neg (by simpa using hne)]
      rw [htext hdata]
      exact .data (anonymous_of_denotes hc)
    | function _ hp hr =>
      rw [IsOutputReadable, IsReadable] at ho
      have hargs := areArguments_of_declaresArgs hp ho.1
      have hread := Reading.read_of_isDeclaration ((isData_of_outputDenotes hr ho.2).isDeclaration_function
        hargs.isDeclaration hargs.meaning_ne_void hhead "")
      exact ⟨_, .function hd rfl, hread⟩

end TypeExpr

theorem Reading.isHead_of_parameters {x : String} (hx : IsName x) {ps : List String}
    {ds : List Declared} (h : List.Forall₂ IsDeclaration (ps.map tokens) ds)
    (hv : ∀ d ∈ ds, d ≠ .mk "" (.base false "void")) :
    IsHead
      (tokens (x ++ "(" ++ (if ps.isEmpty then "void" else String.intercalate ", " ps) ++ ")")) x
      (.function ds) := by
  have htokens : tokens
      (x ++ "(" ++ (if ps.isEmpty then "void" else String.intercalate ", " ps) ++ ")") =
        .name x :: parameterTokens (ps.map tokens) := by
    rw [Reading.tokens_append_mark (by decide), Reading.tokens_around_mark (by decide),
      tokens_of_isName hx, ← tokens_parameterList]
    rfl
  rw [htokens]
  exact .function (isSuffix_parameterTokens h hv)

/-- The emitted text of a function holds a prototype that is read as a function of the same name, with
the parameters and the output of the source. -/
theorem State.read_of_emit {s : State} {module : List Value} {d : Declaration} {abi : Value}
    {params : List Param} {output : Option TypeExpr} {x h : String}
    (hbody : d.body = .function abi params output) (hname : d.name = .text x) (hx : IsName x)
    (hparams : TypeExpr.AreReadable params) (houtput : TypeExpr.IsOutputReadable output)
    (hemit : (s.emit module d).2 = .ok (.emitted h)) :
    ∃ prototype list ms result,
      (s.emit module d).1.output h =
        s.output h ++ (Attribute.docs "" d.attrs ++ prototype ++ ";\n\n") ∧
      Reading.read prototype = some (.mk x (.function ms result)) ∧
      List.Forall₂ Param.Means params ms ∧
      TypeExpr.Returns (x ++ "(" ++ list ++ ")") output prototype result ∧
      (params = [] → list = "void") := by
  have he := emission_emit s module d
  rcases hst : s.emit module d with ⟨t, r⟩
  rw [hst] at he hemit
  obtain rfl : r = .ok (.emitted h) := hemit
  obtain ⟨text, hr, -, -, hout, -⟩ := he.emitted
  rw [Declaration.render] at hr
  simp only [hbody, hname] at hr
  obtain ⟨args, ha, hr, -⟩ := Mentioning.exists_of_bind_ok hr
  obtain ⟨prototype, hproto, hr, -⟩ := Mentioning.exists_of_bind_ok hr
  cases hr
  obtain ⟨ds, rfl, hds⟩ := Param.exists_of_renderAll_ok ha
  obtain ⟨hargs, hms⟩ := TypeExpr.areArguments_of_params hds hparams
  have hhead := Reading.isHead_of_parameters hx hargs.isDeclaration hargs.meaning_ne_void
  obtain ⟨m, hm, hread⟩ := TypeExpr.exists_returns_of_renderPrototype (by simp) hhead houtput hproto
  refine ⟨prototype, _, _, m, ?_, hread, hms, hm, ?_⟩
  · rw [hout, append_output, if_pos rfl]
  · rintro rfl
    cases hds
    rfl

/-- A function with a function pointer as a parameter and another one as its output. -/
def Declaration.picker : Declaration :=
  ⟨.text "pick", [.word (.text "no_mangle")], [], true, none, .function (.text "C")
    [.mk (.text "cb") (.function [.mk (.text "_") (.named "u8")] none []),
      .mk (.text "mut n") (.named "usize")]
    (some (.function [.mk (.text "") (.named "i32")] (some (.pointer false (.named "Node"))) []))⟩

theorem State.read_of_emit_picker :
    ∃ prototype ms result,
      prototype = "const Node* (*pick(void (*cb)(uint8_t), uintptr_t n))(int32_t)" ∧
      Reading.read prototype = some (.mk "pick" (.function ms result)) ∧ ms.length = 2 := by
  have hbyte : (TypeExpr.named "u8").IsReadable := ⟨"u8", rfl, by decide⟩
  have hsize : (TypeExpr.named "usize").IsReadable := ⟨"usize", rfl, by decide⟩
  have hint : (TypeExpr.named "i32").IsReadable := ⟨"i32", rfl, by decide⟩
  have hnode : (TypeExpr.named "Node").IsReadable := ⟨"Node", rfl, by decide⟩
  have hcb := TypeExpr.not_mem_keywords_of_binds (s := "cb") (x := "cb") (by decide) (by decide)
  have hwild := TypeExpr.not_mem_keywords_of_binds (s := "_") (x := "_") (by decide) (by decide)
  have hn := TypeExpr.not_mem_keywords_of_binds (s := "mut n") (x := "n") (by decide) (by decide)
  have hblank : ∀ x, Param.Binds (.text "") x → x ∉ Reading.keywords := by
    rintro x ⟨s, ⟨⟩, hb⟩
    cases hb
  have hemit : ((initial (.text "lib")).emit [.text "ffi", .text "a"] .picker).2 =
      .ok (.emitted "lib/a.h") := rfl
  have htext : ((initial (.text "lib")).emit [.text "ffi", .text "a"] .picker).1.output "lib/a.h" =
      "const Node* (*pick(void (*cb)(uint8_t), uintptr_t n))(int32_t)" ++ ";\n\n" := rfl
  obtain ⟨prototype, list, ms, result, hout, hread, hms, -, -⟩ :=
    read_of_emit (d := .picker) rfl rfl (by decide)
      ⟨hcb, TypeExpr.refuse_ne_ok _ _ _, ⟨⟨hwild, nofun, hbyte, trivial⟩, trivial⟩, hn, nofun,
        hsize, trivial⟩
      ⟨⟨hblank, nofun, hint, trivial⟩, hnode⟩ hemit
  refine ⟨prototype, ms, result, ?_, hread, hms.length_eq.symm⟩
  rw [htext] at hout
  change _ = "" ++ ("" ++ prototype ++ ";\n\n") at hout
  rw [String.empty_append, String.empty_append, String.append_left_inj] at hout
  exact hout.symm

end FfiHeaders
