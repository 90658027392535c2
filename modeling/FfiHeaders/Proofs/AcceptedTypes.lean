import FfiHeaders.Proofs.PatternNames
import FfiHeaders.Proofs.TextNames

/-!
# Types that C can express

`TypeExpr.IsData` and `TypeExpr.IsExpressible` say by the forms of a type which types C can express,
without a name and with one. A type is declared exactly if it is expressible, and the name that it
declares has no part in that: it changes nothing but where it stands itself.
-/
namespace FfiHeaders

namespace Declarator

/-- The declarator under the name `x`, which a function pointer takes into itself. -/
def renamed (x : String) : Declarator → Declarator
  | .mk name (.function _ args result) => .mk name (.function x args result)
  | .mk _ t => .mk x t

theorem renamed_of_not_isFunction {t : CType} (ht : t.isFunction = false) (x y : String) :
    (Declarator.mk x t).renamed y = .mk y t := by
  cases t with
  | function => cases ht
  | _ => rfl

@[simp] theorem mentions_renamed (d : Declarator) (x : String) :
    (d.renamed x).mentions = d.mentions := by
  obtain ⟨name, t⟩ := d
  cases t <;> rfl

end Declarator

namespace CType

/-- The type has no parts. -/
def isLeaf : CType → Bool
  | void | native _ | user _ => true
  | pointer _ _ | function _ _ _ => false

theorem isLeaf_ofPlatform (s : Symbol) : (ofPlatform s).isLeaf := by
  unfold ofPlatform
  split
  · rfl
  · split <;> rfl
  · rfl

theorem isLeaf_ofName (s : Symbol) : (ofName s).isLeaf := by
  unfold ofName
  split
  · rfl
  · split
    · rfl
    · exact isLeaf_ofPlatform _
  · exact isLeaf_ofPlatform _

theorem isFunction_of_isLeaf {t : CType} (h : t.isLeaf) : t.isFunction = false := by
  cases t with
  | function => cases h
  | _ => rfl

end CType

namespace TypeExpr

/-- A single name, or a name in one of the modules that export the types of C. -/
inductive IsKnownPath : List Value → Prop
  | alone (v : Value) : IsKnownPath [v]
  | platform {ms : List String} (v : Value)
      (h : String.intercalate "::" ms = "libc" ∨ String.intercalate "::" ms = "std::os::raw") :
      IsKnownPath (ms.map .text ++ [v])

/-- C has such a type and needs no name to write it. -/
inductive IsData : TypeExpr → Prop
  | path {segments : List Value} (h : IsKnownPath segments) : IsData (path segments [])
  | pointer (isMutable : Bool) {t : TypeExpr} (h : IsData t) : IsData (pointer isMutable t)
  | array (length : Value) {t : TypeExpr} (h : IsData t) : IsData (array t length)
  | unit : IsData (tuple [])

/-- C has such a type beside a name or around it. -/
inductive IsExpressible : TypeExpr → Prop
  | data {t : TypeExpr} (h : IsData t) : IsExpressible t
  | function {params : List Param} {output : Option TypeExpr}
      (hn : ∀ p ∈ params, Param.IsUnnamed p.pattern ∨ Param.IsPlain p.pattern)
      (ht : ∀ p ∈ params, IsExpressible p.type) (ho : ∀ t, output = some t → IsData t) :
      IsExpressible (function params output [])

/-! ### What is declared is expressible -/

theorem PathDenotes.isKnownPath {segments : List Value} {c : CType} (h : PathDenotes segments c) :
    IsKnownPath segments := by
  cases h with
  | name hs => exact .alone _
  | platform hm hp hs =>
    refine .platform _ ?_
    simpa [platformModules] using hp

theorem Denotes.isData {t : TypeExpr} {c : CType} (h : Denotes t c) : t.IsData := by
  induction h with
  | path h => exact .path h.isKnownPath
  | pointer isMutable _ ih => exact .pointer isMutable ih
  | array length _ ih => exact .array length ih
  | unit => exact .unit

mutual

theorem Declares.isExpressible {t : TypeExpr} {x : String} {d : Declarator} :
    Declares t x d → t.IsExpressible
  | .data x h => .data h.isData
  | .function x hp ho => by
    obtain ⟨hn, ht⟩ := DeclaresArgs.isExpressible hp
    refine .function hn ht fun t hout => ?_
    subst hout
    cases ho with
    | some h => exact h.isData

theorem DeclaresArgs.isExpressible {params : List Param} {args : List Declarator} :
    DeclaresArgs params args →
      (∀ p ∈ params, Param.IsUnnamed p.pattern ∨ Param.IsPlain p.pattern) ∧
        ∀ p ∈ params, p.type.IsExpressible
  | .nil => ⟨List.forall_mem_nil _, List.forall_mem_nil _⟩
  | .cons hx ht hp => by
    obtain ⟨hns, hts⟩ := DeclaresArgs.isExpressible hp
    exact ⟨List.forall_mem_cons.2 ⟨Param.exists_pointerBinds_iff.1 ⟨_, hx⟩, hns⟩,
      List.forall_mem_cons.2 ⟨Declares.isExpressible ht, hts⟩⟩

end

/-! ### What is expressible is declared -/

theorem exists_symbol {v : Value} (h : v.isText) : ∃ s, Symbol.ofValue? v = some s := by
  cases v with
  | text n => exact ⟨.word n, rfl⟩
  | _ => cases h

theorem IsKnownPath.exists_pathDenotes {segments : List Value} (h : IsKnownPath segments)
    (hs : segments.all Value.isText) : ∃ c, PathDenotes segments c := by
  cases h with
  | alone v =>
    obtain ⟨s, hv⟩ := exists_symbol (List.all_eq_true.1 hs v (by simp))
    exact ⟨_, .name hv⟩
  | @platform ms v h =>
    obtain ⟨s, hv⟩ := exists_symbol (List.all_eq_true.1 hs v (by simp))
    refine ⟨_, .platform ?_ (by simpa [platformModules] using h) hv⟩
    rintro rfl
    simp at h

theorem IsData.exists_denotes {t : TypeExpr} (h : t.IsData) (ht : t.hasTextNames) :
    ∃ c, Denotes t c := by
  induction h with
  | path h =>
    rw [hasTextNames, Bool.and_eq_true] at ht
    obtain ⟨c, hc⟩ := h.exists_pathDenotes ht.1
    exact ⟨c, .path hc⟩
  | pointer isMutable _ ih =>
    rw [hasTextNames] at ht
    obtain ⟨c, hc⟩ := ih ht
    exact ⟨_, .pointer isMutable hc⟩
  | array length _ ih =>
    rw [hasTextNames] at ht
    obtain ⟨c, hc⟩ := ih ht
    exact ⟨_, .array length hc⟩
  | unit => exact ⟨_, .unit⟩

theorem exists_result {output : Option TypeExpr} (h : ∀ t, output = some t → t.IsData)
    (ho : outputHasTextNames output) : ∃ c, result output = .ok c := by
  cases output with
  | none => exact ⟨_, rfl⟩
  | some t =>
    obtain ⟨c, hc⟩ := (h t rfl).exists_denotes ho
    exact ⟨c, anonymous_of_denotes hc⟩

theorem declare_of_denotes {t : TypeExpr} {c : CType} (h : Denotes t c) (x : String) :
    t.declare x = .ok (.mk x c) := by
  have hc := anonymous_of_denotes h
  cases h <;>
  · rw [declare, hc]
    · rfl
    · simp

/-- The arguments of a function pointer are declared if each can be named and declared. -/
theorem exists_declareArgs {params : List Param} (text : String)
    (hn : ∀ p ∈ params, Param.IsUnnamed p.pattern ∨ Param.IsPlain p.pattern)
    (ht : ∀ p ∈ params, ∀ x, ∃ d, p.type.declare x = .ok d) :
    ∃ args, declareArgs true text params = .ok args := by
  induction params with
  | nil => exact ⟨[], rfl⟩
  | cons p params ih =>
    obtain ⟨pattern, t⟩ := p
    obtain ⟨hname, hns⟩ := List.forall_mem_cons.1 hn
    obtain ⟨htype, hts⟩ := List.forall_mem_cons.1 ht
    obtain ⟨x, hx⟩ := Param.exists_pointerBinds_iff.2 hname
    obtain ⟨d, hd⟩ := htype x
    obtain ⟨args, hargs⟩ := ih hns hts
    have hp : declareArg true text (.mk pattern t) = .ok d := by
      rw [declareArg, if_pos rfl]
      exact Result.bind_eq_ok.2 ⟨x, Param.pointerBoundName_eq_ok.2 hx, hd⟩
    exact ⟨d :: args, by
      rw [declareArgs]
      exact Result.bind_eq_ok.2 ⟨d, hp, Result.bind_eq_ok.2 ⟨args, hargs, rfl⟩⟩⟩

theorem paramsHaveTextNames_iff {params : List Param} :
    paramsHaveTextNames params ↔ ∀ p ∈ params, p.pattern.isText ∧ p.type.hasTextNames := by
  induction params with
  | nil => exact iff_of_true rfl (List.forall_mem_nil _)
  | cons p params ih =>
    obtain ⟨pattern, t⟩ := p
    rw [paramsHaveTextNames, Bool.and_eq_true, Bool.and_eq_true, List.forall_mem_cons, ih]
    rfl

theorem IsExpressible.exists_declare {t : TypeExpr} (h : t.IsExpressible) (ht : t.hasTextNames) :
    ∀ x, ∃ d, t.declare x = .ok d := by
  -- For all names at once: an argument is declared under its own name, not under that of the whole.
  induction h with
  | data h =>
    intro x
    obtain ⟨c, hc⟩ := h.exists_denotes ht
    exact ⟨_, declare_of_denotes hc x⟩
  | @function params output hn _ ho ih =>
    intro x
    have hprintable := isPrintable_of_hasTextNames ht
    rw [hasTextNames, Bool.and_eq_true, Bool.and_eq_true, paramsHaveTextNames_iff] at ht
    obtain ⟨args, hargs⟩ := exists_declareArgs (TypeExpr.function params output []).text hn
      fun p hp => ih p hp (ht.1.2 p hp).2
    obtain ⟨c, hc⟩ := exists_result ho ht.2
    refine ⟨.mk "" (.function x args c), ?_⟩
    rw [declare, if_neg (by simp), hprintable]
    exact Result.bind_eq_ok.2 ⟨args, hargs, Result.bind_eq_ok.2 ⟨c, hc, rfl⟩⟩

/-! ### Names -/

theorem PathDenotes.isLeaf {segments : List Value} {c : CType} (h : PathDenotes segments c) :
    c.isLeaf := by
  cases h with
  | name => exact CType.isLeaf_ofName _
  | platform => exact CType.isLeaf_ofPlatform _

theorem Denotes.isFunction {t : TypeExpr} {c : CType} (h : Denotes t c) : c.isFunction = false := by
  cases h with
  | path h => exact CType.isFunction_of_isLeaf h.isLeaf
  | pointer => rfl
  | array => rfl
  | unit => rfl

/-- Under another name a type declares the same with that name in place of the first one, or fails in the
same way. -/
theorem declare_renamed (t : TypeExpr) (x y : String) :
    t.declare y = (·.renamed y) <$> t.declare x := by
  cases t with
  | function params output lifetimes =>
    rw [declare, declare]
    split
    · rfl
    · cases declareArgs (function params output lifetimes).isPrintable
        (function params output lifetimes).text params with
      | error f => rfl
      | ok args =>
        cases result output with
        | error f => rfl
        | ok c => rfl
  | _ =>
    rw [declare, declare]
    · cases ha : anonymous _ with
      | error f => rfl
      | ok c =>
        have hc := (denotes_of_anonymous ha).isFunction
        exact congrArg Except.ok (Declarator.renamed_of_not_isFunction hc x y).symm
    all_goals simp

/-- A type is declared under a name exactly if C can express it, and is rejected otherwise. The name
changes nothing in what is declared but the name itself, and nothing in what is mentioned. -/
theorem declare_acceptance {t : TypeExpr} (ht : t.hasTextNames) (x : String) :
    ((∃ d, t.declare x = .ok d) ↔ t.IsExpressible) ∧
      (¬t.IsExpressible → ∃ f, t.declare x = .error f ∧ f.IsRejection) ∧
      ∀ y, t.declare y = (·.renamed y) <$> t.declare x ∧
        ∀ d, t.declare x = .ok d → (d.renamed y).mentions = d.mentions := by
  have hiff : (∃ d, t.declare x = .ok d) ↔ t.IsExpressible := by
    constructor
    · rintro ⟨d, hd⟩
      exact (declares_of_declare hd).isExpressible
    · intro h
      exact h.exists_declare ht x
  refine ⟨hiff, fun hne => ?_, fun y => ⟨declare_renamed t x y, fun d _ => d.mentions_renamed y⟩⟩
  cases hr : t.declare x with
  | ok d => exact absurd (hiff.1 ⟨d, hr⟩) hne
  | error f => exact ⟨f, rfl, isRejection_of_declare ht hr⟩

/-- A function pointer with a function pointer and an anonymous integer as arguments. -/
def handler : TypeExpr :=
  function
    [.mk (.text "mut next") (function [] (some (pointer true (named "Node"))) []),
      .mk (.text "_") (path [.text "std", .text "os", .text "raw", .text "c_int"] [])] none []

theorem declare_handler : handler.declare "slot" = .ok (.mk "" (.function "slot"
    [.mk "" (.function "next" [] (.pointer .mutable (.user (.word "Node")))), .mk "" (.native "int")]
    .void)) := by
  have hname (text : String) : Param.pointerBoundName (.text "mut next") text = .ok "next" := rfl
  simp only [handler, declare, declareArgs, declareArg, hname]
  rfl

theorem declare_acceptance_handler :
    handler.hasTextNames ∧ handler.IsExpressible ∧
      handler.declare "other" = (·.renamed "other") <$> handler.declare "slot" ∧
      ∃ f, (pointer true handler).declare "slot" = .error f ∧ f.IsRejection := by
  have hnames : handler.hasTextNames := by decide
  have hpointer : ¬(pointer true handler).IsExpressible := by
    intro h
    cases h with
    | data h =>
      cases h with
      | pointer _ h => cases h
  obtain ⟨hiff, -, hrenamed⟩ := declare_acceptance hnames "slot"
  obtain ⟨-, hrejected, -⟩ := declare_acceptance (t := pointer true handler) hnames "slot"
  exact ⟨hnames, hiff.1 ⟨_, declare_handler⟩, (hrenamed "other").1, hrejected hpointer⟩

end TypeExpr

end FfiHeaders
