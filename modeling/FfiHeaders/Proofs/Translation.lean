import FfiHeaders.CType.OfSource
import FfiHeaders.Proofs.Result

/-!
# Derivations of C types

`Denotes` and `Declares` say which source types have a C type, and which one, by a rule for each
form of type. What `TypeExpr.declare` accepts has a derivation, and proofs go by its rules.
-/
namespace FfiHeaders

namespace Param

/-- A parameter's pattern binds the name `x` by value. -/
def Binds (pattern : Value) (x : String) : Prop :=
  ∃ s, pattern = .text s ∧ boundName? (Text.trim s.toList) = some x.toList

/-- As `Binds`, but a blank pattern and the wildcard stand for no name. -/
def PointerBinds (pattern : Value) (x : String) : Prop :=
  ∃ s, pattern = .text s ∧
    if Text.trim s.toList = [] ∨ Text.trim s.toList = ['_'] then x = ""
    else boundName? (Text.trim s.toList) = some x.toList

theorem trimmed_eq_ok {pattern : Value} {cs : List Char} :
    trimmed pattern = .ok cs ↔ ∃ s, pattern = .text s ∧ Text.trim s.toList = cs := by
  cases pattern <;> simp [trimmed]

theorem boundName_eq_ok {pattern : Value} {function x : String} :
    boundName pattern function = .ok x ↔ Binds pattern x := by
  unfold boundName Binds
  rw [Result.bind_eq_ok]
  constructor
  · rintro ⟨cs, hcs, h⟩
    obtain ⟨s, rfl, rfl⟩ := trimmed_eq_ok.1 hcs
    split at h
    · next cs hb =>
      cases h
      exact ⟨s, rfl, by rw [hb, String.toList_ofList]⟩
    · cases h
  · rintro ⟨s, rfl, hb⟩
    refine ⟨_, trimmed_eq_ok.2 ⟨s, rfl, rfl⟩, ?_⟩
    simp only [hb, String.ofList_toList]
    rfl

theorem pointerBoundName_eq_ok {pattern : Value} {function x : String} :
    pointerBoundName pattern function = .ok x ↔ PointerBinds pattern x := by
  unfold pointerBoundName PointerBinds
  rw [Result.bind_eq_ok]
  constructor
  · rintro ⟨cs, hcs, h⟩
    obtain ⟨s, rfl, rfl⟩ := trimmed_eq_ok.1 hcs
    refine ⟨s, rfl, ?_⟩
    split at h
    · next hb =>
      rw [if_pos (by simpa using hb)]
      cases h
      rfl
    · next hb =>
      rw [if_neg (by simpa using hb)]
      obtain ⟨t, ht, hx⟩ := boundName_eq_ok.1 h
      cases ht
      exact hx
  · rintro ⟨s, rfl, hx⟩
    refine ⟨_, trimmed_eq_ok.2 ⟨s, rfl, rfl⟩, ?_⟩
    by_cases hb : Text.trim s.toList = [] ∨ Text.trim s.toList = ['_']
    · rw [if_pos hb] at hx
      rw [if_pos (by simpa using hb), hx]
      rfl
    · rw [if_neg hb] at hx
      rw [if_neg (by simpa using hb)]
      exact boundName_eq_ok.2 ⟨s, rfl, hx⟩

/-- A bound name is an identifier, so it is not empty. -/
theorem Binds.isIdentifier {pattern : Value} {x : String} (h : Binds pattern x) :
    isIdentifier x.toList := by
  obtain ⟨s, -, hb⟩ := h
  exact isIdentifier_of_boundName? hb

theorem Binds.unique {pattern : Value} {x y : String} (hx : Binds pattern x)
    (hy : Binds pattern y) : x = y := by
  obtain ⟨s, rfl, hx⟩ := hx
  obtain ⟨t, ht, hy⟩ := hy
  cases ht
  rw [hx] at hy
  exact String.toList_injective (Option.some.inj hy)

theorem PointerBinds.eq_empty_or_binds {pattern : Value} {x : String}
    (h : PointerBinds pattern x) : x = "" ∨ Binds pattern x := by
  obtain ⟨s, rfl, hx⟩ := h
  split at hx
  · exact Or.inl hx
  · exact Or.inr ⟨s, rfl, hx⟩

end Param

namespace TypeExpr

/-- The C type of a named type: one segment is looked up among all built-in names, a last segment
behind a platform module among those of the platform. -/
inductive PathDenotes : List Value → CType → Prop
  | name {v : Value} {s : Symbol} (hs : Symbol.ofValue? v = some s) : PathDenotes [v] (.ofName s)
  | platform {ms : List String} {v : Value} {s : Symbol} (hm : ms ≠ [])
      (hp : String.intercalate "::" ms ∈ platformModules) (hs : Symbol.ofValue? v = some s) :
      PathDenotes (ms.map .text ++ [v]) (.ofPlatform s)

/-- The type stands for a C type that needs no name. -/
inductive Denotes : TypeExpr → CType → Prop
  | path {segments : List Value} {c : CType} (h : PathDenotes segments c) :
      Denotes (path segments []) c
  | pointer (isMutable : Bool) {t : TypeExpr} {c : CType} (h : Denotes t c) :
      Denotes (pointer isMutable t) (.pointer (if isMutable then .mutable else .const) c)
  | array (length : Value) {t : TypeExpr} {c : CType} (h : Denotes t c) :
      Denotes (array t length) (.pointer .const c)
  | unit : Denotes (tuple []) .void

/-- A function that gives no output returns nothing. -/
inductive OutputDenotes : Option TypeExpr → CType → Prop
  | none : OutputDenotes .none .void
  | some {t : TypeExpr} {c : CType} (h : Denotes t c) : OutputDenotes (.some t) c

mutual

/-- The type declares a name. A function pointer takes the name into itself. -/
inductive Declares : TypeExpr → String → Declarator → Prop
  | data {t : TypeExpr} {c : CType} (x : String) (h : Denotes t c) : Declares t x (.mk x c)
  | function {params : List Param} {output : Option TypeExpr} {args : List Declarator} {c : CType}
      (x : String) (hp : DeclaresArgs params args) (ho : OutputDenotes output c) :
      Declares (function params output []) x (.mk "" (.function x args c))

/-- The parameters of a function pointer declare the names that they bind. -/
inductive DeclaresArgs : List Param → List Declarator → Prop
  | nil : DeclaresArgs [] []
  | cons {pattern : Value} {t : TypeExpr} {params : List Param} {x : String} {d : Declarator}
      {args : List Declarator} (hx : Param.PointerBinds pattern x) (ht : Declares t x d)
      (hp : DeclaresArgs params args) : DeclaresArgs (.mk pattern t :: params) (d :: args)

end

theorem refuse_ne_ok {α : Type} (t : TypeExpr) (cause : TypeExpr → Cause) (a : α) :
    t.refuse cause ≠ .ok a := by
  simp [refuse]

theorem symbol_eq_ok {v : Value} {s : Symbol} : symbol v = .ok s ↔ Symbol.ofValue? v = some s := by
  unfold symbol
  split <;> simp_all

theorem pathDenotes_of_ofPath {segments : List Value} {generics : List TypeExpr} {c : CType}
    (h : ofPath segments generics = .ok c) : generics = [] ∧ PathDenotes segments c := by
  unfold ofPath at h
  split at h
  · cases h
  · next last hlast =>
    obtain ⟨init, rfl⟩ := List.getLast?_eq_some_iff.1 hlast
    split at h
    · exact absurd h (refuse_ne_ok _ _ _)
    · next hg =>
      refine ⟨by simpa using hg, ?_⟩
      split at h
      · next hl =>
        obtain rfl : init = [] := by simpa using hl
        obtain ⟨s, hs, rfl⟩ := Result.map_eq_ok.1 h
        exact .name (symbol_eq_ok.1 hs)
      · next hl =>
        rw [List.dropLast_concat] at h
        split at h
        · cases h
        · next ms hms =>
          obtain rfl := Value.eq_map_text_of_texts? hms
          split at h
          · next hp =>
            obtain ⟨s, hs, rfl⟩ := Result.map_eq_ok.1 h
            exact .platform (by simpa using hl) (by simpa using hp) (symbol_eq_ok.1 hs)
          · exact absurd h (refuse_ne_ok _ _ _)

theorem denotes_of_anonymous {t : TypeExpr} {c : CType} (h : t.anonymous = .ok c) :
    Denotes t c := by
  induction t using anonymous.induct generalizing c with
  | case1 segments generics =>
    rw [anonymous] at h
    obtain ⟨rfl, hd⟩ := pathDenotes_of_ofPath h
    exact .path hd
  | case2 isMutable t ih =>
    rw [anonymous] at h
    obtain ⟨d, hd, rfl⟩ := Result.map_eq_ok.1 h
    exact .pointer isMutable (ih hd)
  | case3 t length ih =>
    rw [anonymous] at h
    obtain ⟨d, hd, rfl⟩ := Result.map_eq_ok.1 h
    exact .array length (ih hd)
  | case4 params output lifetimes =>
    rw [anonymous] at h
    exact absurd h (refuse_ne_ok _ _ _)
  | case5 =>
    rw [anonymous] at h
    cases h
    exact .unit
  | case6 =>
    rw [anonymous] at h
    cases h
  | case7 t => simp_all [anonymous, refuse_ne_ok]

theorem ofPath_of_pathDenotes {segments : List Value} {c : CType} (h : PathDenotes segments c) :
    ofPath segments [] = .ok c := by
  cases h with
  | name hs =>
    rw [ofPath, List.getLast?_singleton]
    exact Result.map_eq_ok.2 ⟨_, symbol_eq_ok.2 hs, rfl⟩
  | platform hm hp hs =>
    rw [ofPath, List.getLast?_concat]
    dsimp only
    rw [if_neg (by simp), if_neg (by simpa using hm), List.dropLast_concat,
      Value.texts?_map_text]
    dsimp only
    rw [if_pos (by simpa using hp)]
    exact Result.map_eq_ok.2 ⟨_, symbol_eq_ok.2 hs, rfl⟩

theorem anonymous_of_denotes {t : TypeExpr} {c : CType} (h : Denotes t c) :
    t.anonymous = .ok c := by
  induction h with
  | path h =>
    rw [anonymous]
    exact ofPath_of_pathDenotes h
  | pointer isMutable _ ih | array _ _ ih =>
    rw [anonymous, ih]
    rfl
  | unit => rfl

theorem outputDenotes_of_result {output : Option TypeExpr} {c : CType}
    (h : result output = .ok c) : OutputDenotes output c := by
  cases output with
  | none =>
    cases h
    exact .none
  | some t => exact .some (denotes_of_anonymous h)

mutual

theorem declares_of_declare : ∀ {t : TypeExpr} {x : String} {d : Declarator},
    t.declare x = .ok d → Declares t x d
  | function params output lifetimes, x, d, h => by
    rw [declare] at h
    split at h
    · exact absurd h (refuse_ne_ok _ _ _)
    · next hl =>
      obtain rfl : lifetimes = [] := by simpa using hl
      obtain ⟨args, ha, h⟩ := Result.bind_eq_ok.1 h
      obtain ⟨c, hc, h⟩ := Result.bind_eq_ok.1 h
      cases h
      exact .function x (declaresArgs_of_declareArgs ha) (outputDenotes_of_result hc)
  | path _ _, x, d, h | pointer _ _, x, d, h | array _ _, x, d, h | tuple _, x, d, h | never, x, d, h
  | reference _ _ _, x, d, h | slice _, x, d, h => by
    rw [declare] at h
    · obtain ⟨c, hc, rfl⟩ := Result.map_eq_ok.1 h
      exact .data x (denotes_of_anonymous hc)
    · simp

theorem declaresArgs_of_declareArgs {isPrintable : Bool} {text : String} :
    ∀ {params : List Param} {args : List Declarator},
      declareArgs isPrintable text params = .ok args → DeclaresArgs params args
  | [], args, h => by
    cases h
    exact .nil
  | .mk pattern t :: params, args, h => by
    rw [declareArgs] at h
    obtain ⟨d, hd, h⟩ := Result.bind_eq_ok.1 h
    obtain ⟨ds, hds, h⟩ := Result.bind_eq_ok.1 h
    cases h
    rw [declareArg] at hd
    split at hd
    · obtain ⟨x, hx, hd⟩ := Result.bind_eq_ok.1 hd
      exact .cons (Param.pointerBoundName_eq_ok.1 hx) (declares_of_declare hd)
        (declaresArgs_of_declareArgs hds)
    · cases hd

end

end TypeExpr

end FfiHeaders
