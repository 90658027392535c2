import FfiHeaders.Proofs.AcceptedTypes

/-!
# Places of function pointers

C writes a function pointer around its name, so one can stand only where there is a name to be written:
as a whole or as an argument of another function pointer, and not behind a pointer or as a result.
-/
namespace FfiHeaders

section Related

variable {α β γ δ : Type} {R : α → β → Prop} {S : γ → δ → Prop}

theorem rel_getElem? {xs : List α} {ys : List β} (h : List.Forall₂ R xs ys) (i : Nat) :
    Option.Rel R xs[i]? ys[i]? := by
  induction h generalizing i with
  | nil => exact .none
  | cons hxy _ ih =>
    cases i with
    | zero => exact .some hxy
    | succ i => exact ih i

theorem exists_rel_of_getElem? {xs : List α} {ys : List β} (h : List.Forall₂ R xs ys) {i : Nat} {y : β}
    (hy : ys[i]? = some y) : ∃ x, R x y := by
  have hrel := rel_getElem? h i
  rw [hy] at hrel
  generalize xs[i]? = x at hrel
  cases hrel with
  | some hxy => exact ⟨_, hxy⟩

theorem rel_bind {a : Option α} {b : Option β} {f : α → Option γ} {g : β → Option δ}
    (h : Option.Rel R a b) (hfg : ∀ x y, R x y → Option.Rel S (f x) (g y)) :
    Option.Rel S (a.bind f) (b.bind g) := by
  cases h with
  | none => exact .none
  | some hxy => exact hfg _ _ hxy

end Related

namespace CType

/-- A step from a type to one of its parts. -/
inductive Step
  | target
  | result
  | argument (i : Nat)

/-- The arguments of a function pointer. -/
def args : CType → List Declarator
  | function _ args _ => args
  | _ => []

theorem args_of_not_isFunction {t : CType} (h : t.isFunction = false) : t.args = [] := by
  cases t with
  | function => cases h
  | _ => rfl

/-- The part of a type that the steps lead to. -/
def part? : CType → List Step → Option CType
  | t, [] => some t
  | t, .argument i :: p => t.args[i]?.bind fun d => d.type.part? p
  | pointer _ t, .target :: p => t.part? p
  | function _ _ t, .result :: p => t.part? p
  | _, _ :: _ => none

/-- The argument of a function pointer, of a function pointer among its arguments, and so on, that stands
at the given places. -/
def argument? : CType → List Nat → Option Declarator
  | _, [] => none
  | t, i :: is => t.args[i]?.bind fun d => if is = [] then some d else d.type.argument? is

theorem part?_map_argument {t : CType} {is : List Nat} (h : is ≠ []) :
    t.part? (is.map .argument) = (t.argument? is).map (·.type) := by
  induction is generalizing t with
  | nil => exact absurd rfl h
  | cons i is ih =>
    rw [List.map_cons, part?, argument?, Option.map_bind]
    congr 1
    funext d
    by_cases his : is = []
    · subst his
      rfl
    · rw [ih his, Function.comp_apply, if_neg his]

theorem part?_of_isLeaf {t : CType} (h : t.isLeaf) (s : Step) (p : List Step) :
    t.part? (s :: p) = none := by
  cases t with
  | pointer => cases h
  | function => cases h
  | _ => cases s <;> rfl

end CType

namespace Declarator

/-- The declarator declares `x`: a function pointer has it inside and nothing beside it, and any other
type has it beside it. -/
def IsNamed (x : String) : Declarator → Prop
  | .mk name (.function inner _ _) => name = "" ∧ inner = x
  | .mk name _ => name = x

theorem isNamed_of_not_isFunction {t : CType} (ht : t.isFunction = false) (x : String) :
    (Declarator.mk x t).IsNamed x := by
  cases t with
  | function => cases ht
  | _ => rfl

end Declarator

namespace TypeExpr

/-- The parameters of a function pointer. -/
def params : TypeExpr → List Param
  | function params _ _ => params
  | _ => []

/-- The parameter of a function pointer, of a function pointer among its parameters, and so on, that
stands at the given places. -/
def parameter? : TypeExpr → List Nat → Option Param
  | _, [] => none
  | t, i :: is => t.params[i]?.bind fun p => if is = [] then some p else p.type.parameter? is

theorem Denotes.not_isFunction_part {t : TypeExpr} {c f : CType} (h : Denotes t c)
    {p : List CType.Step} (hp : c.part? p = some f) : f.isFunction = false := by
  induction h generalizing p with
  | path h =>
    cases p with
    | nil =>
      cases hp
      exact CType.isFunction_of_isLeaf h.isLeaf
    | cons s p =>
      rw [CType.part?_of_isLeaf h.isLeaf] at hp
      cases hp
  | pointer _ _ ih | array _ _ ih =>
    match p with
    | [] => cases hp; rfl
    | .target :: p => exact ih hp
  | unit =>
    match p with
    | [] => cases hp; rfl

theorem OutputDenotes.not_isFunction_part {output : Option TypeExpr} {c f : CType}
    (h : OutputDenotes output c) {p : List CType.Step} (hp : c.part? p = Option.some f) :
    f.isFunction = false := by
  cases h with
  | none => exact Denotes.unit.not_isFunction_part hp
  | some h => exact h.not_isFunction_part hp

theorem Declares.isNamed {t : TypeExpr} {x : String} {d : Declarator} (h : Declares t x d) :
    d.IsNamed x := by
  cases h with
  | data x h => exact Declarator.isNamed_of_not_isFunction h.isFunction x
  | function => exact ⟨rfl, rfl⟩

/-- The argument declares what the parameter binds. -/
def IsArgumentFor (p : Param) (e : Declarator) : Prop :=
  ∃ x, Param.PointerBinds p.pattern x ∧ Declares p.type x e

theorem DeclaresArgs.forall₂ {params : List Param} {args : List Declarator}
    (h : DeclaresArgs params args) : List.Forall₂ IsArgumentFor params args := by
  induction params generalizing args with
  | nil =>
    cases h
    exact .nil
  | cons p params ih =>
    cases h with
    | cons hx ht hp => exact .cons ⟨_, hx, ht⟩ (ih hp)

theorem Denotes.params_eq_nil {t : TypeExpr} {c : CType} (h : Denotes t c) : t.params = [] := by
  cases h <;> rfl

theorem Declares.forall₂_args {t : TypeExpr} {x : String} {d : Declarator} (h : Declares t x d) :
    List.Forall₂ IsArgumentFor t.params d.type.args := by
  cases h with
  | data x h =>
    rw [h.params_eq_nil, Declarator.type, CType.args_of_not_isFunction h.isFunction]
    exact .nil
  | function x hp ho => exact hp.forall₂

/-- The argument declares the name that the pattern of the parameter spells. -/
def IsNamedBy (p : Param) (e : Declarator) : Prop :=
  ∃ y, Param.SpellsArgument p.pattern y ∧ e.IsNamed y

/-- The arguments in a declared type stand where the parameters stand in its source, and have the names
that these spell. -/
theorem Declares.rel_argument? {t : TypeExpr} {x : String} {d : Declarator} (h : Declares t x d)
    (is : List Nat) : Option.Rel IsNamedBy (t.parameter? is) (d.type.argument? is) := by
  -- Each place leads to another type, which is declared under the name of its own parameter.
  induction is generalizing t x d with
  | nil => exact .none
  | cons i is ih =>
    rw [parameter?, CType.argument?]
    refine rel_bind (rel_getElem? h.forall₂_args i) fun p e hpe => ?_
    obtain ⟨y, hy, hd⟩ := hpe
    by_cases his : is = []
    · rw [if_pos his, if_pos his]
      exact .some ⟨y, Param.pointerBinds_iff.1 hy, hd.isNamed⟩
    · rw [if_neg his, if_neg his]
      exact ih hd

/-- What leads on to a function pointer are steps to arguments. -/
theorem Declares.part_of_isFunction {t : TypeExpr} {x : String} {d : Declarator} {f : CType}
    (h : Declares t x d) {p : List CType.Step} (hp : d.type.part? p = some f) (hf : f.isFunction) :
    ∃ is : List Nat, p = is.map .argument := by
  -- Data has no function pointer at any depth, so a step into data or into the result leads to none.
  induction p generalizing t x d with
  | nil => exact ⟨[], rfl⟩
  | cons s p ih =>
    cases h with
    | data x h =>
      rw [h.not_isFunction_part hp] at hf
      cases hf
    | @function params output args c x hargs ho =>
      cases s with
      | target => cases hp
      | result =>
        rw [ho.not_isFunction_part hp] at hf
        cases hf
      | argument i =>
        rw [CType.part?] at hp
        obtain ⟨e, he, hp⟩ := Option.bind_eq_some_iff.1 hp
        obtain ⟨q, y, -, hd⟩ := exists_rel_of_getElem? hargs.forall₂ he
        obtain ⟨is, rfl⟩ := ih hd hp
        exact ⟨i :: is, rfl⟩

/-- In a declared type each function pointer is the whole or an argument of another one, so none stands
behind a pointer or in a result. The whole declares the given name, and an argument the name that the
pattern of its parameter spells; a function pointer has that name inside. -/
theorem places_of_declare {t : TypeExpr} {x : String} {d : Declarator} (h : t.declare x = .ok d) :
    d.IsNamed x ∧
      (∀ p f, d.type.part? p = some f → f.isFunction →
        p = [] ∨ ∃ is e, p = is.map .argument ∧ d.type.argument? is = some e ∧ e.type = f) ∧
      ∀ is, Option.Rel IsNamedBy (t.parameter? is) (d.type.argument? is) := by
  have hd := declares_of_declare h
  refine ⟨hd.isNamed, fun p f hp hf => ?_, hd.rel_argument?⟩
  obtain ⟨is, rfl⟩ := hd.part_of_isFunction hp hf
  by_cases his : is = []
  · subst his
    exact Or.inl rfl
  · rw [CType.part?_map_argument his] at hp
    obtain ⟨e, he, hf⟩ := Option.map_eq_some_iff.1 hp
    exact Or.inr ⟨is, e, rfl, he, hf⟩

theorem places_of_declare_handler :
    ∃ d, handler.declare "slot" = .ok d ∧ d.IsNamed "slot" ∧
      d.type.part? [.argument 0] = some (.function "next" [] (.pointer .mutable (.user (.word "Node")))) ∧
      Option.Rel IsNamedBy (handler.parameter? [0]) (d.type.argument? [0]) ∧
      Option.Rel IsNamedBy (handler.parameter? [1]) (d.type.argument? [1]) := by
  obtain ⟨hroot, -, hargs⟩ := places_of_declare declare_handler
  exact ⟨_, declare_handler, hroot, rfl, hargs [0], hargs [1]⟩

end TypeExpr

end FfiHeaders
