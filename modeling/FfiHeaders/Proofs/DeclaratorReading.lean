import FfiHeaders.Proofs.Reading
import FfiHeaders.Proofs.Translation

/-!
# Written types as C reads them

A type that is written around a name is read as a declaration of that name, and its meaning is that
of the type. Two types that are written alike differ in nothing but whether a leaf is a user type.
-/
namespace FfiHeaders

open Reading (Meaning Declared IsName IsBase IsHead IsDeclaration tokens)

namespace CType

/-- The name that a type declares behind `name`: a function pointer holds its own. -/
def declaredName (name : String) : CType → String
  | function inner _ _ => inner
  | _ => name

mutual

/-- What a type says of its name. A pointer to constants points to a constant type. -/
def meaning : CType → Bool → Meaning
  | void, isConst => .base isConst "void"
  | native n, isConst => .base isConst n
  | user s, isConst => .base isConst s.plain
  | pointer kind t, isConst => .pointer isConst (t.meaning (kind = .const))
  | function _ args result, isConst =>
    .pointer isConst (.function (argMeanings args) (result.meaning false))

def argMeanings : List Declarator → List Declared
  | [] => []
  | .mk name t :: ds => .mk (t.declaredName name) (t.meaning false) :: argMeanings ds

end

mutual

/-- The type with each user type in it as a native type of the same text. -/
def plainLeaves : CType → CType
  | void => void
  | native n => native n
  | user s => native s.plain
  | pointer kind t => pointer kind t.plainLeaves
  | function inner args result => function inner (argPlainLeaves args) result.plainLeaves

def argPlainLeaves : List Declarator → List Declarator
  | [] => []
  | .mk name t :: ds => .mk name t.plainLeaves :: argPlainLeaves ds

end

/-- A type that stands in front of a declarator, as all but function pointers do. -/
inductive IsData : CType → Prop
  | void : IsData void
  | native {n : String} (h : IsBase n) (hv : n ≠ "void") : IsData (native n)
  | user {n : String} (h : IsName n) : IsData (user (.word n))
  | pointer (kind : PointerKind) {t : CType} (h : IsData t) : IsData (pointer kind t)

end CType

namespace Declarator

def plainLeaves (d : Declarator) : Declarator := .mk d.name d.type.plainLeaves

mutual

/-- The declarator declares `x`: a data type stands beside it, a function pointer around it. -/
inductive Names : Declarator → String → Prop
  | data {t : CType} (x : String) (h : t.IsData) : Names (.mk x t) x
  | function {args : List Declarator} {result : CType} (x : String) (ha : AreArguments args)
      (hr : result.IsData) : Names (.mk "" (.function x args result)) x

/-- The arguments of a function pointer: each has a name or none, and none is void. -/
inductive AreArguments : List Declarator → Prop
  | nil : AreArguments []
  | cons {d : Declarator} {ds : List Declarator} {x : String} (hx : x = "" ∨ IsName x)
      (hd : Names d x) (hv : d.type ≠ .void) (hs : AreArguments ds) : AreArguments (d :: ds)

end

end Declarator

namespace CType

/-- The tokens of a type as the target of a pointer, or as a whole if it is not constant. -/
def targetTokens (t : CType) (isConst : Bool) : List Reading.Token :=
  if isConst then
    if t.isPointer then tokens t.text ++ [.const] else .const :: tokens t.text
  else tokens t.text

theorem targetTokens_false (t : CType) : t.targetTokens false = tokens t.text := rfl

theorem targetTokens_pointer (kind : PointerKind) (t : CType) :
    (pointer kind t).targetTokens true = tokens (pointer kind t).text ++ [.const] := rfl

theorem tokens_pointer (kind : PointerKind) (t : CType) :
    tokens (pointer kind t).text = t.targetTokens (kind = .const) ++ [.star] := by
  cases kind with
  | mutable =>
    rw [text, Reading.tokens_append_mark (by decide)]
    rfl
  | const =>
    rw [text, targetTokens, if_pos (decide_eq_true rfl)]
    by_cases hp : t.isPointer
    · rw [if_pos hp, if_pos hp, Reading.tokens_append_mark (by decide), List.append_assoc]
      rfl
    · rw [if_neg hp, if_neg hp, Reading.tokens_append_mark (by decide),
        Reading.tokens_append (.inl (by decide))]
      rfl

/-- The stars of a type are read as part of the declarator behind it. -/
theorem IsData.isDeclaration {t : CType} (ht : t.IsData) (isConst : Bool)
    {head : List Reading.Token} {x : String} {f : Meaning → Meaning} (h : IsHead head x f) :
    IsDeclaration (t.targetTokens isConst ++ head) (.mk x (f (t.meaning isConst))) := by
  -- the star of a pointer joins the head, so the claim has to hold for all heads
  induction ht generalizing isConst head f with
  | void =>
    have hw : IsBase "void" := by decide
    have := Reading.isDeclaration_of_isBase hw isConst h
    cases isConst <;> exact this
  | native hn =>
    have := Reading.isDeclaration_of_isBase hn isConst h
    cases isConst <;> exact this
  | user hs =>
    have := Reading.isDeclaration_of_isBase (Reading.isBase_of_isName hs) isConst h
    cases isConst <;> exact this
  | pointer kind ht ih =>
    have := ih (kind = .const) (h.star isConst)
    cases isConst with
    | false =>
      rw [targetTokens_false, tokens_pointer, List.append_assoc]
      exact this
    | true =>
      rw [targetTokens_pointer, tokens_pointer, List.append_assoc, List.append_assoc]
      exact this

theorem IsData.isFunction {t : CType} (ht : t.IsData) : t.isFunction = false := by
  cases ht <;> rfl

theorem IsData.declaredName {t : CType} (ht : t.IsData) (x : String) : t.declaredName x = x := by
  cases ht <;> rfl

theorem IsData.isDeclaration_text {t : CType} (ht : t.IsData) {name x : String}
    {f : Meaning → Meaning} (h : IsHead (tokens name) x f) :
    IsDeclaration (tokens (Declarator.mk name t).text) (.mk x (f (t.meaning false))) := by
  have hd := ht.isDeclaration false h
  have htokens : tokens (Declarator.mk name t).text = tokens t.text ++ tokens name := by
    rw [Declarator.text, declaratorText, ht.isFunction, Bool.false_or]
    split
    · next hn =>
      rw [String.isEmpty_iff.1 hn]
      exact (List.append_nil _).symm
    · rw [Reading.tokens_around_mark (by decide)]
      exact congrArg (· ++ _) (List.append_nil _)
  rw [htokens]
  exact hd

theorem argTexts_eq_map (ds : List Declarator) : argTexts ds = ds.map Declarator.text := by
  induction ds with
  | nil => rfl
  | cons d ds ih => rw [argTexts, ih, List.map_cons, Declarator.text]

theorem tokens_function (inner : String) (args : List Declarator) (result : CType) :
    tokens (function inner args result).text =
      tokens result.text ++ (.left :: .star :: tokens inner ++
        .right :: Reading.parameterTokens ((args.map Declarator.text).map tokens)) := by
  have hempty : args.isEmpty = (args.map Declarator.text).isEmpty := by cases args <;> rfl
  rw [text, argTexts_eq_map, hempty, ← Reading.tokens_parameterList,
    Reading.tokens_append_mark (by decide), Reading.tokens_around_mark (by decide),
    Reading.tokens_around_mark (by decide)]
  simp only [List.append_assoc]
  rfl

/-- A function pointer reads as a pointer to a function around the declarator inside it. -/
theorem IsData.isDeclaration_function {result : CType} (hr : result.IsData)
    {args : List Declarator} {ds : List Declared}
    (ha : List.Forall₂ IsDeclaration ((args.map Declarator.text).map tokens) ds)
    (hv : ∀ d ∈ ds, d ≠ .mk "" (.base false "void")) {inner x : String} {f : Meaning → Meaning}
    (h : IsHead (tokens inner) x f) (name : String) :
    IsDeclaration (tokens (Declarator.mk name (.function inner args result)).text)
      (.mk x (f (.pointer false (.function ds (result.meaning false))))) := by
  have hhead := (h.star false).group (Reading.isSuffix_parameterTokens ha hv)
  have hd := hr.isDeclaration false hhead
  have hinside : ((function inner args result).isFunction || name.isEmpty) = true := rfl
  rw [Declarator.text, declaratorText, if_pos hinside, tokens_function]
  exact hd

theorem IsData.meaning_ne_void {t : CType} (ht : t.IsData) (h : t ≠ .void) (isConst : Bool) :
    t.meaning isConst ≠ .base false "void" := by
  intro hm
  cases ht with
  | void => exact h rfl
  | native hn hv =>
    rw [meaning] at hm
    injection hm with _ hw
    exact hv hw
  | user hs =>
    rw [meaning] at hm
    injection hm with _ hw
    exact Reading.not_isName_void (hw ▸ hs)
  | pointer kind ht =>
    rw [meaning] at hm
    cases hm

end CType

namespace Declarator

theorem isHead_of_isName {x : String} (hx : x = "" ∨ IsName x) : IsHead (tokens x) x id := by
  rcases hx with rfl | hx
  · exact Reading.isHead_nil
  · rw [Reading.tokens_of_isName hx]
    exact Reading.isHead_name x

theorem AreArguments.meaning_ne_void {ds : List Declarator} (hs : AreArguments ds) :
    ∀ d ∈ CType.argMeanings ds, d ≠ .mk "" (.base false "void") := by
  cases hs with
  | nil => exact fun d hd => absurd hd List.not_mem_nil
  | @cons d ds x hx hd hv hs =>
    cases d with
    | mk name t =>
      intro e he
      rcases List.mem_cons.1 he with rfl | he
      · intro h
        injection h with hname hm
        cases hd with
        | data _ ht => exact ht.meaning_ne_void hv false hm
        | function => cases hm
      · exact hs.meaning_ne_void e he

mutual

theorem Names.isDeclaration {d : Declarator} {x : String} (hd : d.Names x)
    (hx : x = "" ∨ IsName x) : IsDeclaration (tokens d.text) (.mk x (d.type.meaning false)) := by
  cases hd with
  | data _ ht => exact ht.isDeclaration_text (isHead_of_isName hx)
  | function _ ha hr =>
    exact hr.isDeclaration_function ha.isDeclaration ha.meaning_ne_void (isHead_of_isName hx) ""

theorem AreArguments.isDeclaration {ds : List Declarator} (hs : AreArguments ds) :
    List.Forall₂ IsDeclaration ((ds.map text).map tokens) (CType.argMeanings ds) := by
  cases hs with
  | nil => exact .nil
  | @cons d ds x hx hd hv hs =>
    have h := hd.isDeclaration hx
    cases hd with
    | data _ ht =>
      refine .cons ?_ hs.isDeclaration
      rwa [ht.declaredName]
    | function _ ha hr => exact .cons h hs.isDeclaration

end

end Declarator

/-! ### The written type in what is read -/

namespace Reading

def Meaning.isConst : Meaning → Bool
  | .base isConst _ | .pointer isConst _ => isConst
  | .function _ _ => false

/-- The name beside a type of this meaning, which for a function pointer stands inside. -/
def Meaning.nameBeside (name : String) : Meaning → String
  | .pointer _ (.function _ _) => ""
  | _ => name

mutual

/-- The C type of a meaning, with each base type but void as a native one. -/
def Meaning.cType : Meaning → String → CType
  | .base _ words, _ => if words = "void" then .void else .native words
  | .pointer _ (.function ps result), name => .function name (cDeclarators ps) (result.cType "")
  | .pointer _ t, name => .pointer (if t.isConst then .const else .mutable) (t.cType name)
  | .function _ result, name => result.cType name

def cDeclarators : List Declared → List Declarator
  | [] => []
  | .mk x m :: ds => .mk (m.nameBeside x) (m.cType x) :: cDeclarators ds

end

/-- The declarator that is read. -/
def Declared.cDeclarator : Declared → Declarator
  | .mk x m => .mk (m.nameBeside x) (m.cType x)

end Reading

theorem CType.IsData.isConst_meaning {t : CType} (ht : t.IsData) (isConst : Bool) :
    (t.meaning isConst).isConst = isConst := by
  cases ht <;> rfl

theorem CType.IsData.nameBeside_meaning {t : CType} (ht : t.IsData) (isConst : Bool)
    (name : String) : (t.meaning isConst).nameBeside name = name := by
  cases ht with
  | pointer kind ht => cases ht <;> rfl
  | _ => rfl

theorem CType.IsData.cType_meaning {t : CType} (ht : t.IsData) (isConst : Bool) (name : String) :
    (t.meaning isConst).cType name = t.plainLeaves := by
  induction ht generalizing isConst with
  | void => rfl
  | native hn hv => exact if_neg hv
  | user hs =>
    refine if_neg ?_
    rintro rfl
    exact Reading.not_isName_void hs
  | pointer kind ht ih =>
    rw [meaning, plainLeaves, Reading.Meaning.cType, ih, ht.isConst_meaning]
    · cases kind <;> rfl
    · cases ht <;> simp [meaning]

namespace Declarator

mutual

theorem Names.cDeclarator {d : Declarator} {x : String} (hd : d.Names x) :
    (Declared.mk x (d.type.meaning false)).cDeclarator = d.plainLeaves := by
  cases hd with
  | data _ ht =>
    change Declarator.mk _ _ = Declarator.mk _ _
    rw [type, ht.cType_meaning, ht.nameBeside_meaning, name]
  | function _ ha hr =>
    change Declarator.mk "" (.function x _ _) = Declarator.mk "" (.function x _ _)
    rw [ha.cDeclarators, hr.cType_meaning]

theorem AreArguments.cDeclarators {ds : List Declarator} (hs : AreArguments ds) :
    Reading.cDeclarators (CType.argMeanings ds) = CType.argPlainLeaves ds := by
  cases hs with
  | nil => rfl
  | @cons d ds x hx hd hv hs =>
    have h := hd.cDeclarator
    cases hd with
    | data _ ht =>
      rw [CType.argMeanings, ht.declaredName]
      exact congrArg₂ List.cons h hs.cDeclarators
    | function _ ha hr => exact congrArg₂ List.cons h hs.cDeclarators

end

theorem isWord_of_isData {t : CType} (ht : t.IsData) : ∀ s ∈ t.mentions, s.isWord := by
  induction ht with
  | void | native => simp [CType.mentions]
  | user => simp [CType.mentions, Symbol.isWord]
  | pointer kind ht ih => exact ih

mutual

theorem Names.isWord {d : Declarator} {x : String} (hd : d.Names x) :
    ∀ s ∈ d.mentions, s.isWord := by
  cases hd with
  | data _ ht => exact isWord_of_isData ht
  | function _ ha hr =>
    intro s hs
    rcases List.mem_append.1 hs with hs | hs
    · exact isWord_of_isData hr s hs
    · exact ha.isWord s hs

theorem AreArguments.isWord {ds : List Declarator} (hs : AreArguments ds) :
    ∀ s ∈ CType.argMentions ds, s.isWord := by
  cases hs with
  | nil => exact fun s hs => absurd hs List.not_mem_nil
  | @cons d ds x hx hd hv hs =>
    cases d with
    | mk name t =>
      intro s hm
      rcases List.mem_append.1 hm with hm | hm
      · exact hd.isWord s hm
      · exact hs.isWord s hm

end

theorem Names.text?_eq {d : Declarator} {x : String} (hd : d.Names x) : d.text? = some d.text :=
  text?_eq_some_iff.2 ⟨List.all_eq_true.2 hd.isWord, rfl⟩

end Declarator

end FfiHeaders
