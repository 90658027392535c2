import FfiHeaders.Header.Rendering
import FfiHeaders.Proofs.TypeNames

/-!
# The user types that a source mentions

`TypeExpr.userTypes` and `Declaration.userTypes` read off the source which types of the library a
declaration needs. Rendering records exactly those.
-/
namespace FfiHeaders

namespace TypeExpr

/-- The user type that a path names: its last segment, unless that is the name of a C type. -/
def pathUserTypes (segments : List Value) : List String :=
  let known := if segments.length = 1 then builtinNames else platformNames
  match segments.getLast? with
  | some (.text n) => if n ∈ known then [] else [n]
  | _ => []

mutual

/-- The names of the user types in a type, also those inside function pointers. -/
def userTypes : TypeExpr → List String
  | path segments _ => pathUserTypes segments
  | pointer _ t | array t _ => t.userTypes
  | function params output _ => paramUserTypes params ++ outputUserTypes output
  | tuple _ | never | reference .. | slice _ => []

def paramUserTypes : List Param → List String
  | [] => []
  | .mk _ t :: ps => t.userTypes ++ paramUserTypes ps

def outputUserTypes : Option TypeExpr → List String
  | none => []
  | some t => t.userTypes

end

theorem ofValue?_eq_word {v : Value} {n : String} : Symbol.ofValue? v = some (.word n) ↔ v = .text n := by
  cases v <;> simp [Symbol.ofValue?]

theorem word_mem_pathUserNames {segments : List Value} {n : String} :
    .word n ∈ pathUserNames segments ↔ n ∈ pathUserTypes segments := by
  unfold pathUserNames pathUserTypes
  cases segments.getLast? with
  | none => simp
  | some v =>
    cases v with
    | text m =>
      simp only [Option.bind_some, Symbol.ofValue?, Symbol.apartFrom_word]
      generalize (if segments.length = 1 then builtinNames else platformNames) = known
      by_cases hm : m ∈ known
      · simp [hm]
      · simp [hm]
    | _ => simp [Symbol.ofValue?, Symbol.mem_apartFrom]

mutual

/-- The user types in a type are the words among its names. -/
theorem word_mem_userNames (n : String) : ∀ t : TypeExpr, .word n ∈ t.userNames ↔ n ∈ t.userTypes
  | path segments _ => by rw [userNames, userTypes, word_mem_pathUserNames]
  | pointer _ t | array t _ => by rw [userNames, userTypes, word_mem_userNames n t]
  | function params output _ => by
    rw [userNames, userTypes, Finset.mem_union, List.mem_append, word_mem_paramUserNames n params,
      word_mem_outputUserNames n output]
  | tuple _ | never | reference .. | slice _ => by
    rw [userNames, userTypes]
    exact iff_of_false (Finset.notMem_empty _) List.not_mem_nil

theorem word_mem_paramUserNames (n : String) :
    ∀ ps : List Param, .word n ∈ paramUserNames ps ↔ n ∈ paramUserTypes ps
  | [] => iff_of_false (by rw [paramUserNames]; exact Finset.notMem_empty _) List.not_mem_nil
  | .mk _ t :: ps => by
    rw [paramUserNames, paramUserTypes, Finset.mem_union, List.mem_append, word_mem_userNames n t,
      word_mem_paramUserNames n ps]

theorem word_mem_outputUserNames (n : String) :
    ∀ output : Option TypeExpr, .word n ∈ outputUserNames output ↔ n ∈ outputUserTypes output
  | none => iff_of_false (by rw [outputUserNames]; exact Finset.notMem_empty _) List.not_mem_nil
  | some t => by rw [outputUserNames, outputUserTypes, word_mem_userNames n t]

end

theorem Declares.mem_mentions {t : TypeExpr} {x : String} {d : Declarator} (h : Declares t x d)
    (n : String) : .word n ∈ d.mentions ↔ n ∈ t.userTypes := by
  rw [← List.mem_toFinset, h.toFinset_mentions, word_mem_userNames]

end TypeExpr

/-- The user types that a declaration writes out. The field of an opaque struct is not written. -/
def Declaration.userTypes (d : Declaration) : List String :=
  match d.body with
  | .typeAlias t => t.userTypes
  | .enum _ => []
  | .struct (.text "named") fields => fields.flatMap (·.type.userTypes)
  | .struct _ _ => []
  | .function _ params output =>
    TypeExpr.paramUserTypes params ++ TypeExpr.outputUserTypes output

namespace Mentioning

/-- A step after another one succeeds if both do, and both leave what they mention. -/
theorem exists_of_bind_ok {α β : Type} {a : Mentioning α} {f : α → Mentioning β} {y : β}
    (h : (a >>= f).result = .ok y) :
    ∃ x, a.result = .ok x ∧ (f x).result = .ok y ∧
      (a >>= f).mentions = a.mentions ++ (f x).mentions := by
  cases hx : a.result with
  | error e =>
    rw [bind_of_error hx] at h
    cases h
  | ok x =>
    rw [bind_of_ok hx] at h ⊢
    exact ⟨x, rfl, h, rfl⟩

@[simp] theorem mentions_ofResult {α : Type} (r : Except Failure α) :
    (ofResult r).mentions = [] := rfl

@[simp] theorem result_ofResult {α : Type} (r : Except Failure α) : (ofResult r).result = r := rfl

end Mentioning

/-- A type that is rendered is declared and written under the same name. -/
theorem TypeExpr.exists_of_render_ok {t : TypeExpr} {x s : String} {span : Option Span}
    (h : (t.render x span).result = .ok s) :
    ∃ d, t.declare x = .ok d ∧ d.isPrintable ∧ s = d.text ∧
      (t.render x span).mentions = d.mentions := by
  unfold render at h ⊢
  split at h
  · cases h
  · next d hd =>
    split at h
    · next u hu =>
      cases h
      obtain ⟨hp, rfl⟩ := Declarator.text?_eq_some_iff.1 hu
      exact ⟨d, hd, hp, rfl, rfl⟩
    · cases h

theorem TypeExpr.mem_mentions_render {t : TypeExpr} {x s : String} {span : Option Span}
    (h : (t.render x span).result = .ok s) (n : String) :
    .word n ∈ (t.render x span).mentions ↔ n ∈ t.userTypes := by
  obtain ⟨d, hd, -, -, hm⟩ := exists_of_render_ok h
  rw [hm, (declares_of_declare hd).mem_mentions n]

theorem Field.mem_mentions_render {f : Field} {span : Option Span} {s : String}
    (h : (f.render span).result = .ok s) (n : String) :
    .word n ∈ (f.render span).mentions ↔ n ∈ f.type.userTypes := by
  unfold render at h ⊢
  split at h
  · cases h
  · next hp =>
    rw [if_neg hp]
    obtain ⟨u, hu, -, hm⟩ := Mentioning.exists_of_bind_ok h
    rw [hm, List.mem_append, TypeExpr.mem_mentions_render hu]
    simp

theorem Field.mem_mentions_renderAll {fs : List Field} {span : Option Span} {s : String}
    (h : (Field.renderAll span fs).result = .ok s) (n : String) :
    .word n ∈ (Field.renderAll span fs).mentions ↔ n ∈ fs.flatMap (·.type.userTypes) := by
  induction fs generalizing s with
  | nil => simp [renderAll]
  | cons f fs ih =>
    obtain ⟨u, hu, h, hm⟩ := Mentioning.exists_of_bind_ok h
    obtain ⟨v, hv, -, hm'⟩ := Mentioning.exists_of_bind_ok h
    rw [renderAll, hm, hm', List.mem_append, List.mem_append, f.mem_mentions_render hu, ih hv,
      List.flatMap_cons, List.mem_append]
    simp

theorem Param.mem_mentions_renderAll {ps : List Param} {function : String} {span : Option Span}
    {args : List String} (h : (Param.renderAll function span ps).result = .ok args) (n : String) :
    .word n ∈ (Param.renderAll function span ps).mentions ↔ n ∈ TypeExpr.paramUserTypes ps := by
  induction ps generalizing args with
  | nil => simp [renderAll, TypeExpr.paramUserTypes]
  | cons p ps ih =>
    obtain ⟨pattern, t⟩ := p
    obtain ⟨u, hu, h, hm⟩ := Mentioning.exists_of_bind_ok h
    obtain ⟨v, hv, -, hm'⟩ := Mentioning.exists_of_bind_ok h
    obtain ⟨x, -, hx, hmx⟩ := Mentioning.exists_of_bind_ok hu
    rw [renderAll, hm, hm', Param.render, hmx, List.mem_append, List.mem_append, List.mem_append,
      TypeExpr.mem_mentions_render hx, ih hv, TypeExpr.paramUserTypes, List.mem_append]
    simp [Param.type]

theorem mem_mentions_renderPrototype {head : String} {span : Option Span}
    {output : Option TypeExpr} {s : String} (h : (renderPrototype head span output).result = .ok s)
    (n : String) :
    .word n ∈ (renderPrototype head span output).mentions ↔
      n ∈ TypeExpr.outputUserTypes output := by
  unfold renderPrototype at h ⊢
  split at h
  · simp [TypeExpr.outputUserTypes]
  · cases h
  · rw [TypeExpr.mem_mentions_render h, TypeExpr.outputUserTypes]

/-- Rendering a declaration records the user types that it writes out, and no others. -/
theorem Declaration.mem_mentions_render {d : Declaration} {s : String}
    (h : d.render.result = .ok s) (n : String) :
    .word n ∈ d.render.mentions ↔ n ∈ d.userTypes := by
  unfold render at h ⊢
  unfold userTypes
  cases hb : d.body with
  | typeAlias t =>
    simp only [hb] at h ⊢
    obtain ⟨u, hu, -, hm⟩ := Mentioning.exists_of_bind_ok h
    rw [hm, List.mem_append, TypeExpr.mem_mentions_render hu]
    simp
  | enum variants => simp
  | struct kind fields =>
    simp only [hb] at h ⊢
    obtain ⟨u, hu, -, hm⟩ := Mentioning.exists_of_bind_ok h
    rw [hm, List.mem_append]
    unfold renderStructBody at hu ⊢
    split at hu
    · obtain ⟨v, hv, -, hm'⟩ := Mentioning.exists_of_bind_ok hu
      rw [hm', List.mem_append, Field.mem_mentions_renderAll hv]
      simp
    · simp
    · cases hu
  | function abi params output =>
    simp only [hb] at h ⊢
    obtain ⟨args, ha, h, hm⟩ := Mentioning.exists_of_bind_ok h
    obtain ⟨u, hu, -, hm'⟩ := Mentioning.exists_of_bind_ok h
    rw [hm, hm', List.mem_append, List.mem_append, Param.mem_mentions_renderAll ha,
      mem_mentions_renderPrototype hu, List.mem_append]
    simp

end FfiHeaders
