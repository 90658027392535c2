import FfiHeaders.Proofs.Mentions
import FfiHeaders.Proofs.WordNames

/-!
# Sources whose names are texts

A document may hold any value where a name is due. Where all names are texts, what C cannot express is
rejected and nothing else goes wrong, and the user types that are recorded on the way are words.
-/
namespace FfiHeaders

theorem Value.exists_texts {vs : List Value} (h : vs.all isText) :
    ∃ ss : List String, vs = ss.map text := by
  induction vs with
  | nil => exact ⟨[], rfl⟩
  | cons v vs ih =>
    rw [List.all_cons, Bool.and_eq_true] at h
    obtain ⟨ss, rfl⟩ := ih h.2
    cases v with
    | text s => exact ⟨s :: ss, rfl⟩
    | _ => simp [isText] at h

/-- The source is rejected, so its author is told why. -/
def Failure.IsRejection (f : Failure) : Prop := ∃ cause span, f = .rejected cause span

theorem Failure.IsRejection.atSpan {f : Failure} (h : f.IsRejection) (span : Option Span) :
    (f.atSpan span).IsRejection := by
  obtain ⟨cause, _ | s, rfl⟩ := h
  · exact ⟨cause, span, rfl⟩
  · exact ⟨cause, some s, rfl⟩

namespace TypeExpr

mutual

/-- Whether every name in the type is a text, and so is every pattern of a parameter. -/
def hasTextNames : TypeExpr → Bool
  | path segments generics => segments.all Value.isText && haveTextNames generics
  | function params output lifetimes =>
    lifetimes.all Value.isText && paramsHaveTextNames params && outputHasTextNames output
  | tuple ts => haveTextNames ts
  | never => true
  | pointer _ t | array t _ | reference _ _ t | slice t => t.hasTextNames

def haveTextNames : List TypeExpr → Bool
  | [] => true
  | t :: ts => t.hasTextNames && haveTextNames ts

def paramsHaveTextNames : List Param → Bool
  | [] => true
  | .mk pattern t :: ps => pattern.isText && t.hasTextNames && paramsHaveTextNames ps

def outputHasTextNames : Option TypeExpr → Bool
  | none => true
  | some t => t.hasTextNames

end

mutual

theorem isPrintable_of_hasTextNames : ∀ {t : TypeExpr}, t.hasTextNames → t.isPrintable
  | path segments generics, h => by
    rw [hasTextNames, Bool.and_eq_true] at h
    rw [isPrintable, h.1, arePrintable_of_haveTextNames h.2]
    rfl
  | function params output lifetimes, h => by
    rw [hasTextNames, Bool.and_eq_true, Bool.and_eq_true] at h
    rw [isPrintable, h.1.1, areParamsPrintable_of_haveTextNames h.1.2,
      isOutputPrintable_of_hasTextNames h.2]
    rfl
  | tuple ts, h => by
    rw [hasTextNames] at h
    rw [isPrintable]
    exact arePrintable_of_haveTextNames h
  | never, _ => by rw [isPrintable]
  | pointer _ _, h | array _ _, h | reference _ _ _, h | slice _, h => by
    rw [hasTextNames] at h
    rw [isPrintable]
    exact isPrintable_of_hasTextNames h

theorem arePrintable_of_haveTextNames : ∀ {ts : List TypeExpr}, haveTextNames ts → arePrintable ts
  | [], _ => by rw [arePrintable]
  | t :: ts, h => by
    rw [haveTextNames, Bool.and_eq_true] at h
    rw [arePrintable, isPrintable_of_hasTextNames h.1, arePrintable_of_haveTextNames h.2]
    rfl

theorem areParamsPrintable_of_haveTextNames :
    ∀ {ps : List Param}, paramsHaveTextNames ps → areParamsPrintable ps
  | [], _ => by rw [areParamsPrintable]
  | .mk pattern t :: ps, h => by
    rw [paramsHaveTextNames, Bool.and_eq_true, Bool.and_eq_true] at h
    rw [areParamsPrintable, isParamPrintable, isPrintable_of_hasTextNames h.1.2,
      areParamsPrintable_of_haveTextNames h.2]
    rfl

theorem isOutputPrintable_of_hasTextNames :
    ∀ {output : Option TypeExpr}, outputHasTextNames output → isOutputPrintable output
  | none, _ => by rw [isOutputPrintable]
  | some t, h => by
    rw [outputHasTextNames] at h
    rw [isOutputPrintable]
    exact isPrintable_of_hasTextNames h

end

end TypeExpr

/-! ### Rejections -/

namespace Param

theorem isRejection_of_boundName {s function : String} {f : Failure}
    (h : boundName (.text s) function = .error f) : f.IsRejection := by
  unfold boundName at h
  rcases Result.bind_eq_error.1 h with h | ⟨cs, -, h⟩
  · cases h
  · split at h
    · cases h
    · cases h
      exact ⟨_, _, rfl⟩

theorem isRejection_of_pointerBoundName {s function : String} {f : Failure}
    (h : pointerBoundName (.text s) function = .error f) : f.IsRejection := by
  unfold pointerBoundName at h
  rcases Result.bind_eq_error.1 h with h | ⟨cs, -, h⟩
  · cases h
  · split at h
    · cases h
    · exact isRejection_of_boundName h

end Param

namespace TypeExpr

theorem isRejection_of_refuse {α : Type} {t : TypeExpr} {cause : TypeExpr → Cause} {f : Failure}
    (ht : t.hasTextNames) (h : (t.refuse cause : Except Failure α) = .error f) : f.IsRejection := by
  rw [refuse, if_pos (isPrintable_of_hasTextNames ht)] at h
  cases h
  exact ⟨_, _, rfl⟩

theorem isRejection_of_ofPath {segments : List Value} {generics : List TypeExpr} {f : Failure}
    (ht : (path segments generics).hasTextNames) (h : ofPath segments generics = .error f) :
    f.IsRejection := by
  have hs := ht
  rw [hasTextNames, Bool.and_eq_true] at hs
  obtain ⟨ss, rfl⟩ := Value.exists_texts hs.1
  have hsymbol : ∀ {c : Symbol → CType} {n : String}, c <$> symbol (.text n) ≠ .error f := by
    intro c n hn
    cases Result.map_eq_error.1 hn
  unfold ofPath at h
  split at h
  · cases h
    exact ⟨_, _, rfl⟩
  · next last hlast =>
    obtain ⟨n, -, rfl⟩ := List.mem_map.1 (List.mem_of_getLast? hlast)
    split at h
    · exact isRejection_of_refuse ht h
    · split at h
      · exact absurd h hsymbol
      · rw [← List.map_dropLast, Value.texts?_map_text] at h
        dsimp only at h
        split at h
        · exact absurd h hsymbol
        · exact isRejection_of_refuse ht h

theorem isRejection_of_anonymous {t : TypeExpr} {f : Failure} (ht : t.hasTextNames)
    (h : t.anonymous = .error f) : f.IsRejection := by
  induction t using anonymous.induct with
  | case1 segments generics =>
    rw [anonymous] at h
    exact isRejection_of_ofPath ht h
  | case2 isMutable t ih | case3 t length ih =>
    rw [anonymous] at h
    rw [hasTextNames] at ht
    exact ih ht (Result.map_eq_error.1 h)
  | case4 params output lifetimes =>
    rw [anonymous] at h
    exact isRejection_of_refuse ht h
  | case5 => cases h
  | case6 =>
    cases h
    exact ⟨_, _, rfl⟩
  | case7 t =>
    rw [anonymous] at h
    · exact isRejection_of_refuse ht h
    all_goals assumption

theorem isRejection_of_result {output : Option TypeExpr} {f : Failure}
    (ht : outputHasTextNames output) (h : result output = .error f) : f.IsRejection := by
  cases output with
  | none => cases h
  | some t => exact isRejection_of_anonymous ht h

mutual

theorem isRejection_of_declare : ∀ {t : TypeExpr} {x : String} {f : Failure}, t.hasTextNames →
    t.declare x = .error f → f.IsRejection
  | function params output lifetimes, x, f, ht, h => by
    have hparts := ht
    rw [hasTextNames, Bool.and_eq_true, Bool.and_eq_true] at hparts
    rw [declare] at h
    split at h
    · exact isRejection_of_refuse ht h
    · rcases Result.bind_eq_error.1 h with h | ⟨args, -, h⟩
      · rw [isPrintable_of_hasTextNames ht] at h
        exact isRejection_of_declareArgs hparts.1.2 h
      · rcases Result.bind_eq_error.1 h with h | ⟨c, -, h⟩
        · exact isRejection_of_result hparts.2 h
        · cases h
  | path _ _, x, f, ht, h | pointer _ _, x, f, ht, h | array _ _, x, f, ht, h
  | tuple _, x, f, ht, h | never, x, f, ht, h | reference _ _ _, x, f, ht, h
  | slice _, x, f, ht, h => by
    rw [declare] at h
    · exact isRejection_of_anonymous ht (Result.map_eq_error.1 h)
    · simp

theorem isRejection_of_declareArgs {text : String} : ∀ {params : List Param} {f : Failure},
    paramsHaveTextNames params → declareArgs true text params = .error f → f.IsRejection
  | [], f, _, h => by cases h
  | .mk (.text s) t :: params, f, ht, h => by
    rw [paramsHaveTextNames, Bool.and_eq_true, Bool.and_eq_true] at ht
    rw [declareArgs] at h
    rcases Result.bind_eq_error.1 h with h | ⟨d, -, h⟩
    · rw [declareArg, if_pos rfl] at h
      rcases Result.bind_eq_error.1 h with h | ⟨x, -, h⟩
      · exact Param.isRejection_of_pointerBoundName h
      · exact isRejection_of_declare ht.1.2 h
    · rcases Result.bind_eq_error.1 h with h | ⟨ds, -, h⟩
      · exact isRejection_of_declareArgs ht.2 h
      · cases h

end

/-! ### Recorded names -/

theorem eq_of_mem_ofPlatform {n s : Symbol} (h : n ∈ (CType.ofPlatform s).mentions) : n = s := by
  rw [← List.mem_toFinset, CType.toFinset_mentions_ofPlatform] at h
  exact (Symbol.mem_apartFrom.1 h).1

theorem eq_of_mem_ofName {n s : Symbol} (h : n ∈ (CType.ofName s).mentions) : n = s := by
  rw [← List.mem_toFinset, CType.toFinset_mentions_ofName] at h
  exact (Symbol.mem_apartFrom.1 h).1

theorem PathDenotes.isWord {segments : List Value} {c : CType} (h : PathDenotes segments c)
    (hs : segments.all Value.isText) : ∀ n ∈ c.mentions, n.isWord := by
  have hword : ∀ {v : Value} {s : Symbol}, v.isText → Symbol.ofValue? v = some s → s.isWord := by
    intro v s hv hs
    cases v with
    | text m => cases hs; rfl
    | _ => cases hv
  intro n hn
  cases h with
  | @name v s hv =>
    rw [eq_of_mem_ofName hn]
    exact hword (by simpa using hs) hv
  | @platform ms v s hm hp hv =>
    rw [eq_of_mem_ofPlatform hn]
    exact hword (List.all_eq_true.1 hs v (by simp)) hv

theorem Denotes.isWord {t : TypeExpr} {c : CType} (h : Denotes t c) (ht : t.hasTextNames) :
    ∀ n ∈ c.mentions, n.isWord := by
  induction h with
  | path h =>
    rw [hasTextNames, Bool.and_eq_true] at ht
    exact h.isWord ht.1
  | pointer isMutable _ ih | array length _ ih =>
    rw [hasTextNames] at ht
    exact ih ht
  | unit => simp [CType.mentions]

theorem OutputDenotes.isWord {output : Option TypeExpr} {c : CType} (h : OutputDenotes output c)
    (ht : outputHasTextNames output) : ∀ n ∈ c.mentions, n.isWord := by
  cases h with
  | none => simp [CType.mentions]
  | some h => exact h.isWord ht

mutual

theorem Declares.isWord {t : TypeExpr} {x : String} {d : Declarator} :
    Declares t x d → t.hasTextNames → ∀ n ∈ d.mentions, n.isWord
  | .data x h, ht => h.isWord ht
  | .function x hp ho, ht => by
    rw [hasTextNames, Bool.and_eq_true, Bool.and_eq_true] at ht
    intro n hn
    rcases List.mem_append.1 hn with hn | hn
    · exact ho.isWord ht.2 n hn
    · exact DeclaresArgs.isWord hp ht.1.2 n hn

theorem DeclaresArgs.isWord {params : List Param} {args : List Declarator} :
    DeclaresArgs params args → paramsHaveTextNames params → ∀ n ∈ CType.argMentions args, n.isWord
  | .nil, _ => by simp [CType.argMentions]
  | .cons (d := .mk y c) hx ht hp, h => by
    rw [paramsHaveTextNames, Bool.and_eq_true, Bool.and_eq_true] at h
    intro n hn
    rcases List.mem_append.1 hn with hn | hn
    · exact Declares.isWord ht h.1.2 n hn
    · exact DeclaresArgs.isWord hp h.2 n hn

end

/-- The names in a declarator are those of the user types of its source. -/
theorem Declares.exists_word {t : TypeExpr} {x : String} {d : Declarator} (h : Declares t x d)
    (ht : t.hasTextNames) {n : Symbol} (hn : n ∈ d.mentions) :
    ∃ m ∈ t.userTypes, n = .word m := by
  obtain ⟨m, rfl⟩ := Symbol.isWord_iff.1 (h.isWord ht n hn)
  exact ⟨m, (h.mem_mentions m).1 hn, rfl⟩

end TypeExpr

/-! ### Rendering -/

/-- A rendering that fails only by a rejection, and records no names but those given. -/
structure Mentioning.IsConfined {α : Type} (a : Mentioning α) (names : List String) : Prop where
  failure : ∀ f, a.result = .error f → f.IsRejection
  mentions : ∀ n ∈ a.mentions, ∃ m ∈ names, n = .word m

namespace Mentioning.IsConfined

variable {α β : Type} {a : Mentioning α} {names : List String}

theorem pure (x : α) : (Pure.pure x : Mentioning α).IsConfined names := ⟨nofun, nofun⟩

theorem ofResult {r : Except Failure α} (h : ∀ f, r = .error f → f.IsRejection) :
    (Mentioning.ofResult r).IsConfined names :=
  ⟨h, nofun⟩

theorem mono {more : List String} (ha : a.IsConfined names) (h : ∀ m ∈ names, m ∈ more) :
    a.IsConfined more where
  failure := ha.failure
  mentions n hn := by
    obtain ⟨m, hm, rfl⟩ := ha.mentions n hn
    exact ⟨m, h m hm, rfl⟩

theorem bind {f : α → Mentioning β} (ha : a.IsConfined names) (hf : ∀ x, (f x).IsConfined names) :
    (a >>= f).IsConfined names := by
  cases hr : a.result with
  | error e =>
    rw [bind_of_error hr]
    refine ⟨fun f hf => ?_, ha.mentions⟩
    obtain rfl := Except.error.inj hf
    exact ha.failure e hr
  | ok x =>
    rw [bind_of_ok hr]
    refine ⟨(hf x).failure, fun n hn => ?_⟩
    exact (List.mem_append.1 hn).elim (ha.mentions n) ((hf x).mentions n)

end Mentioning.IsConfined

theorem TypeExpr.isConfined_render {t : TypeExpr} (ht : t.hasTextNames) (x : String)
    (span : Option Span) : (t.render x span).IsConfined t.userTypes := by
  unfold render
  split
  · next f hf =>
    refine .ofResult fun g hg => ?_
    obtain rfl := Except.error.inj hg
    exact (isRejection_of_declare ht hf).atSpan span
  · next d hd =>
    have hd := declares_of_declare hd
    have hprintable : d.isPrintable := List.all_eq_true.2 (hd.isWord ht)
    rw [Declarator.text?, if_pos hprintable]
    refine ⟨fun f hf => ?_, fun n hn => hd.exists_word ht hn⟩
    cases hf

theorem Field.isConfined_renderAll {fs : List Field} (hfs : fs.all (·.type.hasTextNames))
    (span : Option Span) : (renderAll span fs).IsConfined (fs.flatMap (·.type.userTypes)) := by
  induction fs with
  | nil => exact .pure _
  | cons f fs ih =>
    rw [List.all_cons, Bool.and_eq_true] at hfs
    have hf : (f.render span).IsConfined f.type.userTypes := by
      unfold render
      split
      · refine .ofResult fun g hg => ?_
        cases hg
        exact ⟨_, _, rfl⟩
      · exact (TypeExpr.isConfined_render hfs.1 _ span).bind fun _ => .pure _
    rw [renderAll, List.flatMap_cons]
    refine (hf.mono fun m hm => List.mem_append_left _ hm).bind fun line => ?_
    exact ((ih hfs.2).mono fun m hm => List.mem_append_right _ hm).bind fun _ => .pure _

theorem Param.isConfined_renderAll {ps : List Param} (hps : TypeExpr.paramsHaveTextNames ps)
    (function : String) (span : Option Span) :
    (renderAll function span ps).IsConfined (TypeExpr.paramUserTypes ps) := by
  induction ps with
  | nil => exact .pure _
  | cons p ps ih =>
    obtain ⟨pattern, t⟩ := p
    rw [TypeExpr.paramsHaveTextNames, Bool.and_eq_true, Bool.and_eq_true] at hps
    obtain ⟨s, rfl⟩ : ∃ s, pattern = .text s := by
      cases pattern with
      | text s => exact ⟨s, rfl⟩
      | _ => simp [Value.isText] at hps
    have hp : (Param.render function span (.mk (.text s) t)).IsConfined t.userTypes := by
      refine .bind (.ofResult fun f hf => ?_) fun x => TypeExpr.isConfined_render hps.1.2 x span
      cases hb : boundName (.text s) function with
      | error e =>
        rw [Param.pattern, hb] at hf
        obtain rfl := Except.error.inj hf
        exact (isRejection_of_boundName hb).atSpan span
      | ok x =>
        rw [Param.pattern, hb] at hf
        cases hf
    rw [renderAll, TypeExpr.paramUserTypes]
    refine (hp.mono fun m hm => List.mem_append_left _ hm).bind fun arg => ?_
    exact ((ih hps.2).mono fun m hm => List.mem_append_right _ hm).bind fun _ => .pure _

theorem isConfined_renderPrototype {output : Option TypeExpr}
    (ho : TypeExpr.outputHasTextNames output) (head : String) (span : Option Span) :
    (renderPrototype head span output).IsConfined (TypeExpr.outputUserTypes output) := by
  unfold renderPrototype
  split
  · exact .pure _
  · refine .ofResult fun f hf => ?_
    cases hf
    exact ⟨_, _, rfl⟩
  · exact TypeExpr.isConfined_render ho head span

/-- Whether the declaration, the types and parameters in it and its calling convention are named by
texts. -/
def Declaration.hasTextNames (d : Declaration) : Bool :=
  d.name.isText &&
    match d.body with
    | .typeAlias t => t.hasTextNames
    | .enum _ => true
    | .struct _ fields => fields.all (·.type.hasTextNames)
    | .function abi params output =>
      abi.isText && TypeExpr.paramsHaveTextNames params && TypeExpr.outputHasTextNames output

/-- A declaration that cannot be rendered is rejected, and what it leaves recorded are user types that
its source mentions. -/
theorem Declaration.isConfined_render {d : Declaration} (hd : d.hasTextNames) :
    d.render.IsConfined d.userTypes := by
  rw [hasTextNames, Bool.and_eq_true] at hd
  unfold render userTypes
  cases hb : d.body with
  | typeAlias t =>
    simp only [hb] at hd ⊢
    exact (TypeExpr.isConfined_render hd.2 _ _).bind fun _ => .pure _
  | enum variants => exact .pure _
  | struct kind fields =>
    simp only [hb] at hd ⊢
    refine .bind ?_ fun _ => .pure _
    unfold renderStructBody
    split
    · exact (Field.isConfined_renderAll hd.2 _).bind fun _ => .pure _
    · exact .pure _
    · refine .ofResult fun f hf => ?_
      cases hf
      exact ⟨_, _, rfl⟩
  | function abi params output =>
    simp only [hb, Bool.and_eq_true] at hd ⊢
    refine ((Param.isConfined_renderAll hd.2.1.2 _ _).mono fun m hm => List.mem_append_left _ hm).bind
      fun args => ?_
    exact ((isConfined_renderPrototype hd.2.2 _ _).mono fun m hm => List.mem_append_right _ hm).bind
      fun _ => .pure _

end FfiHeaders
