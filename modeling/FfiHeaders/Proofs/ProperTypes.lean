import FfiHeaders.Proofs.Reading
import FfiHeaders.Proofs.WrittenLists
import FfiHeaders.Source.TypeExpr

/-!
# Types made of proper names

Proper types have identifiers for names and can be written. What is written first tells which kind of
type follows, if any does.
-/
namespace FfiHeaders.TypeExpr

open Written

/-! ### Proper names -/

/-- The characters that are written between names. -/
def isMark (c : Char) : Bool := " :<>(),;[]&*'!-".toList.contains c

/-- The words that are written before types. -/
def sourceKeywords : List String := ["fn", "for", "mut", "const"]

/-- A name that is no keyword. It holds no character that is written between names, as no identifier
does. -/
structure IsSourceName (s : String) : Prop where
  ne_empty : s ≠ ""
  not_isMark : ∀ c ∈ s.toList, isMark c = false
  not_keyword : s ∉ sourceKeywords

/-- A segment of a path is a name. -/
def IsSegment (v : Value) : Prop := ∃ x, v = .text x ∧ IsSourceName x

/-- A pattern is missing, or it is a name, such as the wildcard, perhaps behind `mut`. -/
inductive IsPattern : Value → Prop
  | missing : IsPattern (.text "")
  | name {x : String} (h : IsSourceName x) : IsPattern (.text x)
  | mutable {x : String} (h : IsSourceName x) : IsPattern (.text ("mut " ++ x))

/-- A lifetime is a name behind a quote. -/
inductive IsLifetime : Value → Prop
  | mk {x : String} (hne : x ≠ "") (h : ∀ c ∈ x.toList, isMark c = false) :
    IsLifetime (.text ("'" ++ x))

/-- The type is made of proper names, and its arrays have a length that is a natural number. -/
inductive IsProper : TypeExpr → Prop
  | path {segments : List Value} {generics : List TypeExpr} (hne : segments ≠ [])
    (hs : ∀ s ∈ segments, IsSegment s) (hg : ∀ t ∈ generics, IsProper t) :
    IsProper (path segments generics)
  | pointer {isMutable : Bool} {t : TypeExpr} (h : IsProper t) : IsProper (pointer isMutable t)
  | array {t : TypeExpr} {n : Int} (h : IsProper t) (hn : 0 ≤ n) : IsProper (array t (.int n))
  | function {params : List Param} {output : Option TypeExpr} {lifetimes : List Value}
    (hp : ∀ p ∈ params, IsPattern p.pattern) (ht : ∀ p ∈ params, IsProper p.type)
    (ho : ∀ t ∈ output, IsProper t) (hl : ∀ l ∈ lifetimes, IsLifetime l) :
    IsProper (function params output lifetimes)
  | tuple {ts : List TypeExpr} (h : ∀ t ∈ ts, IsProper t) : IsProper (tuple ts)
  | never : IsProper never
  | reference {isMutable : Bool} {lifetime : Value} {t : TypeExpr} (h : IsProper t)
    (hl : lifetime = .null ∨ IsLifetime lifetime) : IsProper (reference isMutable lifetime t)
  | slice {t : TypeExpr} (h : IsProper t) : IsProper (slice t)

theorem isSourceName_of_isIdentifier {x : String} (h : isIdentifier x.toList)
    (hk : x ∉ sourceKeywords) : IsSourceName x where
  ne_empty := by
    rintro rfl
    cases h
  not_isMark c hc := by
    have hmarks : " :<>(),;[]&*'!-".toList.all (!isNameChar ·) := by decide
    have hname := all_isNameChar_of_isIdentifier h c hc
    by_contra hmark
    rw [isMark, Bool.not_eq_false, List.contains_iff_mem] at hmark
    have hmark := List.all_eq_true.1 hmarks c hmark
    rw [hname] at hmark
    cases hmark
  not_keyword := hk

/-! ### Proper types can be written -/

theorem IsSegment.isText {v : Value} (h : IsSegment v) : v.isText := by
  obtain ⟨x, rfl, -⟩ := h
  rfl

theorem IsLifetime.isText {v : Value} (h : IsLifetime v) : v.isText := by
  cases h
  rfl

theorem arePrintable_of_forall {ts : List TypeExpr} (h : ∀ t ∈ ts, t.isPrintable) :
    arePrintable ts := by
  induction ts with
  | nil => rw [arePrintable]
  | cons t ts ih =>
    obtain ⟨ht, hts⟩ := List.forall_mem_cons.1 h
    rw [arePrintable, ht, ih hts, Bool.and_self]

theorem areParamsPrintable_of_forall {ps : List Param} (h : ∀ p ∈ ps, p.type.isPrintable) :
    areParamsPrintable ps := by
  induction ps with
  | nil => rw [areParamsPrintable]
  | cons p ps ih =>
    obtain ⟨hp, hps⟩ := List.forall_mem_cons.1 h
    obtain ⟨pattern, t⟩ := p
    rw [areParamsPrintable, isParamPrintable, ih hps, Bool.and_true]
    exact hp

theorem IsProper.isPrintable {t : TypeExpr} (ht : t.IsProper) : t.isPrintable := by
  induction ht with
  | path hne hs hg ih =>
    rw [TypeExpr.isPrintable, arePrintable_of_forall ih, Bool.and_true]
    exact List.all_eq_true.2 fun s hs' => (hs s hs').isText
  | @function params output lifetimes hp ht ho hl iht iho =>
    have hlifetimes : lifetimes.all Value.isText :=
      List.all_eq_true.2 fun l hl' => (hl l hl').isText
    rw [TypeExpr.isPrintable, hlifetimes, areParamsPrintable_of_forall iht]
    cases output with
    | none => rfl
    | some t => exact iho t rfl
  | tuple ht ih =>
    rw [TypeExpr.isPrintable]
    exact arePrintable_of_forall ih
  | never => rw [TypeExpr.isPrintable]
  | pointer ht ih | array ht hn ih | reference ht hl ih | slice ht ih =>
    rw [TypeExpr.isPrintable]
    exact ih

/-! ### Written types -/

/-- The characters of a written type. -/
def chars (t : TypeExpr) : List Char := t.text.toList

def paramChars (p : Param) : List Char := (paramText p).toList

def valueChars (v : Value) : List Char := v.plain.toList

/-- Items with a comma between them. -/
def listChars {α : Type} (write : α → List Char) (as : List α) : List Char :=
  [',', ' '].intercalate (as.map write)

theorem map_toList_texts (ts : List TypeExpr) : (texts ts).map String.toList = ts.map chars := by
  induction ts with
  | nil => rfl
  | cons t ts ih => exact congrArg (t.chars :: ·) ih

theorem map_toList_paramTexts (ps : List Param) :
    (paramTexts ps).map String.toList = ps.map paramChars := by
  induction ps with
  | nil => rfl
  | cons p ps ih => exact congrArg (paramChars p :: ·) ih

theorem toList_joinValues (sep : String) (vs : List Value) :
    (joinValues sep vs).toList = sep.toList.intercalate (vs.map valueChars) := by
  rw [joinValues, String.toList_intercalate, List.map_map]
  rfl

/-- The generic arguments of a path, in brackets if there are any. -/
def genericChars (ts : List TypeExpr) : List Char :=
  if ts = [] then [] else '<' :: (listChars chars ts ++ ['>'])

/-- The lifetimes that a function pointer is written for, if there are any. -/
def binderChars (lifetimes : List Value) : List Char :=
  if lifetimes = [] then [] else "for<".toList ++ (listChars valueChars lifetimes ++ ['>', ' '])

/-- The lifetime of a reference, if there is one. -/
def lifetimeChars (lifetime : Value) : List Char :=
  if lifetime.isTrue then valueChars lifetime ++ [' '] else []

def mutChars (isMutable : Bool) : List Char := if isMutable then "mut ".toList else []

theorem chars_path (segments : List Value) (generics : List TypeExpr) :
    (path segments generics).chars =
      [':', ':'].intercalate (segments.map valueChars) ++ genericChars generics := by
  cases generics with
  | nil =>
    change (joinValues "::" segments).toList = _
    simp [toList_joinValues, genericChars]
  | cons g gs =>
    change (joinValues "::" segments ++ "<" ++ String.intercalate ", " (texts (g :: gs)) ++
      ">").toList = _
    simp [toList_joinValues, map_toList_texts, genericChars, listChars]

theorem chars_pointer (isMutable : Bool) (t : TypeExpr) :
    (pointer isMutable t).chars =
      '*' :: ((if isMutable then "mut " else "const ").toList ++ t.chars) := by
  change ((if isMutable then "*mut " else "*const ") ++ t.text).toList = _
  rw [String.toList_append]
  cases isMutable <;> rfl

theorem chars_array (t : TypeExpr) (n : Int) :
    (array t (.int n)).chars = '[' :: (t.chars ++ ';' :: ' ' :: ((toString n).toList ++ [']'])) := by
  change ("[" ++ t.text ++ "; " ++ toString n ++ "]").toList = _
  simp [chars]

theorem chars_function (params : List Param) (output : Option TypeExpr) (lifetimes : List Value) :
    (function params output lifetimes).chars =
      binderChars lifetimes ++
        ("fn(".toList ++ (listChars paramChars params ++ ')' :: (outputText output).toList)) := by
  change ((if lifetimes.isEmpty then "" else "for<" ++ joinValues ", " lifetimes ++ "> ") ++ "fn(" ++
    String.intercalate ", " (paramTexts params) ++ ")" ++ outputText output).toList = _
  cases lifetimes with
  | nil => simp [map_toList_paramTexts, listChars, binderChars]
  | cons l ls => simp [map_toList_paramTexts, toList_joinValues, listChars, binderChars]

theorem chars_tuple (ts : List TypeExpr) :
    (tuple ts).chars = '(' :: (listChars chars ts ++ if ts.length = 1 then [',', ')'] else [')']) := by
  match ts with
  | [] => rfl
  | [t] =>
    change ("(" ++ t.text ++ ",)").toList = _
    simp [listChars, chars]
  | t :: t' :: ts =>
    change ("(" ++ String.intercalate ", " (texts (t :: t' :: ts)) ++ ")").toList = _
    simp [map_toList_texts, listChars]

theorem chars_never : never.chars = ['!'] := rfl

theorem chars_reference (isMutable : Bool) (lifetime : Value) (t : TypeExpr) :
    (reference isMutable lifetime t).chars =
      '&' :: (lifetimeChars lifetime ++ (mutChars isMutable ++ t.chars)) := by
  change ("&" ++ (if lifetime.isTrue then lifetime.plain ++ " " else "") ++
    (if isMutable then "mut " else "") ++ t.text).toList = _
  rw [lifetimeChars, mutChars]
  cases lifetime.isTrue <;> cases isMutable <;> simp [chars, valueChars]

theorem chars_slice (t : TypeExpr) : (slice t).chars = '[' :: (t.chars ++ [']']) := by
  change ("[" ++ t.text ++ "]").toList = _
  simp [chars]

/-! ### What is written first -/

/-- No name goes on. -/
def Breaks (y : List Char) : Prop := ∀ c ∈ y.head?, isMark c

/-- No type goes on. -/
def Stops (y : List Char) : Prop := ∀ c ∈ y.head?, c ∈ [',', ';', ')', ']', '>']

/-- No path goes on. -/
def EndsPath (y : List Char) : Prop := ∀ c ∈ y.head?, isMark c ∧ c ≠ ':'

/-- A list in brackets is over. A comma may stand before the bracket. -/
def Closes (y : List Char) : Prop :=
  (∃ z, y = ')' :: z) ∨ (∃ z, y = '>' :: z) ∨ ∃ z, y = ',' :: ')' :: z

theorem Stops.endsPath {y : List Char} (h : Stops y) : EndsPath y := by
  have hmarks : [',', ';', ')', ']', '>'].all fun c => isMark c ∧ c ≠ ':' := by decide
  exact fun c hc => by simpa using List.all_eq_true.1 hmarks c (h c hc)

theorem EndsPath.breaks {y : List Char} (h : EndsPath y) : Breaks y := fun c hc => (h c hc).1

theorem Stops.breaks {y : List Char} (h : Stops y) : Breaks y := h.endsPath.breaks

theorem Stops.endsPath_genericChars {y : List Char} (h : Stops y) (ts : List TypeExpr) :
    EndsPath (genericChars ts ++ y) := by
  unfold genericChars
  split
  · exact h.endsPath
  · simp [EndsPath, isMark]

theorem Closes.stops {y : List Char} (h : Closes y) : Stops y := by
  rcases h with ⟨z, rfl⟩ | ⟨z, rfl⟩ | ⟨z, rfl⟩ <;> simp [Stops]

/-- The kinds of types that are told from what is written first. -/
inductive Lead
  | name
  | pointer
  | bracket
  | function
  | tuple
  | never
  | reference
  deriving DecidableEq

def lead : TypeExpr → Lead
  | path _ _ => .name
  | pointer _ _ => .pointer
  | array _ _ | slice _ => .bracket
  | function _ _ _ => .function
  | tuple _ => .tuple
  | never => .never
  | reference _ _ _ => .reference

/-- The kind of type that a mark begins. -/
def markLead? : List Char → Option Lead
  | '*' :: _ => some .pointer
  | '[' :: _ => some .bracket
  | '(' :: _ => some .tuple
  | '!' :: _ => some .never
  | '&' :: _ => some .reference
  | _ => none

/-- The kind of type that a text begins with, if it begins with a type and not with a keyword before one
or with the name of a parameter. -/
def lead? (cs : List Char) : Option Lead :=
  let word := cs.takeWhile (!isMark ·)
  let rest := cs.dropWhile (!isMark ·)
  if word = [] then markLead? rest
  else if word = "fn".toList ∨ word = "for".toList then some .function
  else if word = "mut".toList ∨ [':', ' '] <+: rest then none
  else some .name

theorem lead?_of_isMark {c : Char} (hc : isMark c) (cs : List Char) :
    lead? (c :: cs) = markLead? (c :: cs) := by
  simp [lead?, hc]

theorem lead?_of_stops {y : List Char} (h : Stops y) : lead? y = none := by
  cases y with
  | nil => rfl
  | cons c cs =>
    have hc := h c rfl
    rw [lead?_of_isMark (h.breaks c rfl)]
    simp only [List.mem_cons, List.not_mem_nil, or_false] at hc
    rcases hc with rfl | rfl | rfl | rfl | rfl <;> rfl

theorem IsSourceName.toList_ne_nil {x : String} (h : IsSourceName x) : x.toList ≠ [] :=
  fun hx => h.ne_empty (String.toList_eq_nil_iff.1 hx)

theorem IsSourceName.toList_ne {x k : String} (h : IsSourceName x) (hk : k ∈ sourceKeywords) :
    x.toList ≠ k.toList :=
  fun hx => h.not_keyword (String.toList_inj.1 hx ▸ hk)

theorem lead?_name_append {x : String} (h : IsSourceName x) {y : List Char} (hy : Breaks y) :
    lead? (x.toList ++ y) = if [':', ' '] <+: y then none else some .name := by
  obtain ⟨hword, hrest⟩ := span_run (p := (!isMark ·)) (by simpa using h.not_isMark)
    (by simpa [Breaks] using hy)
  have hfn : x.toList ≠ "fn".toList := h.toList_ne (by decide)
  have hfor : x.toList ≠ "for".toList := h.toList_ne (by decide)
  have hmut : x.toList ≠ "mut".toList := h.toList_ne (by decide)
  simp only [lead?, hword, hrest, h.toList_ne_nil, hfn, hfor, hmut, or_self, false_or, if_false]

theorem lead?_mut (cs : List Char) : lead? ("mut ".toList ++ cs) = none := by
  simp [lead?, isMark]

/-- A pattern that is written in front of a type. -/
def IsLabel (label : List Char) : Prop :=
  ∃ x, IsSourceName x ∧ (label = x.toList ∨ label = "mut ".toList ++ x.toList)

/-- A label is no type. -/
theorem lead?_label_append {label : List Char} (h : IsLabel label) (cs : List Char) :
    lead? (label ++ ':' :: ' ' :: cs) = none := by
  obtain ⟨x, hx, rfl | rfl⟩ := h
  · rw [lead?_name_append hx (by simp [Breaks, isMark]), if_pos ⟨cs, rfl⟩]
  · rw [List.append_assoc, lead?_mut]

theorem IsLabel.ne_colon {label : List Char} (h : IsLabel label) : ∀ c ∈ label, c ≠ ':' := by
  obtain ⟨x, hx, h⟩ := h
  have hname : ∀ c ∈ x.toList, c ≠ ':' := by
    rintro _ hc rfl
    cases (hx.not_isMark ':' hc).symm.trans (by decide : isMark ':' = true)
  rcases h with rfl | rfl
  · exact hname
  · have hmut : ∀ c ∈ "mut ".toList, c ≠ ':' := by simp
    exact fun c hc => (List.mem_append.1 hc).elim (hmut c) (hname c)

theorem IsSourceName.exists_cons {x : String} (h : IsSourceName x) :
    ∃ c cs, x.toList = c :: cs ∧ isMark c = false := by
  obtain ⟨c, cs, hcs⟩ := List.exists_cons_of_ne_nil h.toList_ne_nil
  exact ⟨c, cs, hcs, h.not_isMark c (hcs ▸ List.mem_cons_self)⟩

theorem IsLabel.not_breaks {label : List Char} (h : IsLabel label) (y : List Char) :
    ¬Breaks (label ++ y) := by
  intro hb
  obtain ⟨x, hx, rfl | rfl⟩ := h
  · obtain ⟨c, cs, hcs, hc⟩ := hx.exists_cons
    cases hc.symm.trans (hb c (by simp [hcs]))
  · cases hb 'm' rfl

/-- A parameter is written as its type, behind its pattern if that is not missing. -/
theorem paramChars_of_isPattern {p : Param} (h : IsPattern p.pattern) :
    p.pattern = .text "" ∧ paramChars p = p.type.chars ∨
      ∃ label, IsLabel label ∧ p.pattern = .text (.ofList label) ∧
        paramChars p = label ++ ':' :: ' ' :: p.type.chars := by
  obtain ⟨pattern, t⟩ := p
  have hlabel : ∀ {x : String}, x ≠ "" →
      paramChars (.mk (.text x) t) = x.toList ++ ':' :: ' ' :: t.chars := by
    intro x hx
    change (if (Value.text x).isTrue then x ++ ": " ++ t.text else t.text).toList = _
    simp [Value.isTrue, hx, chars]
  cases h with
  | missing => exact Or.inl ⟨rfl, rfl⟩
  | @name x hx =>
    exact Or.inr ⟨x.toList, ⟨x, hx, Or.inl rfl⟩, by rw [String.ofList_toList]; rfl,
      hlabel hx.ne_empty⟩
  | @mutable x hx =>
    refine Or.inr ⟨"mut ".toList ++ x.toList, ⟨x, hx, Or.inr rfl⟩, ?_, ?_⟩
    · rw [← String.toList_append, String.ofList_toList]
      rfl
    · rw [← String.toList_append]
      exact hlabel (by simp)

theorem separates_segments : Separates [':', ':'] valueChars IsSegment Breaks EndsPath where
  sep_follows y := by simp [Breaks, isMark]
  closes_follows y h := h.breaks
  sep_not_closes y h := (h ':' rfl).2 rfl
  item_not_closes := by
    rintro _ y ⟨x, rfl, hx⟩ - h
    exact IsLabel.not_breaks ⟨x, hx, Or.inl rfl⟩ y h.breaks

/-- What a type begins with tells its kind. -/
theorem lead?_chars {t : TypeExpr} (ht : t.IsProper) {y : List Char} (hy : Stops y) :
    lead? (t.chars ++ y) = some t.lead := by
  cases ht with
  | @path segments generics hne hs hg =>
    obtain ⟨s, ss, rfl⟩ := List.exists_cons_of_ne_nil hne
    obtain ⟨x, rfl, hx⟩ := hs s List.mem_cons_self
    have hends := hy.endsPath_genericChars generics
    have hnot : ¬[':', ' '] <+: continued [':', ':'] valueChars ss (genericChars generics ++ y) := by
      rintro ⟨z, hz⟩
      cases ss with
      | nil =>
        rw [continued] at hz
        exact (hends ':' (hz ▸ rfl)).2 rfl
      | cons s' ss => simp [continued] at hz
    rw [chars_path, List.append_assoc, intercalate_cons_append]
    exact (lead?_name_append hx (separates_segments.follows_continued ss hends)).trans (if_neg hnot)
  | pointer h => rw [chars_pointer]; exact lead?_of_isMark rfl _
  | array h hn => rw [chars_array]; exact lead?_of_isMark rfl _
  | @function params output lifetimes hp ht ho hl =>
    rw [chars_function, binderChars]
    split <;> simp [lead?, isMark, lead]
  | tuple h => rw [chars_tuple]; exact lead?_of_isMark rfl _
  | never => rw [chars_never]; exact lead?_of_isMark rfl _
  | reference h hl => rw [chars_reference]; exact lead?_of_isMark rfl _
  | slice h => rw [chars_slice]; exact lead?_of_isMark rfl _

end FfiHeaders.TypeExpr
