import FfiHeaders.Proofs.DeclaredNames
import FfiHeaders.Proofs.Numerals
import FfiHeaders.Proofs.PrototypeReading

/-!
# Reading structs and enums

The body of an emitted struct is read as its fields, and the body of an emitted enum as its constants,
whatever comments stand between them. The constants have the values that the source gives them exactly
if C reads the numerals of the source as they are meant, for these are copied.
-/
namespace FfiHeaders

open Reading (Declared IsName IsBase IsBlock isLine_append tokens)

/-! ### Characters of declarators -/

namespace Reading

/-- A character of a name, a sign of a declarator or a blank. -/
def isDeclaratorChar (c : Char) : Bool := isNameChar c || " *(),".toList.contains c

/-- The text consists of what declarators are written with. -/
def IsPlain (s : String) : Prop := s.toList.all isDeclaratorChar

instance (s : String) : Decidable (IsPlain s) := inferInstanceAs (Decidable (_ = true))

theorem isPlain_append {s t : String} : IsPlain (s ++ t) ↔ IsPlain s ∧ IsPlain t := by
  rw [IsPlain, String.toList_append, List.all_append, Bool.and_eq_true, IsPlain, IsPlain]

theorem isPlain_of_isIdentifier {x : String} (h : isIdentifier x.toList) : IsPlain x :=
  List.all_eq_true.2 fun c hc => Bool.or_eq_true_iff.2 (.inl (all_isNameChar_of_isIdentifier h c hc))

theorem isPlain_intercalate {sep : String} (hsep : IsPlain sep) {ss : List String}
    (h : ∀ s ∈ ss, IsPlain s) : IsPlain (String.intercalate sep ss) := by
  induction ss with
  | nil => rfl
  | cons s ss ih =>
    obtain ⟨hs, hss⟩ := List.forall_mem_cons.1 h
    cases ss with
    | nil => rwa [String.intercalate_singleton]
    | cons t ts =>
      rw [String.intercalate_cons_cons, isPlain_append, isPlain_append]
      exact ⟨⟨hs, hsep⟩, ih hss⟩

theorem IsPlain.isLine {s : String} (h : IsPlain s) : IsLine s := by
  constructor <;> intro hc <;> exact absurd (List.all_eq_true.1 h _ hc) (by decide)

/-- The word of a token that stands in a base type. -/
def Token.word? : Token → Option String
  | typeWord w | name w => some w
  | _ => none

theorem isPlain_of_wordToken {word w : String} (h : (wordToken word).word? = some w) : IsPlain w := by
  have htype : typeWords.all (·.toList.all isDeclaratorChar) := by decide
  unfold wordToken at h
  split at h
  · cases h
  · split at h
    · next hw =>
      cases h
      exact List.all_eq_true.1 htype _ hw
    · split at h
      · next hname =>
        cases h
        exact isPlain_of_isIdentifier hname.1
      · cases h

theorem isPlain_of_mem_tokensAfter {word cs : List Char} {t : Token} {w : String}
    (ht : t ∈ tokensAfter word cs) (hw : t.word? = some w) : IsPlain w := by
  have hword : ∀ {word : List Char}, t ∈ wordTokens word → IsPlain w := by
    intro word h
    unfold wordTokens at h
    split at h
    · cases h
    · obtain rfl := List.mem_singleton.1 h
      exact isPlain_of_wordToken hw
  have hmark : ∀ {c : Char}, t ∉ mark c := by
    intro c h
    unfold mark at h
    split at h
    · cases h
    · split at h <;> obtain rfl := List.mem_singleton.1 h <;> cases hw
  induction cs generalizing word with
  | nil => exact hword ht
  | cons c cs ih =>
    rw [tokensAfter] at ht
    split at ht
    · exact ih ht
    · rcases List.mem_append.1 ht with ht | ht
      · rcases List.mem_append.1 ht with ht | ht
        · exact hword ht
        · exact absurd ht hmark
      · exact ih ht

theorem isPlain_of_specifiers {isConst : Bool} {words : List String} {ts : List Token}
    {r : (Bool × String) × List Token} (hwords : ∀ x ∈ words, IsPlain x)
    (hts : ∀ t ∈ ts, ∀ x, t.word? = some x → IsPlain x)
    (h : specifiers isConst words ts = some r) : IsPlain r.1.2 := by
  have hstop : ∀ {words : List String}, (∀ x ∈ words, IsPlain x) →
      IsPlain (String.intercalate " " words) := isPlain_intercalate (by decide)
  -- the result joins the words before the tokens with some of the tokens
  induction ts generalizing isConst words with
  | nil =>
    rw [specifiers.eq_def] at h
    dsimp only at h
    split at h <;> cases h
    exact hstop hwords
  | cons t ts ih =>
    obtain ⟨ht, hrest⟩ := List.forall_mem_cons.1 hts
    cases t with
    | const =>
      rw [specifiers] at h
      exact ih hwords hrest h
    | typeWord w =>
      rw [specifiers] at h
      split at h
      · refine ih ?_ hrest h
        exact List.forall_mem_append.2 ⟨hwords, List.forall_mem_singleton.2 (ht w rfl)⟩
      · cases h
    | name x =>
      rw [specifiers] at h
      split at h
      · exact ih (List.forall_mem_singleton.2 (ht x rfl)) hrest h
      · cases h
        exact hstop hwords
    | star | left | right | comma | other =>
      rw [specifiers.eq_def] at h
      dsimp only at h
      split at h <;> cases h
      exact hstop hwords

theorem isPlain_of_isBase {words : String} (h : IsBase words) : IsPlain words :=
  isPlain_of_specifiers (List.forall_mem_nil _)
    (fun _ ht _ hx => isPlain_of_mem_tokensAfter ht hx) (h false)

end Reading

open Reading (IsPlain isPlain_append)

theorem CType.IsData.isPlain_text {t : CType} (h : t.IsData) : IsPlain t.text := by
  induction h with
  | void => decide
  | native h => exact Reading.isPlain_of_isBase h
  | user h => exact Reading.isPlain_of_isIdentifier h.1
  | @pointer kind t _ ih =>
    cases kind with
    | mutable => exact isPlain_append.2 ⟨ih, by decide⟩
    | const =>
      rw [text]
      split
      · exact isPlain_append.2 ⟨ih, by decide⟩
      · exact isPlain_append.2 ⟨isPlain_append.2 ⟨by decide, ih⟩, by decide⟩

namespace Declarator

mutual

theorem Names.isPlain_text {d : Declarator} {x : String} (h : d.Names x) (hx : IsPlain x) :
    IsPlain d.text := by
  cases h with
  | @data t _ ht =>
    rw [text, CType.declaratorText]
    split
    · exact ht.isPlain_text
    · exact isPlain_append.2 ⟨isPlain_append.2 ⟨ht.isPlain_text, by decide⟩, hx⟩
  | @function args result _ ha hr =>
    have hlist : IsPlain
        (if args.isEmpty then "void" else String.intercalate ", " (CType.argTexts args)) := by
      split
      · decide
      · exact Reading.isPlain_intercalate (by decide) ha.isPlain_argTexts
    have hinside : ((CType.function x args result).isFunction || "".isEmpty) = true := rfl
    rw [text, CType.declaratorText, if_pos hinside, CType.text]
    simp only [isPlain_append]
    exact ⟨⟨⟨⟨⟨hr.isPlain_text, by decide⟩, hx⟩, by decide⟩, hlist⟩, by decide⟩

theorem AreArguments.isPlain_argTexts {ds : List Declarator} (h : AreArguments ds) :
    ∀ s ∈ CType.argTexts ds, IsPlain s := by
  cases h with
  | nil => exact List.forall_mem_nil _
  | @cons d ds x hx hd _ hs =>
    rw [CType.argTexts]
    refine List.forall_mem_cons.2 ⟨hd.isPlain_text ?_, hs.isPlain_argTexts⟩
    rcases hx with rfl | hx
    · decide
    · exact Reading.isPlain_of_isIdentifier hx.1

end

end Declarator

/-! ### Documentation lines -/

/-- The documentation lines are comments: each begins with two slashes and ends with its line. -/
def Attribute.AreComments (attrs : List Attribute) : Prop :=
  ∀ v, nameValue (.text "doc") v ∈ attrs → v.isNull = false →
    "//".toList <+: v.plain.toList ∧ '\n' ∉ v.plain.toList

theorem Attribute.exists_of_docLine? {indent line : String} {a : Attribute}
    (h : a.docLine? indent = some line) :
    ∃ v, a = nameValue (.text "doc") v ∧ v.isNull = false ∧ line = indent ++ v.plain ++ "\n" := by
  unfold docLine? at h
  split at h
  · next n v =>
    split at h
    · next hdoc =>
      obtain ⟨hn, hv⟩ := by simpa using hdoc
      exact ⟨v, by rw [hn], hv, (Option.some.inj h).symm⟩
    · cases h
  · cases h

theorem Attribute.isComment_indented {indent line : String} (hindent : indent.toList.all (· == '\t'))
    (h : "//".toList <+: line.toList) : Reading.isComment (indent ++ line).toList := by
  obtain ⟨tail, htail⟩ := h
  have hdrop : (indent ++ line).toList.dropWhile Char.isWhitespace = line.toList := by
    rw [String.toList_append, ← htail, List.dropWhile_append_of_pos]
    · rfl
    · intro c hc
      rw [eq_of_beq (List.all_eq_true.1 hindent c hc)]
      decide
  rw [Reading.isComment, hdrop, List.isPrefixOf_iff_prefix]
  exact ⟨tail, htail⟩

theorem Attribute.isBlock_docs {indent : String} (hindent : indent.toList.all (· == '\t'))
    {attrs : List Attribute} (h : AreComments attrs) : IsBlock (docs indent attrs) [] := by
  rw [docs, scan_text]
  induction attrs with
  | nil => exact .empty
  | cons a as ih =>
    have has := ih fun v hv => h v (List.mem_cons_of_mem a hv)
    change IsBlock _ ([] ++ [])
    refine .append ?_ has
    cases hline : docLine? indent a with
    | none => exact .empty
    | some line =>
      obtain ⟨v, rfl, hv, rfl⟩ := exists_of_docLine? hline
      obtain ⟨hslashes, hnewline⟩ := h v List.mem_cons_self hv
      refine .comment ?_ (isComment_indented hindent hslashes)
      rw [String.toList_append, List.mem_append]
      rintro (hc | hc)
      · exact absurd (List.all_eq_true.1 hindent _ hc) (by decide)
      · exact hnewline hc

/-- The line of a member stands behind its comments. -/
theorem Attribute.isBlock_member {attrs : List Attribute} {line : String} (h : AreComments attrs)
    (hline : Reading.IsLine line) : IsBlock (docs indent attrs ++ (line ++ "\n")) [line.toList] :=
  (isBlock_docs (by decide) h).append (.line hline)

/-! ### Fields -/

/-- The field declares its name, with the meaning of its type. -/
def Field.Means (f : Field) (m : Declared) : Prop :=
  ∃ x d, f.name = .text x ∧ f.type.declare x = .ok d ∧ m = .mk x (d.type.meaning false)

/-- The names of the field can stand in C, and its documentation lines are comments. -/
structure Field.IsReadable (f : Field) : Prop where
  name : ∃ x, f.name = .text x ∧ IsName x
  type : f.type.IsReadable
  docs : Attribute.AreComments f.attrs

/-- A rendered field is a line that is read as the field, behind its comments. -/
theorem Field.exists_of_render_ok {f : Field} {span : Option Span} {text : String}
    (hf : f.IsReadable) (h : (f.render span).result = .ok text) :
    ∃ l m, IsBlock text [l] ∧ l.head? ≠ some '\x7d' ∧ Reading.field? l = some m ∧ f.Means m := by
  obtain ⟨x, hname, hx⟩ := hf.name
  unfold render at h
  split at h
  · cases h
  · obtain ⟨s, hs, h, -⟩ := Mentioning.exists_of_bind_ok h
    cases h
    rw [hname, TypeExpr.nameFor_text] at hs
    obtain ⟨d, hd, -, rfl, -⟩ := TypeExpr.exists_of_render_ok hs
    have hnames := TypeExpr.names_of_declares (TypeExpr.declares_of_declare hd) hf.type
    have hread := Reading.read_of_isDeclaration (hnames.isDeclaration (Or.inr hx))
    have hplain := hnames.isPlain_text (Reading.isPlain_of_isIdentifier hx.1)
    refine ⟨_, _, ?_, ?_, Reading.field?_line hread, x, d, hname, hd, rfl⟩
    · have htext : Attribute.docs indent f.attrs ++ indent ++ d.text ++ ";\n" =
          Attribute.docs indent f.attrs ++ ("\t" ++ d.text ++ ";" ++ "\n") := by
        simp only [String.append_assoc]
        rfl
      rw [htext]
      exact Attribute.isBlock_member hf.docs
        (isLine_append.2 ⟨isLine_append.2 ⟨by decide, hplain.isLine⟩, by decide⟩)
    · simp [String.toList_append]

theorem Field.exists_of_renderAll_ok {fs : List Field} {span : Option Span} {text : String}
    (hfs : ∀ f ∈ fs, f.IsReadable) (h : (Field.renderAll span fs).result = .ok text) :
    ∃ ls ms, IsBlock text ls ∧ (∀ l ∈ ls, l.head? ≠ some '\x7d') ∧
      List.Forall₂ (fun l m => Reading.field? l = some m) ls ms ∧ List.Forall₂ Field.Means fs ms := by
  induction fs generalizing text with
  | nil =>
    cases h
    exact ⟨[], [], .empty, List.forall_mem_nil _, .nil, .nil⟩
  | cons f fs ih =>
    obtain ⟨hf, hfs⟩ := List.forall_mem_cons.1 hfs
    obtain ⟨line, hline, h, -⟩ := Mentioning.exists_of_bind_ok h
    obtain ⟨rest, hrest, h, -⟩ := Mentioning.exists_of_bind_ok h
    cases h
    obtain ⟨l, m, hblock, hhead, hread, hm⟩ := Field.exists_of_render_ok hf hline
    obtain ⟨ls, ms, hblocks, hheads, hreads, hms⟩ := ih hfs hrest
    exact ⟨l :: ls, m :: ms, hblock.append hblocks, List.forall_mem_cons.2 ⟨hhead, hheads⟩,
      .cons hread hreads, .cons hm hms⟩

/-! ### Constants -/

namespace Variant

/-- The name of the variant can stand in C, and its documentation lines are comments. -/
structure IsReadable (v : Variant) : Prop where
  name : ∃ x, v.name = .text x ∧ IsName x
  docs : Attribute.AreComments v.attrs

/-- The integers that the source assigns to variants, where the first one is `next` if it is not given
another. -/
inductive Assigns : Int → List Variant → List Int → Prop
  | nil (next : Int) : Assigns next [] []
  | implicit {next : Int} {v : Variant} {vs : List Variant} {ns : List Int}
    (hv : v.discriminant = none) (h : Assigns (next + 1) vs ns) : Assigns next (v :: vs) (next :: ns)
  | explicit {next n : Int} {v : Variant} {vs : List Variant} {ns : List Int} {text : String}
    (hv : v.discriminant = some text) (hn : IsDecimal text n) (h : Assigns (n + 1) vs ns) :
    Assigns next (v :: vs) (n :: ns)

theorem isIdentifier_constant {enum : Value} {v : Variant} (henum : isIdentifier enum.plain.toList)
    (hv : v.IsReadable) : isIdentifier (v.constant enum).toList := by
  obtain ⟨x, hname, hx⟩ := hv.name
  have hall := all_isNameChar_of_isIdentifier hx.1
  rw [constant, hname, Value.plain_text, String.toList_append, String.toList_append]
  cases he : enum.plain.toList with
  | nil =>
    rw [he] at henum
    cases henum
  | cons c cs =>
    rw [he] at henum
    obtain ⟨hc, hcs⟩ := Bool.and_eq_true_iff.1 henum
    rw [List.cons_append, List.cons_append, isIdentifier, hc, Bool.true_and, List.all_append,
      List.all_append, hcs, List.all_eq_true.2 hall]
    rfl

/-- What C reads for the variant: its constant, and the value if one stands behind it. -/
def enumerator? (enum : Value) (v : Variant) : Option (String × Option Int) :=
  match v.discriminant with
  | none => some (v.constant enum, none)
  | some text => (Reading.integer? text.toList).map fun n => (v.constant enum, some n)

/-- A rendered variant is a line behind its comments. -/
theorem exists_of_render {enum : Value} {v : Variant} (henum : isIdentifier enum.plain.toList)
    (hv : v.IsReadable) (hvalue : ∀ text ∈ v.discriminant, Reading.IsLine text) :
    ∃ l, IsBlock (v.render enum) [l] ∧ l.head? ≠ some '\x7d' ∧
      Reading.enumerator? l = v.enumerator? enum := by
  have hidentifier := isIdentifier_constant henum hv
  have hconstant := (Reading.isPlain_of_isIdentifier hidentifier).isLine
  cases hd : v.discriminant with
  | none =>
    have hrender : v.render enum =
        Attribute.docs indent v.attrs ++ ("\t" ++ v.constant enum ++ "," ++ "\n") := by
      rw [render, hd, constant]
      simp only [String.append_assoc]
      rfl
    refine ⟨("\t" ++ v.constant enum ++ ",").toList, ?_, ?_, ?_⟩
    · rw [hrender]
      exact Attribute.isBlock_member hv.docs
        (isLine_append.2 ⟨isLine_append.2 ⟨by decide, hconstant⟩, by decide⟩)
    · simp [String.toList_append]
    · rw [Reading.enumerator?_implicit hidentifier, enumerator?, hd]
  | some text =>
    have hrender : v.render enum = Attribute.docs indent v.attrs ++
        ("\t" ++ v.constant enum ++ (" = " ++ text) ++ "," ++ "\n") := by
      rw [render, hd, constant]
      simp only [String.append_assoc]
      rfl
    refine ⟨("\t" ++ v.constant enum ++ (" = " ++ text) ++ ",").toList, ?_, ?_, ?_⟩
    · rw [hrender]
      refine Attribute.isBlock_member hv.docs (isLine_append.2 ⟨isLine_append.2 ⟨?_, ?_⟩, by decide⟩)
      · exact isLine_append.2 ⟨by decide, hconstant⟩
      · exact isLine_append.2 ⟨by decide, hvalue text hd⟩
    · simp [String.toList_append]
    · rw [Reading.enumerator?_explicit hidentifier, enumerator?, hd]

theorem exists_of_renderAll {enum : Value} {vs : List Variant}
    (henum : isIdentifier enum.plain.toList) (hvs : ∀ v ∈ vs, v.IsReadable)
    (hvalues : ∀ v ∈ vs, ∀ text ∈ v.discriminant, Reading.IsLine text) :
    ∃ ls, IsBlock (String.join (vs.map (render enum))) ls ∧ (∀ l ∈ ls, l.head? ≠ some '\x7d') ∧
      ls.mapM Reading.enumerator? = vs.mapM (enumerator? enum) := by
  induction vs with
  | nil => exact ⟨[], .empty, List.forall_mem_nil _, rfl⟩
  | cons v vs ih =>
    obtain ⟨hv, hvs⟩ := List.forall_mem_cons.1 hvs
    obtain ⟨hvalue, hvalues⟩ := List.forall_mem_cons.1 hvalues
    obtain ⟨l, hblock, hhead, hl⟩ := exists_of_render henum hv hvalue
    obtain ⟨ls, hblocks, hheads, hls⟩ := ih hvs hvalues
    refine ⟨l :: ls, ?_, List.forall_mem_cons.2 ⟨hhead, hheads⟩, ?_⟩
    · rw [List.map_cons, String.join_cons]
      exact hblock.append hblocks
    · rw [List.mapM_cons, List.mapM_cons, hl, hls]

theorem name_of_enumerator? {enum : Value} {v : Variant} {e : String × Option Int}
    (h : v.enumerator? enum = some e) : e.1 = v.constant enum := by
  unfold enumerator? at h
  split at h
  · cases h
    rfl
  · obtain ⟨n, -, rfl⟩ := Option.map_eq_some_iff.1 h
    rfl

theorem names_of_mapM {enum : Value} {vs : List Variant} {es : List (String × Option Int)}
    (h : vs.mapM (enumerator? enum) = some es) : es.map Prod.fst = vs.map (constant enum) := by
  rw [Reading.mapM_eq_some] at h
  induction h with
  | nil => rfl
  | cons he _ ih => rw [List.map_cons, List.map_cons, name_of_enumerator? he, ih]

theorem Assigns.isLine {next : Int} {vs : List Variant} {ns : List Int} (h : Assigns next vs ns) :
    ∀ v ∈ vs, ∀ text ∈ v.discriminant, Reading.IsLine text := by
  induction h with
  | nil => exact List.forall_mem_nil _
  | implicit hv _ ih =>
    refine List.forall_mem_cons.2 ⟨fun text ht => ?_, ih⟩
    rw [hv] at ht
    cases ht
  | explicit hv hn _ ih =>
    refine List.forall_mem_cons.2 ⟨fun text ht => ?_, ih⟩
    rw [hv] at ht
    cases ht
    exact hn.isLine

/-- C counts as the source does exactly if it reads the given values as they are meant. -/
theorem Assigns.valued_eq_iff {enum : Value} {next : Int} {vs : List Variant} {ns : List Int}
    (h : Assigns next vs ns) :
    (vs.mapM (enumerator? enum)).map (Reading.valued next) = some ((vs.map (constant enum)).zip ns) ↔
      ∀ v ∈ vs, ∀ text ∈ v.discriminant, IsReadAlike text := by
  -- along the assignment, which knows where the counting stands before each variant
  induction h with
  | nil next => exact iff_of_true rfl (List.forall_mem_nil _)
  | @implicit next v vs ns hv _ ih =>
    have hhere : ∃ value, v.enumerator? enum = some (v.constant enum, value) ∧ value.getD next = next :=
      ⟨none, by rw [enumerator?, hv], rfl⟩
    have hnone : ∀ text ∈ v.discriminant, IsReadAlike text := by
      rw [hv]
      exact nofun
    rw [List.map_cons, List.zip_cons_cons, Reading.mapM_valued_cons, ih, List.forall_mem_cons]
    exact and_congr_left' (iff_of_true hhere hnone)
  | @explicit next n v vs ns text hv hn _ ih =>
    have hhere : (∃ value, v.enumerator? enum = some (v.constant enum, value) ∧ value.getD next = n) ↔
        ∀ t ∈ v.discriminant, IsReadAlike t := by
      simp only [enumerator?, hv, Option.mem_some, forall_eq', ← hn.integer?_eq_iff]
      constructor
      · rintro ⟨value, hvalue, rfl⟩
        obtain ⟨m, hm, hpair⟩ := Option.map_eq_some_iff.1 hvalue
        cases hpair
        exact hm
      · intro hread
        exact ⟨some n, by rw [hread, Option.map_some], rfl⟩
    rw [List.map_cons, List.zip_cons_cons, Reading.mapM_valued_cons, ih, List.forall_mem_cons, hhere]

end Variant

/-! ### Bodies -/

/-- What a type definition has between its braces, whatever comments stand before it. -/
theorem Reading.bodyLines_of_typedef {docs keyword x body : String} {ls : List (List Char)}
    (hdocs : IsBlock docs []) (hkeyword : IsLine keyword) (hx : isIdentifier x.toList)
    (hbody : IsBlock body ls) (hls : ∀ l ∈ ls, l.head? ≠ some '\x7d') :
    bodyLines (docs ++ keyword ++ x ++ " \x7b\n" ++ body ++ "\x7d " ++ x ++ ";\n\n") = ls := by
  have hname := (isPlain_of_isIdentifier hx).isLine
  have hopening : IsLine (keyword ++ x ++ " \x7b") :=
    isLine_append.2 ⟨isLine_append.2 ⟨hkeyword, hname⟩, by decide⟩
  have hclosing : IsLine ("\x7d " ++ x ++ ";") :=
    isLine_append.2 ⟨isLine_append.2 ⟨by decide, hname⟩, by decide⟩
  have htext : docs ++ keyword ++ x ++ " \x7b\n" ++ body ++ "\x7d " ++ x ++ ";\n\n" =
      docs ++ (keyword ++ x ++ " \x7b" ++ "\n") ++
        (body ++ ("\x7d " ++ x ++ ";" ++ "\n" ++ "\n")) := by
    simp only [String.append_assoc]
    rfl
  rw [htext]
  refine bodyLines_eq (hdocs.append (.line hopening)) ?_ hbody hls (IsBlock.line hclosing "\n") ?_
  · simp [String.toList_append]
  · simp [String.toList_append]

namespace State

/-- Between the braces of an emitted struct stand its fields, and between those of an emitted enum its
constants. These have the values that the source assigns exactly if each given one is read as it is
meant. -/
theorem members_of_emit {s : State} {module : List Value} {d : Declaration} {x h : String}
    (hname : d.name = .text x) (hx : IsName x) (hdocs : Attribute.AreComments d.attrs)
    (hemit : (s.emit module d).2 = .ok (.emitted h)) :
    ∃ text, (s.emit module d).1.output h = s.output h ++ text ∧
      (∀ fields, d.body = .struct (.text "named") fields → (∀ f ∈ fields, f.IsReadable) →
        ∃ ms, Reading.fields? text = some ms ∧ List.Forall₂ Field.Means fields ms) ∧
      ∀ variants ns, d.body = .enum variants → (∀ v ∈ variants, v.IsReadable) →
        Variant.Assigns 0 variants ns →
          (∀ es, Reading.enumerators? text = some es →
            es.map Prod.fst = variants.map (Variant.constant d.name)) ∧
          (Reading.enumerators? text = some ((variants.map (Variant.constant d.name)).zip ns) ↔
            ∀ v ∈ variants, ∀ numeral ∈ v.discriminant, IsReadAlike numeral) := by
  have he := emission_emit s module d
  rcases hst : s.emit module d with ⟨t, r⟩
  rw [hst] at he hemit
  obtain rfl : r = .ok (.emitted h) := hemit
  obtain ⟨text, hr, -, -, hout, -⟩ := he.emitted
  have hcomments : IsBlock (Attribute.docs "" d.attrs) [] := Attribute.isBlock_docs (by decide) hdocs
  rw [Declaration.render] at hr
  refine ⟨text, ?_, ?_, ?_⟩
  · rw [hout, append_output, if_pos rfl]
  · intro fields hbody hfields
    simp only [hbody, hname, Value.plain_text] at hr
    obtain ⟨body, hb, hr, -⟩ := Mentioning.exists_of_bind_ok hr
    obtain ⟨lines, hlines, hb, -⟩ := Mentioning.exists_of_bind_ok hb
    cases hb
    cases hr
    obtain ⟨ls, ms, hblock, hheads, hreads, hms⟩ := Field.exists_of_renderAll_ok hfields hlines
    have hkeyword : Reading.IsLine "typedef struct " := by decide
    have hread := Reading.bodyLines_of_typedef hcomments hkeyword hx.1 hblock hheads
    have htext : Attribute.docs "" d.attrs ++ "typedef struct " ++ x ++
        (" \x7b\n" ++ lines ++ "\x7d") ++ " " ++ x ++ ";\n\n" =
          Attribute.docs "" d.attrs ++ "typedef struct " ++ x ++ " \x7b\n" ++ lines ++ "\x7d " ++
            x ++ ";\n\n" := by
      simp only [String.append_assoc]
      rfl
    refine ⟨ms, ?_, hms⟩
    rw [Reading.fields?, htext, hread, Reading.mapM_eq_some]
    exact hreads
  · intro variants ns hbody hvariants hassigns
    simp only [hbody, hname, Value.plain_text] at hr
    cases hr
    have hidentifier : isIdentifier (Value.text x).plain.toList := hx.1
    obtain ⟨ls, hblock, hheads, hreads⟩ :=
      Variant.exists_of_renderAll hidentifier hvariants hassigns.isLine
    have hkeyword : Reading.IsLine "typedef enum " := by decide
    have hread := Reading.bodyLines_of_typedef hcomments hkeyword hx.1 hblock hheads
    rw [Reading.enumerators?, hread, hreads, hname]
    refine ⟨fun es hes => ?_, hassigns.valued_eq_iff⟩
    obtain ⟨read, hmembers, rfl⟩ := Option.map_eq_some_iff.1 hes
    rw [Reading.valued_names, Variant.names_of_mapM hmembers]

end State

/-- A documented struct with a function pointer among its fields. -/
def Declaration.listener : Declaration :=
  ⟨.text "Listener", [.list (.text "repr") [.word (.text "C")], .ofDoc (.text "/// Who listens.")],
    [], true, none, .struct (.text "named")
      [⟨.text "id", .named "u32", [.ofDoc (.text "// uint8_t id;")], none⟩,
        ⟨.text "notify", .function [.mk (.text "_") (.named "u8")] none [], [], none⟩]⟩

/-- An enum of which the second constant is given a value. -/
def Declaration.phase : Declaration :=
  ⟨.text "Phase", [.list (.text "repr") [.word (.text "C")]], [], true, none, .enum
    [⟨.text "Idle", [], [.ofDoc (.text "/// Nothing to do yet,")], none, none⟩,
      ⟨.text "Low", [], [], some "-3", none⟩, ⟨.text "High", [], [], none, none⟩]⟩

theorem State.members_of_emit_listener_phase :
    (∃ text ms, text = "/// Who listens.\n" ++ "typedef struct Listener \x7b\n" ++
        "\t// uint8_t id;\n" ++ "\tuint32_t id;\n" ++ "\tvoid (*notify)(uint8_t);\n" ++
        "\x7d Listener;\n\n" ∧
      Reading.fields? text = some ms ∧ ms.length = 2) ∧
    ∃ text, text = "typedef enum Phase \x7b\n" ++ "\t/// Nothing to do yet,\n" ++ "\tPhase_Idle,\n" ++
        "\tPhase_Low = -3,\n" ++ "\tPhase_High,\n" ++ "\x7d Phase;\n\n" ∧
      Reading.enumerators? text =
        some [("Phase_Idle", 0), ("Phase_Low", -3), ("Phase_High", -2)] := by
  have hplain : Attribute.AreComments [] := fun v hv => absurd hv (by simp)
  have hdoc {line : String} (h : "//".toList <+: line.toList ∧ '\n' ∉ line.toList) :
      Attribute.AreComments [.ofDoc (.text line)] := by
    intro v hv _
    obtain rfl : v = .text line := by simpa [Attribute.ofDoc] using hv
    exact h
  constructor
  · have hemit : ((initial (.text "lib")).emit [.text "ffi"] .listener).2 =
        .ok (.emitted "lib/lib.h") := rfl
    have hdocs : Attribute.AreComments Declaration.listener.attrs := by
      intro v hv _
      obtain rfl : v = .text "/// Who listens." := by
        simpa [Declaration.listener, Attribute.ofDoc] using hv
      decide
    have hid : Field.IsReadable ⟨.text "id", .named "u32", [.ofDoc (.text "// uint8_t id;")], none⟩ :=
      ⟨⟨"id", rfl, by decide⟩, ⟨"u32", rfl, by decide⟩, hdoc (by decide)⟩
    have hnotify : Field.IsReadable
        ⟨.text "notify", .function [.mk (.text "_") (.named "u8")] none [], [], none⟩ := by
      have hwild := TypeExpr.not_mem_keywords_of_binds (s := "_") (x := "_") (by decide) (by decide)
      have hbyte : (TypeExpr.named "u8").IsReadable := ⟨"u8", rfl, by decide⟩
      have hvoid : (TypeExpr.named "u8").anonymous ≠ .ok .void := fun h => by cases h
      exact ⟨⟨"notify", rfl, by decide⟩, ⟨⟨hwild, hvoid, hbyte, trivial⟩, trivial⟩, hplain⟩
    obtain ⟨text, hout, hfields, -⟩ := members_of_emit rfl (by decide) hdocs hemit
    obtain ⟨ms, hread, hms⟩ := hfields _ rfl (by simpa using ⟨hid, hnotify⟩)
    refine ⟨text, ms, ?_, hread, hms.length_eq.symm⟩
    change _ = "" ++ text at hout
    rw [String.empty_append] at hout
    rw [← hout]
    rfl
  · have hemit : ((initial (.text "lib")).emit [.text "ffi"] .phase).2 =
        .ok (.emitted "lib/lib.h") := rfl
    have hdocs : Attribute.AreComments Declaration.phase.attrs := fun v hv =>
      absurd hv (by simp [Declaration.phase])
    have hidle : Variant.IsReadable
        ⟨.text "Idle", [], [.ofDoc (.text "/// Nothing to do yet,")], none, none⟩ :=
      ⟨⟨"Idle", rfl, by decide⟩, hdoc (by decide)⟩
    have hlow : Variant.IsReadable ⟨.text "Low", [], [], some "-3", none⟩ :=
      ⟨⟨"Low", rfl, by decide⟩, hplain⟩
    have hhigh : Variant.IsReadable ⟨.text "High", [], [], none, none⟩ :=
      ⟨⟨"High", rfl, by decide⟩, hplain⟩
    have hvalue : IsDecimal "-3" (-3) := by
      have htext : "-3" = toString (-3 : Int) := rfl
      rw [htext]
      exact isDecimal_toString (-3)
    obtain ⟨text, hout, -, hconstants⟩ := members_of_emit rfl (by decide) hdocs hemit
    refine ⟨text, ?_, ?_⟩
    · change _ = "" ++ text at hout
      rw [String.empty_append] at hout
      rw [← hout]
      rfl
    · refine (hconstants _ [0, -3, -2] rfl (by simpa using ⟨hidle, hlow, hhigh⟩)
        (.implicit rfl (.explicit rfl hvalue (.implicit rfl (.nil _))))).2.2 ?_
      simpa using (by decide : IsReadAlike "-3")

/-- An enum of which the first constant is given a value with a zero in front. -/
def Declaration.padded : Declaration :=
  ⟨.text "E", [.list (.text "repr") [.word (.text "C")]], [], true, none, .enum
    [⟨.text "A", [], [], some "010", none⟩, ⟨.text "B", [], [], none, none⟩]⟩

/-- The zero makes C count to base eight. -/
theorem State.exists_constant_misread :
    ∃ x variants ns text, Declaration.padded.name = .text x ∧ IsName x ∧
      Attribute.AreComments Declaration.padded.attrs ∧ Declaration.padded.body = .enum variants ∧
      (∀ v ∈ variants, v.IsReadable) ∧ Variant.Assigns 0 variants ns ∧
      ((initial (.text "lib")).emit [.text "ffi"] .padded).2 = .ok (.emitted "lib/lib.h") ∧
      ((initial (.text "lib")).emit [.text "ffi"] .padded).1.output "lib/lib.h" = text ∧
      (variants.map (Variant.constant (.text x))).zip ns = [("E_A", 10), ("E_B", 11)] ∧
      text = "typedef enum E \x7b\n" ++ "\tE_A = 010,\n" ++ "\tE_B,\n" ++ "\x7d E;\n\n" ∧
      Reading.enumerators? text = some [("E_A", 8), ("E_B", 9)] := by
  have hplain : Attribute.AreComments [] := fun v hv => absurd hv (by simp)
  have hdocs : Attribute.AreComments Declaration.padded.attrs := fun v hv =>
    absurd hv (by simp [Declaration.padded])
  have ha : Variant.IsReadable ⟨.text "A", [], [], some "010", none⟩ :=
    ⟨⟨"A", rfl, by decide⟩, hplain⟩
  have hb : Variant.IsReadable ⟨.text "B", [], [], none, none⟩ := ⟨⟨"B", rfl, by decide⟩, hplain⟩
  have hnumeral : IsNumeral ['0', '1', '0'] := ⟨rfl, by simp⟩
  have hten : IsDecimal "010" 10 := .natural hnumeral
  exact ⟨"E", _, [10, 11], _, rfl, by decide, hdocs, rfl, by simpa using ⟨ha, hb⟩,
    .explicit rfl hten (.implicit rfl (.nil _)), rfl, rfl, rfl, rfl, rfl⟩

end FfiHeaders
