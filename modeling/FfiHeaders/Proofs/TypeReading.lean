import FfiHeaders.Proofs.DeclaratorReading

/-!
# Reading source types

The C text of a source type is read as the C type of that source type, if all names in it can stand
in C.
-/
namespace FfiHeaders

open Reading (Declared IsName IsBase)

namespace CType

theorem isBase_of_native :
    ∀ e ∈ primitiveTypes ++ platformTypes, IsBase e.2 ∧ e.2 ≠ "void" := by
  decide +kernel

theorem isData_of_lookup {n c : String} {types : List (String × String)}
    (hs : types.Sublist (primitiveTypes ++ platformTypes)) (h : types.lookup n = some c) :
    (native c).IsData := by
  obtain ⟨before, after, rfl, -⟩ := List.lookup_eq_some_iff.1 h
  obtain ⟨hb, hv⟩ := isBase_of_native (n, c) (hs.subset (by simp))
  exact .native hb hv

theorem isData_ofPlatform {n : String} (hn : IsName n) : (ofPlatform (.word n)).IsData := by
  unfold ofPlatform
  split
  · exact .void
  · next m hm =>
    cases hm
    split
    · next c hc => exact isData_of_lookup (List.sublist_append_right _ _) hc
    · exact .user hn
  · exact .user hn

theorem isData_ofName {n : String} (hn : IsName n) : (ofName (.word n)).IsData := by
  unfold ofName
  split
  · exact .void
  · next m hm =>
    cases hm
    split
    · next c hc => exact isData_of_lookup (List.sublist_append_left _ _) hc
    · exact isData_ofPlatform hn
  · exact isData_ofPlatform hn

end CType

namespace TypeExpr

mutual

/-- The names in the type can stand in C, and no parameter of a function pointer is void. -/
def IsReadable : TypeExpr → Prop
  | path segments _ => ∃ n, segments.getLast? = some (.text n) ∧ IsName n
  | pointer _ t | array t _ => t.IsReadable
  | function params output _ => AreReadable params ∧ IsOutputReadable output
  | tuple _ | never | reference .. | slice _ => True

def AreReadable : List Param → Prop
  | [] => True
  | .mk pattern t :: ps =>
    (∀ x, Param.Binds pattern x → x ∉ Reading.keywords) ∧ t.anonymous ≠ .ok .void ∧ t.IsReadable ∧
      AreReadable ps

def IsOutputReadable : Option TypeExpr → Prop
  | none => True
  | some t => t.IsReadable

end

theorem isData_of_denotes {t : TypeExpr} {c : CType} (h : Denotes t c) (ht : t.IsReadable) :
    c.IsData := by
  induction h with
  | path h =>
    rw [IsReadable] at ht
    obtain ⟨n, hl, hn⟩ := ht
    cases h with
    | name hs =>
      cases hl
      cases hs
      exact CType.isData_ofName hn
    | platform _ _ hs =>
      rw [List.getLast?_concat] at hl
      cases hl
      cases hs
      exact CType.isData_ofPlatform hn
  | pointer isMutable _ ih | array _ _ ih =>
    rw [IsReadable] at ht
    exact .pointer _ (ih ht)
  | unit => exact .void

theorem isData_of_outputDenotes {output : Option TypeExpr} {c : CType}
    (h : OutputDenotes output c) (ho : IsOutputReadable output) : c.IsData := by
  cases h with
  | none => exact .void
  | some h =>
    rw [IsOutputReadable] at ho
    exact isData_of_denotes h ho

theorem type_ne_void_of_declares {t : TypeExpr} {x : String} {d : Declarator}
    (h : Declares t x d) (hv : t.anonymous ≠ .ok .void) : d.type ≠ .void := by
  intro hd
  cases h with
  | data x h =>
    obtain rfl := hd
    exact hv (anonymous_of_denotes h)
  | function => cases hd

mutual

theorem names_of_declares {t : TypeExpr} {x : String} {d : Declarator} (h : Declares t x d)
    (ht : t.IsReadable) : d.Names x := by
  cases h with
  | data x h => exact .data x (isData_of_denotes h ht)
  | function x hp ho =>
    rw [IsReadable] at ht
    exact .function x (areArguments_of_declaresArgs hp ht.1) (isData_of_outputDenotes ho ht.2)

theorem areArguments_of_declaresArgs {params : List Param} {args : List Declarator}
    (h : DeclaresArgs params args) (hp : AreReadable params) : Declarator.AreArguments args := by
  cases h with
  | nil => exact .nil
  | @cons pattern t params x d args hx ht hs =>
    rw [AreReadable] at hp
    obtain ⟨hk, hv, hr, hp⟩ := hp
    refine .cons ?_ (names_of_declares ht hr) (type_ne_void_of_declares ht hv)
      (areArguments_of_declaresArgs hs hp)
    rcases hx.eq_empty_or_binds with rfl | hb
    · exact Or.inl rfl
    · exact Or.inr ⟨hb.isIdentifier, hk x hb⟩

end

/-- The C text of a type is read as the type's own name and meaning, from which the C type comes back
but for what kind of type its leaves are. So a text leaves open nothing else about its type. -/
theorem read_of_declare {t : TypeExpr} {name : String} {d : Declarator} (ht : t.IsReadable)
    (hn : IsName name) (h : t.declare name = .ok d) :
    (∃ s, d.text? = some s ∧ Reading.read s = some (.mk name (d.type.meaning false))) ∧
      (Declared.mk name (d.type.meaning false)).cDeclarator = d.plainLeaves ∧
      ∀ u e, IsReadable u → u.declare name = .ok e → e.text? = d.text? →
        e.plainLeaves = d.plainLeaves := by
  have hread : ∀ {u : TypeExpr} {e : Declarator}, IsReadable u → u.declare name = .ok e →
      e.text? = some e.text ∧ Reading.read e.text = some (.mk name (e.type.meaning false)) ∧
        (Declared.mk name (e.type.meaning false)).cDeclarator = e.plainLeaves := by
    intro u e hu he
    have hnames := names_of_declares (declares_of_declare he) hu
    exact ⟨hnames.text?_eq, Reading.read_of_isDeclaration (hnames.isDeclaration (Or.inr hn)),
      hnames.cDeclarator⟩
  obtain ⟨htext, hmeaning, hplain⟩ := hread ht h
  refine ⟨⟨d.text, htext, hmeaning⟩, hplain, fun u e hu he heq => ?_⟩
  obtain ⟨htext', hmeaning', hplain'⟩ := hread hu he
  rw [htext, htext'] at heq
  rw [Option.some.inj heq, hmeaning] at hmeaning'
  rw [← hplain, ← hplain', Option.some.inj hmeaning']

/-- A function pointer with a function pointer among its parameters. -/
def visitor : TypeExpr :=
  function
    [.mk (.text "cb") (function [.mk (.text "_") (pointer false (pointer true (named "Node")))]
      (some (pointer false (named "u8"))) []),
     .mk (.text "mut len") (array (named "c_uint") (.text "4"))]
    (some (pointer false (pointer false (named "Node")))) []

theorem not_mem_keywords_of_binds {s x : String}
    (hs : boundName? (Text.trim s.toList) = some x.toList) (hx : x ∉ Reading.keywords) :
    ∀ y, Param.Binds (.text s) y → y ∉ Reading.keywords := by
  intro y hy
  rwa [hy.unique ⟨s, rfl, hs⟩]

theorem isReadable_visitor : visitor.IsReadable := by
  have hnode : (named "Node").IsReadable := ⟨"Node", rfl, by decide⟩
  have hbyte : (named "u8").IsReadable := ⟨"u8", rfl, by decide⟩
  have hint : (named "c_uint").IsReadable := ⟨"c_uint", rfl, by decide⟩
  have hcb := not_mem_keywords_of_binds (s := "cb") (x := "cb") (by decide) (by decide)
  have hwild := not_mem_keywords_of_binds (s := "_") (x := "_") (by decide) (by decide)
  have hlen := not_mem_keywords_of_binds (s := "mut len") (x := "len") (by decide) (by decide)
  simp only [visitor, IsReadable, AreReadable, IsOutputReadable]
  refine ⟨⟨hcb, refuse_ne_ok _ _ _, ⟨⟨hwild, ?_, hnode, trivial⟩, hbyte⟩, hlen, ?_, hint, trivial⟩,
    hnode⟩
  · exact nofun
  · exact nofun

theorem read_of_declare_visitor :
    ∃ d s, visitor.declare "visit" = .ok d ∧ d.text? = some s ∧
      s = "const Node* const* (*visit)(const uint8_t* (*cb)(Node* const*), const unsigned int* len)" ∧
      Reading.read s = some (.mk "visit" (.pointer false (.function
        [.mk "cb" (.pointer false (.function
          [.mk "" (.pointer false (.pointer true (.base false "Node")))]
          (.pointer false (.base true "uint8_t")))),
         .mk "len" (.pointer false (.base true "unsigned int"))]
        (.pointer false (.pointer true (.base true "Node")))))) := by
  have hd : visitor.declare "visit" = .ok (.mk "" (.function "visit"
      [.mk "" (.function "cb" [.mk "" (.pointer .const (.pointer .mutable (.user (.word "Node"))))]
        (.pointer .const (.native "uint8_t"))),
       .mk "len" (.pointer .const (.native "unsigned int"))]
      (.pointer .const (.pointer .const (.user (.word "Node")))))) := rfl
  obtain ⟨⟨s, hs, hread⟩, -, -⟩ := read_of_declare isReadable_visitor (by decide) hd
  refine ⟨_, s, hd, hs, ?_, ?_⟩
  · exact (Declarator.text?_eq_some_iff.1 hs).2.trans (by decide)
  · rw [hread]
    simp [Declarator.type, CType.meaning, CType.argMeanings, CType.declaredName, Symbol.plain,
      Symbol.toValue]

end TypeExpr

end FfiHeaders
