import FfiHeaders.Proofs.ModuleHeaders

/-!
# Layout attributes that are written apart

A list attribute `repr` can be written as several ones of a single item each. The check of the layout
looks at each attribute by itself, so a plain `C` that stands apart from the other items passes where
the whole list would not. Nothing else of an enum or struct depends on how the items are written.
-/
namespace FfiHeaders

namespace Attribute

/-- The attribute that makes choices of layout. -/
def ofLayout (items : List Attribute) : Attribute := list (.text "repr") items

/-- The choice of the layout of C. -/
def plainC : Attribute := word (.text "C")

/-- The same choices, each in an attribute of its own. -/
def apart (items : List Attribute) : List Attribute := items.map fun x => ofLayout [x]

/-- The choices of layout that an attribute makes. -/
def layoutItems : Attribute → List Attribute
  | list (.text n) items => if n = "repr" then items else []
  | _ => []

/-- All choices of layout that the attributes make, in order. -/
def allLayoutItems (as : List Attribute) : List Attribute := as.flatMap layoutItems

variable {before items after as bs : List Attribute}

theorem layoutItems_ofLayout (items : List Attribute) : (ofLayout items).layoutItems = items := rfl

/-- Attributes that are written apart make the same choices. -/
theorem allLayoutItems_apart (before items after : List Attribute) :
    allLayoutItems (before ++ apart items ++ after) =
      allLayoutItems (before ++ ofLayout items :: after) := by
  have hitems : allLayoutItems (apart items) = items := by
    rw [allLayoutItems, apart, List.flatMap_map]
    exact List.flatMap_singleton' items
  simp only [allLayoutItems, List.flatMap_append, List.flatMap_cons, layoutItems_ofLayout] at hitems ⊢
  rw [hitems, List.append_assoc]

theorem hasCLayout_iff_ofLayout : hasCLayout as ↔ ofLayout [plainC] ∈ as := hasCLayout_iff

/-- A plain `C` that is written apart is found whatever else the attributes choose. -/
theorem hasCLayout_apart (before items after : List Attribute) :
    hasCLayout (before ++ apart items ++ after) ↔
      hasCLayout (before ++ ofLayout items :: after) ∨ plainC ∈ items := by
  have hitems : ofLayout [plainC] ∈ apart items ↔ plainC ∈ items := by
    simp [apart, ofLayout]
  have hlist : ofLayout [plainC] = ofLayout items → plainC ∈ items := by
    intro h
    injection h with _ h
    exact h ▸ List.mem_singleton_self plainC
  simp only [hasCLayout_iff_ofLayout, List.mem_append, List.mem_cons, hitems]
  tauto

theorem not_hasCLayout_of_allLayoutItems (h : allLayoutItems as = []) : ¬hasCLayout as := by
  intro hc
  have hitems := List.flatMap_eq_nil_iff.1 h _ (hasCLayout_iff_ofLayout.1 hc)
  exact List.cons_ne_nil _ _ hitems

/-- The choices of a single attribute are those of C only if `C` is all that it lists. -/
theorem hasCLayout_iff_of_single (hbefore : allLayoutItems before = [])
    (hafter : allLayoutItems after = []) :
    hasCLayout (before ++ ofLayout items :: after) ↔ items = [plainC] := by
  have hb := mt hasCLayout_iff_ofLayout.2 (not_hasCLayout_of_allLayoutItems hbefore)
  have ha := mt hasCLayout_iff_ofLayout.2 (not_hasCLayout_of_allLayoutItems hafter)
  rw [hasCLayout_iff_ofLayout, List.mem_append, List.mem_cons, or_iff_right hb, or_iff_left ha]
  exact ⟨fun h => (Attribute.list.inj h).2.symm, fun h => by rw [h]⟩

theorem docs_append (indent : String) (as bs : List Attribute) :
    docs indent (as ++ bs) = docs indent as ++ docs indent bs := by
  induction as with
  | nil => exact (String.empty_append).symm
  | cons a as ih =>
    simp only [docs, scan_text, List.cons_append, List.foldr_cons] at ih ⊢
    rw [ih, String.append_assoc]

theorem docs_of_layout (indent : String) (as : List Attribute)
    (h : ∀ a ∈ as, ∃ items, a = ofLayout items) : docs indent as = "" := by
  induction as with
  | nil => rfl
  | cons a as ih =>
    obtain ⟨⟨items, rfl⟩, has⟩ := List.forall_mem_cons.1 h
    exact (docs_append indent [ofLayout items] as).trans ((String.empty_append).trans (ih has))

/-- Attributes of layout document nothing. -/
theorem docs_apart (indent : String) (before items after : List Attribute) :
    docs indent (before ++ apart items ++ after) =
      docs indent (before ++ ofLayout items :: after) := by
  have hlayout : ∀ a ∈ apart items, ∃ xs, a = ofLayout xs := by
    intro a ha
    obtain ⟨x, -, rfl⟩ := List.mem_map.1 ha
    exact ⟨[x], rfl⟩
  have hsingle : docs indent [ofLayout items] = "" := rfl
  rw [← List.singleton_append (x := ofLayout items), docs_append, docs_append, docs_append,
    docs_append, docs_of_layout indent _ hlayout, hsingle, String.append_empty, String.empty_append]

end Attribute

namespace Declaration

variable {d : Declaration} {as bs : List Attribute}

theorem skip?_of_kind (hd : d.body.kind = .enum ∨ d.body.kind = .struct) :
    d.skip? = .ok (if Attribute.hasCLayout d.attrs then none else some .layout) := by
  unfold skip?
  cases hb : d.body with
  | enum | struct => rfl
  | typeAlias | function => simp [hb, Body.kind] at hd

/-- Of its own attributes a declaration in C shows the documentation. -/
theorem render_congr (hdocs : Attribute.docs "" as = Attribute.docs "" bs) :
    { d with attrs := as }.render = { d with attrs := bs }.render := by
  unfold render
  dsimp only
  rw [hdocs]

end Declaration

namespace State

variable {s : State} {d : Declaration} {as bs : List Attribute}

theorem emit_eq_skipped_iff {module : List Value} {r : Skip} :
    (s.emit module d).2 = .ok (.skipped r) ↔ d.skip? = .ok (some r) := by
  constructor
  · intro h
    have he := emission_emit s module d
    rcases hst : s.emit module d with ⟨t, o⟩
    rw [hst] at he h
    obtain rfl : o = .ok (.skipped r) := h
    cases he with
    | skipped _ hs => exact hs
  · intro h
    rw [emit_of_skip h]

/-- Attributes that give the same documentation and the same reason to skip make no difference. -/
theorem emit_congr {module : List Value}
    (hskip : { d with attrs := as }.skip? = { d with attrs := bs }.skip?)
    (hdocs : Attribute.docs "" as = Attribute.docs "" bs) :
    s.emit module { d with attrs := as } = s.emit module { d with attrs := bs } := by
  have hcheck : { d with attrs := as }.check = { d with attrs := bs }.check := rfl
  have hwrite : ∀ h, s.write h { d with attrs := as } = s.write h { d with attrs := bs } := by
    intro h
    rw [write, write, Declaration.render_congr hdocs]
    rfl
  rw [emit, emit, hskip, hcheck]
  simp only [hwrite]

open Attribute

/-- Choices of layout that are written apart are the same choices, and are told from a list of them
only by a plain `C`. Where there is none, or where the layout passes anyway, an enum or struct is
emitted all the same. Otherwise it is skipped with the list and not skipped without. Within one
attribute any other choice disqualifies. -/
theorem emit_apart (s : State) (module : List Value)
    (hd : d.body.kind = .enum ∨ d.body.kind = .struct) (before items after : List Attribute) :
    let joined := before ++ ofLayout items :: after
    let separate := before ++ apart items ++ after
    allLayoutItems separate = allLayoutItems joined ∧
      (hasCLayout separate ↔ hasCLayout joined ∨ plainC ∈ items) ∧
      ((plainC ∈ items → hasCLayout joined) →
        s.emit module { d with attrs := separate } = s.emit module { d with attrs := joined }) ∧
      (plainC ∈ items → ¬hasCLayout joined →
        s.emit module { d with attrs := joined } = (s, .ok (.skipped .layout)) ∧
          ∀ r, (s.emit module { d with attrs := separate }).2 ≠ .ok (.skipped r)) ∧
      (allLayoutItems before = [] → allLayoutItems after = [] → items ≠ [plainC] →
        s.emit module { d with attrs := joined } = (s, .ok (.skipped .layout))) := by
  intro joined separate
  have hlayout : hasCLayout separate ↔ hasCLayout joined ∨ plainC ∈ items :=
    hasCLayout_apart before items after
  have hskip : ∀ as, { d with attrs := as }.skip? =
      .ok (if hasCLayout as then none else some .layout) :=
    fun as => Declaration.skip?_of_kind hd
  have hskipped : ∀ {as}, ¬hasCLayout as →
      s.emit module { d with attrs := as } = (s, .ok (.skipped .layout)) :=
    fun {as} h => emit_of_skip ((hskip as).trans (by rw [if_neg h]))
  refine ⟨allLayoutItems_apart before items after, hlayout, fun h => ?_,
    fun hc hjoined => ⟨hskipped hjoined, fun r hr => ?_⟩, fun hb ha hitems => ?_⟩
  · have hsame : hasCLayout separate = hasCLayout joined :=
      Bool.eq_iff_iff.2 (hlayout.trans (or_iff_left_of_imp h))
    exact emit_congr (by rw [hskip, hskip, hsame]) (docs_apart "" before items after)
  · rw [emit_eq_skipped_iff, hskip, if_pos (hlayout.2 (Or.inr hc))] at hr
    cases hr
  · exact hskipped (mt (hasCLayout_iff_of_single hb ha).1 hitems)

/-- A struct of two fields that would stand side by side if it were packed. -/
def packet : Declaration :=
  ⟨.text "Packet", [], [], true, none, .struct (.text "named")
    [⟨.text "tag", .named "u8", [], none⟩, ⟨.text "size", .named "u32", [], none⟩]⟩

/-- The choice to leave no room between fields. -/
def packed : Attribute := word (.text "packed")

theorem emit_apart_packet :
    let s := initial (.text "lib")
    plainC ∈ [plainC, packed] ∧ ¬hasCLayout [ofLayout [plainC, packed]] ∧
      s.emit [.text "ffi"] { packet with attrs := [ofLayout [plainC, packed]] } =
        (s, .ok (.skipped .layout)) ∧
      s.emit [.text "ffi"] { packet with attrs := [ofLayout [packed], ofLayout [packed]] } =
        s.emit [.text "ffi"] { packet with attrs := [ofLayout [packed, packed]] } := by
  intro s
  have hkind : packet.body.kind = .enum ∨ packet.body.kind = .struct := Or.inr rfl
  obtain ⟨-, -, -, hdiffer, -⟩ := emit_apart s [.text "ffi"] hkind [] [plainC, packed] []
  obtain ⟨-, -, hsame, -, -⟩ := emit_apart s [.text "ffi"] hkind [] [packed, packed] []
  have hmem : plainC ∈ [plainC, packed] := List.mem_cons_self
  have hlayout : ¬hasCLayout [ofLayout [plainC, packed]] := by decide
  have hnone : plainC ∉ [packed, packed] := by simp [plainC, packed]
  exact ⟨hmem, hlayout, (hdiffer hmem hlayout).1, hsame fun h => absurd h hnone⟩

/-- A packed struct is written out as if it were not when the two choices are written apart. -/
theorem exists_packed_emitted :
    let s := initial (.text "lib")
    let joined := [ofLayout [plainC, packed]]
    let separate := apart [plainC, packed]
    hasCLayout joined = false ∧ hasCLayout separate = true ∧
      (s.emit [.text "ffi"] { packet with attrs := joined }).2 = .ok (.skipped .layout) ∧
      (s.emit [.text "ffi"] { packet with attrs := separate }).2 = .ok (.emitted "lib/lib.h") ∧
      (s.emit [.text "ffi"] { packet with attrs := separate }).1.output "lib/lib.h" =
        "typedef struct Packet \x7b\n\tuint8_t tag;\n\tuint32_t size;\n\x7d Packet;\n\n" :=
  ⟨rfl, rfl, rfl, rfl, rfl⟩

end State

end FfiHeaders
