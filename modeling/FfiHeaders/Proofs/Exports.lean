import FfiHeaders.Writer

/-!
# Exported declarations

Which declarations a library exports, and where in the module tree they stand.
-/
namespace FfiHeaders

theorem Attribute.isReprC_iff {a : Attribute} :
    a.isReprC ↔ a = .list (.text "repr") [.word (.text "C")] := by
  unfold isReprC
  split
  · next n item => simp
  · next ha =>
    constructor
    · exact nofun
    · rintro rfl
      exact absurd rfl (ha _ _)

theorem Attribute.isNoMangle_iff {a : Attribute} :
    a.isNoMangle ↔ a = .word (.text "no_mangle") := by
  unfold isNoMangle
  split
  · next n => simp
  · next ha =>
    constructor
    · exact nofun
    · rintro rfl
      exact absurd rfl (ha _)

theorem Attribute.hasCLayout_iff {as : List Attribute} :
    hasCLayout as ↔ .list (.text "repr") [.word (.text "C")] ∈ as := by
  simp only [hasCLayout, List.any_eq_true, isReprC_iff, exists_eq_right]

theorem Attribute.hasStableLinkage_iff {as : List Attribute} :
    hasStableLinkage as ↔ .word (.text "no_mangle") ∈ as := by
  simp only [hasStableLinkage, List.any_eq_true, isNoMangle_iff, exists_eq_right]

namespace Declaration

/-- An alias is exported unless it is generic, an enum or struct if its layout is that of C, and a
function if its name is kept and C can call it. -/
def IsExported (d : Declaration) : Prop :=
  match d.body with
  | .typeAlias _ => d.generics = []
  | .enum _ | .struct _ _ => .list (.text "repr") [.word (.text "C")] ∈ d.attrs
  | .function abi _ _ =>
    .word (.text "no_mangle") ∈ d.attrs ∧
      ∃ a ∈ ["C", "cdecl", "stdcall", "fastcall", "system"], abi = .text a

theorem skip?_eq_none_iff {d : Declaration} : d.skip? = .ok none ↔ d.IsExported := by
  unfold skip? IsExported
  cases hb : d.body with
  | typeAlias t =>
    cases hg : d.generics with
    | nil => exact iff_of_true rfl rfl
    | cons g gs => exact iff_of_false nofun nofun
  | enum | struct =>
    simp only [← Attribute.hasCLayout_iff]
    split <;> simp_all
  | function abi params output =>
    simp only [← Attribute.hasStableLinkage_iff]
    by_cases hl : Attribute.hasStableLinkage d.attrs
    · rw [if_pos hl]
      cases abi with
      | text a =>
        change (Except.ok (if callableAbis.contains a then none else some (.abi (.text a))) :
          Except Failure (Option Skip)) = .ok none ↔ _
        by_cases ha : a ∈ callableAbis
        · rw [if_pos (List.contains_iff_mem.2 ha)]
          exact iff_of_true rfl ⟨hl, a, ha, rfl⟩
        · rw [if_neg fun hc => ha (List.contains_iff_mem.1 hc)]
          refine iff_of_false nofun ?_
          rintro ⟨-, b, hb, ⟨⟩⟩
          exact ha hb
      | _ => simp [Symbol.ofValue?]
    · rw [if_neg hl]
      simp [hl]

/-- Whether a calling convention, if there is one, is a text. -/
def hasTextAbi (d : Declaration) : Bool :=
  match d.body with
  | .function abi _ _ => abi.isText
  | _ => true

theorem exists_skip {d : Declaration} (hd : d.hasTextAbi) : ∃ reason, d.skip? = .ok reason := by
  unfold skip?
  rw [hasTextAbi] at hd
  cases hb : d.body with
  | typeAlias t | enum variants | struct kind fields => exact ⟨_, rfl⟩
  | function abi params output =>
    simp only [hb] at hd ⊢
    split
    · cases abi with
      | text a => exact ⟨_, rfl⟩
      | _ => cases hd
    · exact ⟨_, rfl⟩

instance (d : Declaration) : Decidable d.IsExported :=
  match h : d.skip? with
  | .ok none => isTrue (skip?_eq_none_iff.1 h)
  | .ok (some _) => isFalse fun hd => by simp [skip?_eq_none_iff.2 hd] at h
  | .error _ => isFalse fun hd => by simp [skip?_eq_none_iff.2 hd] at h

end Declaration

mutual

/-- The declarations of an item with the modules around them, depth first. -/
def Item.declarations (path : List Value) : Item → List (List Value × Declaration)
  | .declaration d => [(path, d)]
  | .module name items => declarationsOf (path ++ [name]) items

def declarationsOf (path : List Value) : List Item → List (List Value × Declaration)
  | [] => []
  | i :: is => i.declarations path ++ declarationsOf path is

end

/-- The public declarations of a module tree that the library exports, in source order. -/
def Module.exports (m : Module) : List (List Value × Declaration) :=
  (declarationsOf [m.name] m.items).filter fun e => e.2.isPublic && decide e.2.IsExported

/-- The step that a walk takes at a declaration. -/
def Visit.of (e : List Value × Declaration) : Visit :=
  if e.2.isPublic then .declaration e.1 e.2 else .hidden e.1 e.2.name

mutual

theorem Item.visits_eq_map (path : List Value) :
    ∀ i : Item, i.visits path = (i.declarations path).map Visit.of
  | .declaration d => by
    rw [Item.visits, Item.declarations, List.map_singleton, Visit.of]
    split <;> rfl
  | .module name items => by
    rw [Item.visits, Item.declarations]
    exact visitsOf_eq_map _ items

theorem visitsOf_eq_map (path : List Value) :
    ∀ items : List Item, visitsOf path items = (declarationsOf path items).map Visit.of
  | [] => rfl
  | i :: is => by
    rw [visitsOf, declarationsOf, List.map_append, Item.visits_eq_map path i,
      visitsOf_eq_map path is]

end

end FfiHeaders
