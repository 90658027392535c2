import FfiHeaders.Proofs.Translation

/-!
# Names in patterns

A pattern binds an identifier by value if it is that identifier, perhaps behind `mut`. The arguments of a
function pointer may go without a name, so there a blank pattern and the wildcard do as well.
-/
namespace FfiHeaders

theorem not_isBlank_of_isNameChar {c : Char} (h : isNameChar c) : Text.isBlank c = false := by
  have hbounds : 48 ≤ c.toNat ∧ c.toNat ≤ 122 := by
    rcases isNameChar_iff.1 h with ⟨hfirst, hlast⟩ | ⟨hfirst, hlast⟩ | ⟨hfirst, hlast⟩ | rfl
    · have : 65 ≤ c.toNat := hfirst
      have : c.toNat ≤ 90 := hlast
      omega
    · have : 97 ≤ c.toNat := hfirst
      have : c.toNat ≤ 122 := hlast
      omega
    · have : 48 ≤ c.toNat := hfirst
      have : c.toNat ≤ 57 := hlast
      omega
    · decide
  simp [Text.isBlank]
  omega

namespace Param

variable {pattern : Value} {x : String}

/-- The pattern is the identifier `x`, perhaps after `mut` and blanks. -/
def Spells (pattern : Value) (x : String) : Prop :=
  ∃ s, pattern = .text s ∧ isIdentifier x.toList ∧
    (Text.trim s.toList = x.toList ∨ ∃ blanks, blanks ≠ [] ∧ (∀ c ∈ blanks, Text.isBlank c) ∧
      Text.trim s.toList = ['m', 'u', 't'] ++ blanks ++ x.toList)

/-- The pattern is an identifier, perhaps after `mut` and blanks. -/
def IsPlain (pattern : Value) : Prop := ∃ x, Spells pattern x

/-- The pattern is blank or the wildcard. -/
def IsUnnamed (pattern : Value) : Prop :=
  ∃ s, pattern = .text s ∧ (Text.trim s.toList = [] ∨ Text.trim s.toList = ['_'])

/-- The pattern gives an argument of a function pointer the name `x`, or the empty one. -/
def SpellsArgument (pattern : Value) (x : String) : Prop :=
  IsUnnamed pattern ∧ x = "" ∨ ¬IsUnnamed pattern ∧ Spells pattern x

theorem boundName?_mut {blanks name : List Char} (hne : blanks ≠ [])
    (hb : ∀ c ∈ blanks, Text.isBlank c) (hn : isIdentifier name) :
    boundName? (['m', 'u', 't'] ++ blanks ++ name) = some name := by
  obtain ⟨b, bs, rfl⟩ := List.exists_cons_of_ne_nil hne
  obtain ⟨hblank, hblanks⟩ := List.forall_mem_cons.1 hb
  have hnot : isIdentifier (['m', 'u', 't'] ++ b :: bs ++ name) = false := by
    have hchar : isNameChar b = false := by
      by_contra h
      rw [not_isBlank_of_isNameChar (by simpa using h)] at hblank
      cases hblank
    simp [isIdentifier, hchar]
  have htrim : Text.trimStart (bs ++ name) = name := by
    cases name with
    | nil => simp [isIdentifier] at hn
    | cons c cs =>
      have hc : isNameChar c := all_isNameChar_of_isIdentifier hn c List.mem_cons_self
      rw [Text.trimStart, List.dropWhile_append_of_pos hblanks]
      exact Text.trimStart_of_not_blank (not_isBlank_of_isNameChar hc)
  unfold boundName?
  rw [if_neg (by rw [hnot]; exact Bool.false_ne_true)]
  simp only [List.cons_append, List.nil_append, hblank, htrim, hn, if_true]

theorem boundName?_eq_some_iff {cs name : List Char} :
    boundName? cs = some name ↔ isIdentifier name ∧
      (cs = name ∨ ∃ blanks, blanks ≠ [] ∧ (∀ c ∈ blanks, Text.isBlank c) ∧
        cs = ['m', 'u', 't'] ++ blanks ++ name) := by
  constructor
  · intro hb
    refine ⟨isIdentifier_of_boundName? hb, ?_⟩
    unfold boundName? at hb
    split at hb
    · exact Or.inl (Option.some.inj hb)
    · split at hb
      · next b r _ =>
        split at hb
        · next hblank =>
          obtain ⟨-, hname⟩ := Option.ite_none_right_eq_some.1 hb
          refine Or.inr ⟨b :: r.takeWhile Text.isBlank, List.cons_ne_nil _ _, ?_, ?_⟩
          · exact List.forall_mem_cons.2 ⟨hblank, List.all_eq_true.1 List.all_takeWhile⟩
          · have hr : r = r.takeWhile Text.isBlank ++ name := by
              rw [← Option.some.inj hname, Text.trimStart, List.takeWhile_append_dropWhile]
            exact congrArg (fun r => 'm' :: 'u' :: 't' :: b :: r) hr
        · cases hb
      · cases hb
  · rintro ⟨hn, rfl | ⟨blanks, hne, hb, rfl⟩⟩
    · exact boundName?_of_isIdentifier hn
    · exact boundName?_mut hne hb hn

theorem binds_iff : Binds pattern x ↔ Spells pattern x := by
  simp only [Binds, Spells, boundName?_eq_some_iff]

theorem exists_binds_iff : (∃ x, Binds pattern x) ↔ IsPlain pattern := by
  simp only [binds_iff, IsPlain]

theorem isUnnamed_text {s : String} :
    IsUnnamed (.text s) ↔ Text.trim s.toList = [] ∨ Text.trim s.toList = ['_'] :=
  ⟨by rintro ⟨_, ⟨⟩, h⟩; exact h, fun h => ⟨s, rfl, h⟩⟩

theorem pointerBinds_iff : PointerBinds pattern x ↔ SpellsArgument pattern x := by
  constructor
  · rintro ⟨s, rfl, h⟩
    rw [SpellsArgument, isUnnamed_text]
    split at h
    · next hs => exact Or.inl ⟨hs, h⟩
    · next hs => exact Or.inr ⟨hs, binds_iff.1 ⟨s, rfl, h⟩⟩
  · rintro (⟨⟨s, rfl, hs⟩, rfl⟩ | ⟨hu, h⟩)
    · exact ⟨s, rfl, by rw [if_pos hs]⟩
    · obtain ⟨s, rfl, hb⟩ := binds_iff.2 h
      exact ⟨s, rfl, by rwa [if_neg fun hs => hu (isUnnamed_text.2 hs)]⟩

theorem exists_pointerBinds_iff :
    (∃ x, PointerBinds pattern x) ↔ IsUnnamed pattern ∨ IsPlain pattern := by
  simp only [pointerBinds_iff, SpellsArgument, IsPlain]
  constructor
  · rintro ⟨x, ⟨hu, -⟩ | ⟨-, hx⟩⟩
    · exact Or.inl hu
    · exact Or.inr ⟨x, hx⟩
  · intro h
    by_cases hu : IsUnnamed pattern
    · exact ⟨"", Or.inl ⟨hu, rfl⟩⟩
    · obtain ⟨x, hx⟩ := h.resolve_left hu
      exact ⟨x, Or.inr ⟨hu, hx⟩⟩

end Param

end FfiHeaders
