import FfiHeaders.Proofs.PatternNames
import FfiHeaders.Proofs.RegexSearch

/-!
# Names recovered from patterns

`byValue` is the form of a pattern that binds by value. A search for it can take `mut` for a keyword or
for the name, can end a name anywhere and can stop before a last newline. Yet trimming leaves no blank at
the ends (`trim_eq_iff`), and in such a text only one way goes through. So the name that is found first is
the one that `boundName?` gives.
-/
namespace FfiHeaders

namespace Param

open Text Text.Regex

variable {s rest : List Char} {captured : Option (List Char)}

/-- A letter or an underscore, then letters, digits and underscores. -/
def identifier : Regex :=
  oneThenMany (among [('A', 'Z'), ('a', 'z'), ('_', '_')])
    (among [('A', 'Z'), ('a', 'z'), ('0', '9'), ('_', '_')])

/-- `mut` and blanks, or nothing. -/
def mutability : Regex := .optional (.next (.literal ['m', 'u', 't']) (oneThenMany isBlank isBlank))

/-- An identifier that ends where the pattern ends. -/
def wholeName : Regex := .next (.capture identifier) .finish

def byValue : Regex := .next mutability wholeName

theorem matches_identifier : identifier.Matches s rest captured ↔ isIdentifier s ∧ captured = none := by
  have hline : ∀ c : Char, '_' ≤ c ∧ c ≤ '_' ↔ c = '_' :=
    fun c => ⟨fun h => Char.le_antisymm h.2 h.1, by rintro rfl; simp⟩
  have hstart : ∀ c, among [('A', 'Z'), ('a', 'z'), ('_', '_')] c ↔ isNameStart c := by
    intro c
    simp [among, isNameStart_iff, hline]
  have hchar : ∀ c, among [('A', 'Z'), ('a', 'z'), ('0', '9'), ('_', '_')] c ↔ isNameChar c := by
    intro c
    simp [among, isNameChar_iff, hline]
  simp only [identifier, matches_oneThenMany, hstart, hchar]
  refine and_congr_left fun _ => ?_
  constructor
  · rintro ⟨c, cs, rfl, hc, hcs⟩
    exact Bool.and_eq_true_iff.2 ⟨hc, List.all_eq_true.2 hcs⟩
  · intro hs
    cases s with
    | nil => cases hs
    | cons c cs =>
      obtain ⟨hc, hcs⟩ := Bool.and_eq_true_iff.1 hs
      exact ⟨c, cs, rfl, hc, List.all_eq_true.1 hcs⟩

theorem matches_mutability : mutability.Matches s rest captured ↔
    (s = [] ∨ ∃ blanks, blanks ≠ [] ∧ (∀ c ∈ blanks, isBlank c) ∧ s = ['m', 'u', 't'] ++ blanks) ∧
      captured = none := by
  simp only [mutability, Matches, matches_oneThenMany]
  constructor
  · rintro (⟨_, _, _, _, rfl, ⟨rfl, rfl⟩, ⟨⟨b, bs, rfl, hb, hbs⟩, rfl⟩, rfl⟩ | ⟨rfl, rfl⟩)
    · exact ⟨Or.inr ⟨b :: bs, List.cons_ne_nil b bs, List.forall_mem_cons.2 ⟨hb, hbs⟩, rfl⟩, rfl⟩
    · exact ⟨Or.inl rfl, rfl⟩
  · rintro ⟨rfl | ⟨blanks, hne, hblanks, rfl⟩, rfl⟩
    · exact Or.inr ⟨rfl, rfl⟩
    · obtain ⟨b, bs, rfl⟩ := List.exists_cons_of_ne_nil hne
      obtain ⟨hb, hbs⟩ := List.forall_mem_cons.1 hblanks
      exact Or.inl ⟨_, b :: bs, none, none, rfl, ⟨rfl, rfl⟩, ⟨⟨b, bs, rfl, hb, hbs⟩, rfl⟩, rfl⟩

theorem matches_wholeName : wholeName.Matches s rest captured ↔
    isIdentifier s ∧ captured = some s ∧ (rest = [] ∨ rest = ['\n']) := by
  simp only [wholeName, Matches, matches_identifier]
  constructor
  · rintro ⟨n, _, _, _, rfl, ⟨⟨_, hn, rfl⟩, rfl⟩, ⟨rfl, hrest, rfl⟩, rfl⟩
    rw [List.append_nil]
    exact ⟨hn, rfl, hrest⟩
  · rintro ⟨hn, rfl, hrest⟩
    exact ⟨s, [], some s, none, (List.append_nil s).symm, ⟨⟨none, hn, rfl⟩, rfl⟩, ⟨rfl, hrest, rfl⟩, rfl⟩

/-- A match is a pattern that binds a name, up to the end of the text or to a last newline. -/
theorem matches_byValue : byValue.Matches s rest captured ↔
    (∃ n, boundName? s = some n ∧ captured = some n) ∧ (rest = [] ∨ rest = ['\n']) := by
  simp only [boundName?_eq_some_iff, byValue, Matches, matches_mutability, matches_wholeName]
  constructor
  · rintro ⟨t, n, _, _, rfl, ⟨ht, rfl⟩, ⟨hn, rfl, hrest⟩, rfl⟩
    refine ⟨⟨n, ⟨hn, ?_⟩, rfl⟩, hrest⟩
    rcases ht with rfl | ⟨blanks, hne, hb, rfl⟩
    · exact Or.inl rfl
    · exact Or.inr ⟨blanks, hne, hb, rfl⟩
  · rintro ⟨⟨n, ⟨hn, rfl | ⟨blanks, hne, hb, rfl⟩⟩, rfl⟩, hrest⟩
    · exact ⟨[], s, none, some s, rfl, ⟨Or.inl rfl, rfl⟩, ⟨hn, rfl, hrest⟩, rfl⟩
    · exact ⟨_, n, none, some n, rfl, ⟨Or.inr ⟨blanks, hne, hb, rfl⟩, rfl⟩, ⟨hn, rfl, hrest⟩, rfl⟩

/-- In a text that does not end in a newline there is one way at most. -/
theorem mem_ways_byValue {cs : List Char} (hcs : cs.getLast? ≠ some '\n') {w : Way} :
    w ∈ byValue.ways cs ↔ ∃ n, boundName? cs = some n ∧ w = ⟨cs, [], some n⟩ := by
  obtain ⟨s, rest, captured⟩ := w
  rw [mem_ways, matches_byValue]
  constructor
  · rintro ⟨rfl, ⟨n, hn, rfl⟩, rfl | rfl⟩
    · rw [List.append_nil]
      exact ⟨n, hn, rfl⟩
    · simp at hcs
  · rintro ⟨n, hn, hw⟩
    obtain ⟨rfl, rfl, rfl⟩ := Way.mk.inj hw
    exact ⟨List.append_nil s, ⟨n, hn, rfl⟩, Or.inl rfl⟩

theorem captured?_byValue {cs : List Char} (hcs : cs.getLast? ≠ some '\n') :
    byValue.captured? cs = boundName? cs := by
  unfold captured?
  cases hn : boundName? cs with
  | none =>
    have hnone : byValue.ways cs = [] := by
      refine List.eq_nil_iff_forall_not_mem.2 fun w hw => ?_
      obtain ⟨n, hsome, -⟩ := (mem_ways_byValue hcs).1 hw
      rw [hn] at hsome
      cases hsome
    rw [hnone]
    rfl
  | some n =>
    have hmem : ⟨cs, [], some n⟩ ∈ byValue.ways cs := (mem_ways_byValue hcs).2 ⟨n, hn, rfl⟩
    cases hways : byValue.ways cs with
    | nil =>
      rw [hways] at hmem
      cases hmem
    | cons w ws =>
      obtain ⟨m, hm, rfl⟩ := (mem_ways_byValue hcs).1 (hways ▸ List.mem_cons_self)
      rw [hn] at hm
      exact hm.symm

/-- Without trimming a last newline would be left over. -/
example : byValue.captured? ['x', '\n'] = some ['x'] ∧ boundName? ['x', '\n'] = none := by decide

theorem boundName_text (s function : String) :
    boundName (.text s) function = (boundName? (trim s.toList)).elim
      (.error (.reject (.pattern (.text s) function))) (fun n => .ok (String.ofList n)) := by
  simp only [boundName, trimmed, bind, Except.bind]
  cases boundName? (trim s.toList) with
  | none => rfl
  | some n => rfl

theorem pointerBoundName_text (s function : String) :
    pointerBoundName (.text s) function =
      if trim s.toList = [] ∨ trim s.toList = ['_'] then .ok "" else boundName (.text s) function := by
  simp only [pointerBoundName, trimmed, bind, Except.bind, Bool.or_eq_true, decide_eq_true_eq]
  rfl

/-- An identifier spells itself. -/
theorem spells_self {x : String} (hx : isIdentifier x.toList) : Spells (.text x) x := by
  have hchars : ∀ c ∈ x.toList, isBlank c = false :=
    fun c hc => not_isBlank_of_isNameChar (all_isNameChar_of_isIdentifier hx c hc)
  have htrim : trim x.toList = x.toList :=
    trim_eq_iff.2 ⟨⟨[], [], by simp, by simp, by simp⟩, fun c hc => hchars c (List.mem_of_head? hc),
      fun c hc => hchars c (List.mem_of_getLast? hc)⟩
  exact ⟨x, rfl, hx, Or.inl htrim⟩

theorem boundName_text_eq_ok {s function x : String} :
    boundName (.text s) function = .ok x ↔ Spells (.text s) x :=
  boundName_eq_ok.trans binds_iff

/-- The only failure is the rejection that shows the pattern. -/
theorem boundName_text_eq_error {s function : String} :
    boundName (.text s) function = .error (.reject (.pattern (.text s) function)) ↔
      ¬∃ x, Spells (.text s) x := by
  constructor
  · rintro h ⟨x, hx⟩
    rw [boundName_text_eq_ok.2 hx] at h
    cases h
  · intro h
    rw [boundName_text]
    cases hn : boundName? (trim s.toList) with
    | none => rfl
    | some n =>
      have hname : boundName (.text s) function = .ok (String.ofList n) := by
        rw [boundName_text, hn]
        rfl
      exact absurd ⟨_, boundName_text_eq_ok.1 hname⟩ h

/-- No other pattern gives the empty name, since an identifier is not empty. -/
theorem pointerBoundName_text_eq_empty {s function : String} :
    pointerBoundName (.text s) function = .ok "" ↔ trim s.toList = [] ∨ trim s.toList = ['_'] := by
  rw [pointerBoundName_text]
  constructor
  · intro h
    by_contra hu
    rw [if_neg hu] at h
    obtain ⟨_, -, hidentifier, -⟩ := boundName_text_eq_ok.1 h
    cases hidentifier
  · intro hu
    rw [if_pos hu]

/-- The name of a parameter is the one that a search for `byValue` finds in the trimmed pattern. The
patterns that have one are those that spell an identifier, and it is the only one that they spell. As a
pattern it is its own name, and all other patterns are rejected. An argument of a function pointer has
no name if its pattern is blank or the wildcard, and else the same one as a parameter. -/
theorem boundName_recovers (s function : String) :
    boundName (.text s) function = (byValue.captured? (trim s.toList)).elim
        (.error (.reject (.pattern (.text s) function))) (fun n => .ok (String.ofList n)) ∧
      (∀ x, boundName (.text s) function = .ok x ↔ Spells (.text s) x) ∧
      (boundName (.text s) function = .error (.reject (.pattern (.text s) function)) ↔
        ¬∃ x, Spells (.text s) x) ∧
      (∀ x, Spells (.text s) x →
        (∀ y, Spells (.text s) y → y = x) ∧ isIdentifier x.toList ∧
          ∀ g, boundName (.text x) g = .ok x) ∧
      (pointerBoundName (.text s) function = .ok "" ↔
        trim s.toList = [] ∨ trim s.toList = ['_']) ∧
      (¬(trim s.toList = [] ∨ trim s.toList = ['_']) →
        pointerBoundName (.text s) function = boundName (.text s) function) := by
  have hsearch : byValue.captured? (trim s.toList) = boundName? (trim s.toList) := by
    refine captured?_byValue fun hlast => ?_
    cases not_isBlank_of_getLast?_trim hlast
  refine ⟨by rw [hsearch, boundName_text], fun x => boundName_text_eq_ok, boundName_text_eq_error,
    fun x hx => ?_, pointerBoundName_text_eq_empty, fun hu => ?_⟩
  · have hidentifier : isIdentifier x.toList := (binds_iff.2 hx).isIdentifier
    exact ⟨fun y hy => (binds_iff.2 hy).unique (binds_iff.2 hx), hidentifier,
      fun g => boundName_text_eq_ok.2 (spells_self hidentifier)⟩
  · rw [pointerBoundName_text, if_neg hu]

/-- The keyword can be the name, and the blanks around it need not be spaces. -/
theorem boundName_recovers_mut :
    let s := "\u2003mut\n\u00a0mut\x1f"
    boundName (.text s) "swap" = .ok "mut" ∧ Spells (.text s) "mut" ∧
      boundName (.text "mut") "swap" = .ok "mut" ∧
      ¬(trim s.toList = [] ∨ trim s.toList = ['_']) ∧
      pointerBoundName (.text s) "swap" = .ok "mut" := by
  intro s
  obtain ⟨-, hok, -, hname, -, hpointer⟩ := boundName_recovers s "swap"
  have hs : boundName (.text s) "swap" = .ok "mut" := by
    have hbound : boundName? (trim s.toList) = some ['m', 'u', 't'] := by decide
    rw [boundName_text, hbound]
    rfl
  obtain ⟨-, -, hself⟩ := hname "mut" ((hok "mut").1 hs)
  have hnamed : ¬(trim s.toList = [] ∨ trim s.toList = ['_']) := by decide
  exact ⟨hs, (hok "mut").1 hs, hself "swap", hnamed, (hpointer hnamed).trans hs⟩

end Param

end FfiHeaders
