import Mathlib.Data.List.Basic

/-!
# Searches for regular expressions

`Matches` is the language of an expression, with what it captures and what may follow the match. `ways`
lists the matches at the beginning of a text in the order in which a search by backtracking comes to
them: a repetition takes as much as it can at first, and an optional part is tried before it is left out.
`captured?` stops at the first of them. By `mem_ways` the search finds a match wherever there is one.
-/
namespace FfiHeaders.Text

inductive Regex where
  | literal (t : List Char)
  | one (p : Char → Bool)
  | next (a b : Regex)
  | optional (a : Regex)
  | many (p : Char → Bool)
  | capture (a : Regex)
  | finish

namespace Regex

/-- A character of one of the ranges, which hold both of their ends. -/
def among (ranges : List (Char × Char)) (c : Char) : Bool :=
  ranges.any fun range => decide (range.1 ≤ c ∧ c ≤ range.2)

/-- A character that passes `p`, and then any number of them that pass `q`. -/
def oneThenMany (p q : Char → Bool) : Regex := .next (.one p) (.many q)

/-- `e.Matches s rest captured`: the expression matches `s` where `rest` follows, and its groups leave
`captured`, the last one of them if there are more. A text is also at its end before a last newline. -/
def Matches : Regex → List Char → List Char → Option (List Char) → Prop
  | literal t, s, _, captured => s = t ∧ captured = none
  | one p, s, _, captured => (∃ c, p c ∧ s = [c]) ∧ captured = none
  | next a b, s, rest, captured =>
    ∃ t u m n, s = t ++ u ∧ a.Matches t (u ++ rest) m ∧ b.Matches u rest n ∧ captured = n.or m
  | optional a, s, rest, captured => a.Matches s rest captured ∨ s = [] ∧ captured = none
  | many p, s, _, captured => (∀ c ∈ s, p c) ∧ captured = none
  | capture a, s, rest, captured => (∃ m, a.Matches s rest m) ∧ captured = some s
  | finish, s, rest, captured => s = [] ∧ (rest = [] ∨ rest = ['\n']) ∧ captured = none

/-- One way to match the beginning of a text: what is matched, what is left and what is captured. -/
structure Way where
  text : List Char
  rest : List Char
  captured : Option (List Char)

/-- All beginnings with characters that pass `p`, the longest first, each with what follows it. -/
def runs (p : Char → Bool) : List Char → List (List Char × List Char)
  | [] => [([], [])]
  | c :: cs =>
    if p c then (runs p cs).map (fun run => (c :: run.1, run.2)) ++ [([], c :: cs)]
    else [([], c :: cs)]

/-- The ways to match the beginning of a text, in the order in which they are tried. -/
def ways : Regex → List Char → List Way
  | literal t, cs => (cs.dropPrefix? t).toList.map fun rest => ⟨t, rest, none⟩
  | one p, cs =>
    match cs with
    | [] => []
    | c :: cs => if p c then [⟨[c], cs, none⟩] else []
  | next a b, cs =>
    (a.ways cs).flatMap fun v =>
      (b.ways v.rest).map fun w => ⟨v.text ++ w.text, w.rest, w.captured.or v.captured⟩
  | optional a, cs => a.ways cs ++ [⟨[], cs, none⟩]
  | many p, cs => (runs p cs).map fun run => ⟨run.1, run.2, none⟩
  | capture a, cs => (a.ways cs).map fun w => ⟨w.text, w.rest, some w.text⟩
  | finish, cs => if cs = [] ∨ cs = ['\n'] then [⟨[], cs, none⟩] else []

/-- What the first way captures. -/
def captured? (e : Regex) (cs : List Char) : Option (List Char) :=
  (e.ways cs).head?.bind Way.captured

theorem mem_runs {p : Char → Bool} {cs s rest : List Char} :
    (s, rest) ∈ runs p cs ↔ s ++ rest = cs ∧ ∀ c ∈ s, p c := by
  induction cs generalizing s with
  | nil => simp +contextual [runs]
  | cons c cs ih =>
    cases s with
    | nil => by_cases hc : p c <;> simp [runs, hc]
    | cons d s =>
      have hstep : (d :: s, rest) ∈ runs p (c :: cs) ↔ p c ∧ c = d ∧ (s, rest) ∈ runs p cs := by
        by_cases hc : p c <;> simp [runs, hc, and_comm]
      rw [hstep, ih, List.cons_append, List.cons.injEq, List.forall_mem_cons]
      constructor
      · rintro ⟨hc, rfl, hcs, hs⟩
        exact ⟨⟨rfl, hcs⟩, hc, hs⟩
      · rintro ⟨⟨rfl, hcs⟩, hc, hs⟩
        exact ⟨hc, rfl, hcs, hs⟩

/-- The ways of a search are the matches of the language. -/
theorem mem_ways {e : Regex} {cs s rest : List Char} {captured : Option (List Char)} :
    ⟨s, rest, captured⟩ ∈ e.ways cs ↔ s ++ rest = cs ∧ e.Matches s rest captured := by
  induction e generalizing cs s rest captured with
  | literal t =>
    simp only [ways, Matches, List.mem_map, Option.mem_toList, List.dropPrefix?_eq_some_iff, beq_iff_eq,
      Way.mk.injEq]
    constructor
    · rintro ⟨r, ⟨_, rfl, rfl⟩, rfl, rfl, rfl⟩
      exact ⟨rfl, rfl, rfl⟩
    · rintro ⟨rfl, rfl, rfl⟩
      exact ⟨rest, ⟨s, rfl, rfl⟩, rfl, rfl, rfl⟩
  | one p =>
    cases cs with
    | nil =>
      constructor
      · intro h
        cases h
      · rintro ⟨hcs, ⟨c, -, rfl⟩, -⟩
        cases hcs
    | cons c cs =>
      simp only [ways, Matches, List.mem_ite_nil_right, List.mem_singleton, Way.mk.injEq]
      constructor
      · rintro ⟨hc, rfl, rfl, rfl⟩
        exact ⟨rfl, ⟨c, hc, rfl⟩, rfl⟩
      · rintro ⟨hcs, ⟨d, hd, rfl⟩, rfl⟩
        obtain ⟨rfl, rfl⟩ := List.cons.inj hcs
        exact ⟨hd, rfl, rfl, rfl⟩
  | next a b iha ihb =>
    simp only [ways, Matches, List.mem_flatMap, List.mem_map, Way.mk.injEq]
    constructor
    · rintro ⟨⟨t, r, m⟩, hv, ⟨u, q, n⟩, hw, rfl, rfl, rfl⟩
      obtain ⟨rfl, ha⟩ := iha.1 hv
      obtain ⟨hr, hb⟩ := ihb.1 hw
      obtain rfl : u ++ q = r := hr
      exact ⟨List.append_assoc t u q, t, u, m, n, rfl, ha, hb, rfl⟩
    · rintro ⟨rfl, t, u, m, n, rfl, ha, hb, rfl⟩
      exact ⟨⟨t, u ++ rest, m⟩, iha.2 ⟨(List.append_assoc t u rest).symm, ha⟩,
        ⟨u, rest, n⟩, ihb.2 ⟨rfl, hb⟩, rfl, rfl, rfl⟩
  | optional a ih =>
    simp only [ways, Matches, List.mem_append, List.mem_singleton, ih, Way.mk.injEq]
    constructor
    · rintro (⟨hcs, h⟩ | ⟨rfl, rfl, rfl⟩)
      · exact ⟨hcs, Or.inl h⟩
      · exact ⟨rfl, Or.inr ⟨rfl, rfl⟩⟩
    · rintro ⟨rfl, h | ⟨rfl, rfl⟩⟩
      · exact Or.inl ⟨rfl, h⟩
      · exact Or.inr ⟨rfl, rfl, rfl⟩
  | many p =>
    simp only [ways, Matches, List.mem_map, Prod.exists, mem_runs, Way.mk.injEq]
    constructor
    · rintro ⟨t, r, ⟨hcs, ht⟩, rfl, rfl, rfl⟩
      exact ⟨hcs, ht, rfl⟩
    · rintro ⟨hcs, hs, rfl⟩
      exact ⟨s, rest, ⟨hcs, hs⟩, rfl, rfl, rfl⟩
  | capture a ih =>
    simp only [ways, Matches, List.mem_map, Way.mk.injEq]
    constructor
    · rintro ⟨⟨t, r, m⟩, h, rfl, rfl, rfl⟩
      obtain ⟨hcs, h⟩ := ih.1 h
      exact ⟨hcs, ⟨m, h⟩, rfl⟩
    · rintro ⟨hcs, ⟨m, h⟩, rfl⟩
      exact ⟨⟨s, rest, m⟩, ih.2 ⟨hcs, h⟩, rfl, rfl, rfl⟩
  | finish =>
    simp only [ways, Matches, List.mem_ite_nil_right, List.mem_singleton, Way.mk.injEq]
    constructor
    · rintro ⟨hcs, rfl, rfl, rfl⟩
      exact ⟨rfl, rfl, hcs, rfl⟩
    · rintro ⟨rfl, rfl, hrest, rfl⟩
      exact ⟨hrest, rfl, rfl, rfl⟩

theorem matches_oneThenMany {p q : Char → Bool} {s rest : List Char}
    {captured : Option (List Char)} : (oneThenMany p q).Matches s rest captured ↔
      (∃ c cs, s = c :: cs ∧ p c ∧ ∀ d ∈ cs, q d) ∧ captured = none := by
  simp only [oneThenMany, Matches]
  constructor
  · rintro ⟨_, cs, _, _, rfl, ⟨⟨c, hc, rfl⟩, rfl⟩, ⟨hcs, rfl⟩, rfl⟩
    exact ⟨⟨c, cs, rfl, hc, hcs⟩, rfl⟩
  · rintro ⟨⟨c, cs, rfl, hc, hcs⟩, rfl⟩
    exact ⟨[c], cs, none, none, rfl, ⟨⟨c, hc, rfl⟩, rfl⟩, ⟨hcs, rfl⟩, rfl⟩

end Regex

end FfiHeaders.Text
