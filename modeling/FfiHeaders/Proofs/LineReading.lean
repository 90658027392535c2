import FfiHeaders.Proofs.Reading

/-!
# Reading the bodies of C types

A reader of structs and enums that are written with one member a line. Lines of comments are dropped,
and the members stand between the line that ends in the opening brace and the line that begins with
the closing one. An enumerator without a value has the next one after that of its predecessor, or zero
if it is the first.
-/
namespace FfiHeaders.Reading

def isComment (line : List Char) : Bool :=
  "//".toList.isPrefixOf (line.dropWhile Char.isWhitespace)

/-- The lines of a text that are no comments. -/
def codeLines (s : String) : List (List Char) :=
  (s.toList.splitOn '\n').filter (!isComment ·)

/-- The lines between the braces. -/
def bodyLines (s : String) : List (List Char) :=
  (((codeLines s).dropWhile (·.getLast? != some '\x7b')).drop 1).takeWhile (·.head? != some '\x7d')

def field? (line : List Char) : Option Declared :=
  if line.getLast? = some ';' then read (String.ofList line.dropLast) else none

/-- The fields of a struct, in order. -/
def fields? (s : String) : Option (List Declared) := (bodyLines s).mapM field?

/-- The number that digits stand for: to base eight behind a zero, to base ten otherwise. -/
def natural? : List Char → Option Nat
  | [] => none
  | '0' :: ds =>
    if ds.all fun d => d.isDigit && d.toNat < '8'.toNat then some (Nat.ofDigitChars 8 ds 0) else none
  | ds => if ds.all Char.isDigit then some (Nat.ofDigitChars 10 ds 0) else none

def integer? : List Char → Option Int
  | '-' :: ds => (natural? ds).map fun n : Nat => -(n : Int)
  | ds => (natural? ds).map fun n : Nat => (n : Int)

/-- The name of an enumerator, and its value if the line gives one. -/
def enumerator? (line : List Char) : Option (String × Option Int) :=
  let line := line.dropWhile Char.isWhitespace
  let name := line.takeWhile isNameChar
  if isIdentifier name then
    match line.dropWhile isNameChar with
    | [','] => some (String.ofList name, none)
    | ' ' :: '=' :: ' ' :: value =>
      if value.getLast? = some ',' then
        (integer? value.dropLast).map fun n => (String.ofList name, some n)
      else none
    | _ => none
  else none

/-- Enumerators with their values, where the first one is `next` if it is not given another. -/
def valued (next : Int) : List (String × Option Int) → List (String × Int)
  | [] => []
  | (x, v) :: es => (x, v.getD next) :: valued (v.getD next + 1) es

/-- The enumerators of an enum with their values, in order. -/
def enumerators? (s : String) : Option (List (String × Int)) :=
  ((bodyLines s).mapM enumerator?).map (valued 0)

/-! ### Whole lines -/

theorem codeLines_line {line : String} (h : '\n' ∉ line.toList) (rest : String) :
    codeLines (line ++ "\n" ++ rest) =
      (if isComment line.toList then [] else [line.toList]) ++ codeLines rest := by
  have hsplit : (line ++ "\n" ++ rest).toList.splitOn '\n' =
      line.toList :: rest.toList.splitOn '\n' := by
    rw [String.toList_append, String.toList_append, List.append_assoc]
    change List.splitOnP (· == '\n') (line.toList ++ '\n' :: rest.toList) = _
    refine List.splitOnP_append_cons_of_forall_mem ?_ '\n' (by simp) rest.toList
    intro c hc
    rw [beq_eq_false_iff_ne]
    rintro rfl
    exact h hc
  rw [codeLines, hsplit, List.filter_cons]
  cases isComment line.toList <;> rfl

/-- The text has no line break, and no slash that could begin a comment. -/
def IsLine (s : String) : Prop := '\n' ∉ s.toList ∧ '/' ∉ s.toList

instance (s : String) : Decidable (IsLine s) := inferInstanceAs (Decidable (_ ∧ _))

theorem isLine_append {s t : String} : IsLine (s ++ t) ↔ IsLine s ∧ IsLine t := by
  simp only [IsLine, String.toList_append, List.mem_append, not_or]
  exact and_and_and_comm

/-- The text is made of whole lines, and these are the ones that are no comments. -/
def IsBlock (s : String) (ls : List (List Char)) : Prop :=
  ∀ rest, codeLines (s ++ rest) = ls ++ codeLines rest

namespace IsBlock

theorem empty : IsBlock "" [] := fun rest => by
  rw [String.empty_append, List.nil_append]

theorem append {s t : String} {ls ms : List (List Char)} (hs : IsBlock s ls) (ht : IsBlock t ms) :
    IsBlock (s ++ t) (ls ++ ms) := fun rest => by
  rw [String.append_assoc, hs, ht, List.append_assoc]

theorem comment {line : String} (hn : '\n' ∉ line.toList) (hc : isComment line.toList) :
    IsBlock (line ++ "\n") [] := fun rest => by
  rw [codeLines_line hn, if_pos hc]

theorem line {line : String} (h : IsLine line) :
    IsBlock (line ++ "\n") [line.toList] := fun rest => by
  rw [codeLines_line h.1, if_neg]
  intro hc
  have hmem : '/' ∈ line.toList.dropWhile Char.isWhitespace :=
    (List.isPrefixOf_iff_prefix.1 hc).subset List.mem_cons_self
  exact h.2 ((List.dropWhile_suffix _).subset hmem)

end IsBlock

/-- What stands between the line that opens the braces and the one that closes them. -/
theorem bodyLines_eq {before body after : String} {opening closing : List Char}
    {ls rest : List (List Char)} (hbefore : IsBlock before [opening])
    (hopening : opening.getLast? = some '\x7b') (hbody : IsBlock body ls)
    (hls : ∀ l ∈ ls, l.head? ≠ some '\x7d') (hafter : codeLines after = closing :: rest)
    (hclosing : closing.head? = some '\x7d') : bodyLines (before ++ (body ++ after)) = ls := by
  rw [bodyLines, hbefore, hbody, hafter, List.singleton_append,
    List.dropWhile_cons_of_neg (by simp [hopening]), List.drop_one, List.tail_cons,
    List.takeWhile_append_of_pos (by simpa using hls),
    List.takeWhile_cons_of_neg (by simp [hclosing]), List.append_nil]

/-! ### Members -/

theorem mapM_eq_some {α β : Type} {f : α → Option β} {xs : List α} {ys : List β} :
    xs.mapM f = some ys ↔ List.Forall₂ (fun x y => f x = some y) xs ys := by
  induction xs generalizing ys with
  | nil => simp [eq_comm]
  | cons x xs ih =>
    simp only [List.mapM_cons, Option.bind_eq_bind, Option.bind_eq_some_iff, Option.pure_def,
      Option.some.injEq, ih]
    constructor
    · rintro ⟨y, hy, zs, hz, rfl⟩
      exact .cons hy hz
    · rintro (_ | ⟨hy, hz⟩)
      exact ⟨_, hy, _, hz, rfl⟩

theorem not_isWhitespace_of_isNameChar {c : Char} (h : isNameChar c) : c.isWhitespace = false := by
  by_contra hw
  simp only [Char.isWhitespace, Bool.not_eq_false, Bool.or_eq_true, decide_eq_true_eq] at hw
  rcases hw with ((rfl | rfl) | rfl) | rfl <;> revert h <;> decide

/-- Where a name ends, an indented line falls into the name and the rest. -/
theorem enumerator?_append {x : List Char} (hx : isIdentifier x) {c : Char}
    (hc : isNameChar c = false) (cs : List Char) :
    enumerator? ('\t' :: (x ++ c :: cs)) = match c :: cs with
      | [','] => some (String.ofList x, none)
      | ' ' :: '=' :: ' ' :: value =>
        if value.getLast? = some ',' then
          (integer? value.dropLast).map fun n => (String.ofList x, some n)
        else none
      | _ => none := by
  have hall := all_isNameChar_of_isIdentifier hx
  have hindent : ('\t' :: (x ++ c :: cs)).dropWhile Char.isWhitespace = x ++ c :: cs := by
    cases x with
    | nil => cases hx
    | cons d ds =>
      rw [List.dropWhile_cons_of_pos (by decide), List.cons_append, List.dropWhile_cons_of_neg]
      rw [not_isWhitespace_of_isNameChar (hall d List.mem_cons_self)]
      decide
  have hname : (x ++ c :: cs).takeWhile isNameChar = x := by
    rw [List.takeWhile_append_of_pos hall, List.takeWhile_cons_of_neg (by simp [hc]), List.append_nil]
  have hrest : (x ++ c :: cs).dropWhile isNameChar = c :: cs := by
    rw [List.dropWhile_append_of_pos hall, List.dropWhile_cons_of_neg (by simp [hc])]
  rw [enumerator?]
  simp only [hindent, hname, hrest, hx, if_true]

theorem enumerator?_implicit {x : String} (hx : isIdentifier x.toList) :
    enumerator? ("\t" ++ x ++ ",").toList = some (x, none) := by
  have h := enumerator?_append hx (c := ',') (by decide) []
  rw [String.ofList_toList] at h
  rw [String.toList_append, String.toList_append]
  exact h

theorem enumerator?_explicit {x value : String} (hx : isIdentifier x.toList) :
    enumerator? ("\t" ++ x ++ (" = " ++ value) ++ ",").toList =
      (integer? value.toList).map fun n => (x, some n) := by
  have h := enumerator?_append hx (c := ' ') (by decide) ('=' :: ' ' :: (value.toList ++ [',']))
  have hlast : (value.toList ++ [',']).getLast? = some ',' := List.getLast?_concat
  simp only [hlast, if_true, List.dropLast_concat, String.ofList_toList] at h
  simp only [String.toList_append, List.append_assoc]
  exact h

theorem mapM_valued_cons {α : Type} {f : α → Option (String × Option Int)} {a : α} {as : List α}
    {next n : Int} {x : String} {xs : List (String × Int)} :
    ((a :: as).mapM f).map (valued next) = some ((x, n) :: xs) ↔
      (∃ v, f a = some (x, v) ∧ v.getD next = n) ∧
        (as.mapM f).map (valued (n + 1)) = some xs := by
  simp only [List.mapM_cons, Option.bind_eq_bind, Option.pure_def, Option.map_eq_some_iff,
    Option.bind_eq_some_iff, Option.some.injEq]
  constructor
  · rintro ⟨_, ⟨⟨y, v⟩, he, es, hes, rfl⟩, hvalued⟩
    cases hvalued
    exact ⟨⟨v, he, rfl⟩, es, hes, rfl⟩
  · rintro ⟨⟨v, he, rfl⟩, es, hes, rfl⟩
    exact ⟨(x, v) :: es, ⟨(x, v), he, es, hes, rfl⟩, rfl⟩

theorem valued_names (next : Int) (es : List (String × Option Int)) :
    (valued next es).map Prod.fst = es.map Prod.fst := by
  induction es generalizing next with
  | nil => rfl
  | cons e es ih => rw [valued, List.map_cons, List.map_cons, ih]

theorem field?_line {text : String} {d : Declared} (h : read text = some d) :
    field? ("\t" ++ text ++ ";").toList = some d := by
  have htokens : tokens ("\t" ++ text) = tokens text := tokens_append (.inl (by decide))
  have hread : read ("\t" ++ text) = some d := by
    rwa [read, htokens]
  have hsemicolon : ("\t" ++ text ++ ";").toList = ("\t" ++ text).toList ++ [';'] :=
    String.toList_append
  rw [field?, hsemicolon, if_pos List.getLast?_concat, List.dropLast_concat, String.ofList_toList,
    hread]

end FfiHeaders.Reading
