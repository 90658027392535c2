/-!
# Blank characters and trimming

`isBlank` is the set of characters that count as white space wherever text is trimmed. It is wider
than `Char.isWhitespace`, which knows ASCII only: it holds the separators of every script, the next
line character and the four information separators below the space.
-/
namespace FfiHeaders.Text

/-- The blanks: U+0009-000D, U+001C-0020, U+0085, U+00A0 and the wide and narrow spaces. -/
def isBlank (c : Char) : Bool :=
  let n := c.toNat
  (0x09 ≤ n && n ≤ 0x0D) || (0x1C ≤ n && n ≤ 0x20) || n == 0x85 || n == 0xA0 || n == 0x1680 ||
    (0x2000 ≤ n && n ≤ 0x200A) || n == 0x2028 || n == 0x2029 || n == 0x202F || n == 0x205F ||
    n == 0x3000

/-- Drops the blanks before the first other character. -/
def trimStart (cs : List Char) : List Char := cs.dropWhile isBlank

/-- Drops the characters after the last one that fails `p`. -/
def dropEndWhile (p : Char → Bool) (cs : List Char) : List Char :=
  (cs.reverse.dropWhile p).reverse

/-- Drops the blanks after the last other character. -/
def trimEnd (cs : List Char) : List Char := dropEndWhile isBlank cs

/-- Drops the blanks on both sides. -/
def trim (cs : List Char) : List Char := trimEnd (trimStart cs)

theorem trimStart_of_not_blank {c : Char} {cs : List Char} (h : isBlank c = false) :
    trimStart (c :: cs) = c :: cs := by
  simp [trimStart, h]

/-- What is dropped at the end passes the test, so the text is what is kept and a run of those. -/
theorem exists_dropEndWhile_append (p : Char → Bool) (cs : List Char) :
    ∃ t, cs = dropEndWhile p cs ++ t ∧ ∀ c ∈ t, p c := by
  refine ⟨(cs.reverse.takeWhile p).reverse, ?_, fun c hc => ?_⟩
  · rw [dropEndWhile, ← List.reverse_append, List.takeWhile_append_dropWhile, List.reverse_reverse]
  · exact List.all_eq_true.1 List.all_takeWhile c (List.mem_reverse.1 hc)

theorem dropEndWhile_append_of_not {p : Char → Bool} {c : Char} {cs : List Char} {t : List Char}
    (hc : p c = false) (ht : ∀ x ∈ t, p x) : dropEndWhile p (cs ++ c :: t) = cs ++ [c] := by
  have : (t.reverse ++ ([c] ++ cs.reverse)).dropWhile p = [c] ++ cs.reverse := by
    rw [List.dropWhile_append_of_pos (fun x hx => ht x (List.mem_reverse.1 hx))]
    simp [hc]
  simp only [dropEndWhile, List.reverse_append, List.reverse_cons, List.append_assoc]
  rw [this]
  simp

theorem not_of_getLast?_dropEndWhile {p : Char → Bool} {cs : List Char} {c : Char}
    (h : (dropEndWhile p cs).getLast? = some c) : p c = false := by
  rw [dropEndWhile, List.getLast?_reverse] at h
  have hnot := List.head?_dropWhile_not p cs.reverse
  rw [h] at hnot
  exact hnot

theorem not_isBlank_of_head?_trim {cs : List Char} {c : Char} (h : (trim cs).head? = some c) :
    isBlank c = false := by
  obtain ⟨trail, hstart, -⟩ := exists_dropEndWhile_append isBlank (trimStart cs)
  have hhead : (trimStart cs).head? = some c := by
    rw [hstart, List.head?_append]
    exact Option.or_eq_some_iff.2 (Or.inl h)
  have hnot := List.head?_dropWhile_not isBlank cs
  rw [← trimStart, hhead] at hnot
  exact hnot

theorem not_isBlank_of_getLast?_trim {cs : List Char} {c : Char}
    (h : (trim cs).getLast? = some c) : isBlank c = false :=
  not_of_getLast?_dropEndWhile h

theorem trim_append {lead t trail : List Char} (hlead : ∀ c ∈ lead, isBlank c)
    (htrail : ∀ c ∈ trail, isBlank c) (hhead : ∀ c ∈ t.head?, isBlank c = false)
    (hlast : ∀ c ∈ t.getLast?, isBlank c = false) : trim (lead ++ t ++ trail) = t := by
  have hstart : trimStart (lead ++ t ++ trail) = (t ++ trail).dropWhile isBlank := by
    rw [trimStart, List.append_assoc, List.dropWhile_append_of_pos hlead]
  rw [trim, hstart]
  rcases List.eq_nil_or_concat t with rfl | ⟨r, d, rfl⟩
  · have hnone : (trail ++ []).dropWhile isBlank = [] := List.dropWhile_append_of_pos htrail
    rw [List.append_nil] at hnone
    rw [List.nil_append, hnone]
    rfl
  · rw [List.concat_eq_append] at hhead hlast ⊢
    have hkept : (r ++ [d] ++ trail).dropWhile isBlank = r ++ [d] ++ trail := by
      cases r with
      | nil => exact trimStart_of_not_blank (hhead d rfl)
      | cons c r => exact trimStart_of_not_blank (hhead c rfl)
    rw [hkept, List.append_assoc]
    exact dropEndWhile_append_of_not (hlast d (by simp)) htrail

/-- Trimming takes blanks from both ends, and all that are there. -/
theorem trim_eq_iff {cs t : List Char} : trim cs = t ↔
    (∃ lead trail, (∀ c ∈ lead, isBlank c) ∧ (∀ c ∈ trail, isBlank c) ∧ cs = lead ++ t ++ trail) ∧
      (∀ c ∈ t.head?, isBlank c = false) ∧ ∀ c ∈ t.getLast?, isBlank c = false := by
  constructor
  · rintro rfl
    obtain ⟨trail, hstart, htrail⟩ := exists_dropEndWhile_append isBlank (trimStart cs)
    refine ⟨⟨cs.takeWhile isBlank, trail, List.all_eq_true.1 List.all_takeWhile, htrail, ?_⟩,
      fun c => not_isBlank_of_head?_trim, fun c => not_isBlank_of_getLast?_trim⟩
    calc
      cs = cs.takeWhile isBlank ++ trimStart cs := List.takeWhile_append_dropWhile.symm
      _ = cs.takeWhile isBlank ++ (trim cs ++ trail) := congrArg _ hstart
      _ = cs.takeWhile isBlank ++ trim cs ++ trail := (List.append_assoc _ _ _).symm
  · rintro ⟨⟨lead, trail, hlead, htrail, rfl⟩, hhead, hlast⟩
    exact trim_append hlead htrail hhead hlast

end FfiHeaders.Text
