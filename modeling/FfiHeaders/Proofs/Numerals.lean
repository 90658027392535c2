import FfiHeaders.Proofs.LineReading

/-!
# Decimal integers and how C reads them

A source writes an integer to base ten, with zeros in front and underscores between the digits as it
likes. C knows no underscores, and counts to base eight behind a zero, which makes no difference to a
number below eight.
-/
namespace FfiHeaders

/-- The number that the digits among the characters write to base ten. -/
def decimalValue (cs : List Char) : Nat := Nat.ofDigitChars 10 (cs.filter Char.isDigit) 0

/-- The characters are a numeral of the source: digits, and underscores behind the first of them. -/
def IsNumeral (cs : List Char) : Prop :=
  cs.head?.any Char.isDigit ∧ ∀ c ∈ cs, c.isDigit ∨ c = '_'

/-- The text writes the integer to base ten. -/
inductive IsDecimal : String → Int → Prop
  | natural {cs : List Char} (h : IsNumeral cs) : IsDecimal (.ofList cs) (decimalValue cs)
  | negative {cs : List Char} (h : IsNumeral cs) :
    IsDecimal (.ofList ('-' :: cs)) (-(decimalValue cs : Int))

/-- C reads the integer that the source has written: there are no underscores, and a zero stands in
front of a number below eight only. -/
def IsReadAlike (text : String) : Prop :=
  '_' ∉ text.toList ∧
    (text.toList.find? Char.isDigit = some '0' → decimalValue text.toList < 8)

instance (text : String) : Decidable (IsReadAlike text) := inferInstanceAs (Decidable (_ ∧ (_ → _)))

/-! ### Two bases -/

theorem le_ofDigitChars (cs : List Char) (init : Nat) : init ≤ Nat.ofDigitChars 10 cs init := by
  induction cs generalizing init with
  | nil => exact Nat.le_refl init
  | cons c cs ih =>
    rw [Nat.ofDigitChars_cons]
    have := ih (10 * init + (c.toNat - '0'.toNat))
    omega

theorem ofDigitChars_lt (cs : List Char) {i j : Nat} (h : i < j) :
    Nat.ofDigitChars 8 cs i < Nat.ofDigitChars 10 cs j := by
  induction cs generalizing i j with
  | nil => exact h
  | cons c cs ih =>
    rw [Nat.ofDigitChars_cons, Nat.ofDigitChars_cons]
    exact ih (by omega)

theorem isDigit_iff {c : Char} : c.isDigit ↔ '0'.toNat ≤ c.toNat ∧ c.toNat ≤ '9'.toNat := by
  rw [Char.isDigit, Bool.and_eq_true, decide_eq_true_iff, decide_eq_true_iff]
  exact Iff.rfl

/-- Digits say the same to base eight and to base ten exactly if they write a number below eight. -/
theorem ofDigitChars_eq_iff {cs : List Char} (hcs : ∀ c ∈ cs, c.isDigit) {init : Nat}
    (hinit : init < 8) :
    ((∀ c ∈ cs, c.toNat < '8'.toNat) ∧ Nat.ofDigitChars 8 cs init = Nat.ofDigitChars 10 cs init) ↔
      Nat.ofDigitChars 10 cs init < 8 := by
  induction cs generalizing init with
  | nil => exact iff_of_true ⟨List.forall_mem_nil _, rfl⟩ hinit
  | cons c cs ih =>
    obtain ⟨hc, hcs⟩ := List.forall_mem_cons.1 hcs
    have hdigit : 48 ≤ c.toNat ∧ c.toNat ≤ 57 := isDigit_iff.1 hc
    have hzero : '0'.toNat = 48 := rfl
    have hlimit : '8'.toNat = 56 := rfl
    rw [Nat.ofDigitChars_cons, Nat.ofDigitChars_cons, List.forall_mem_cons, and_assoc, hzero, hlimit]
    have hle := le_ofDigitChars cs (10 * init + (c.toNat - 48))
    -- what stands before the last digit has to be zero, for the bases part behind anything else
    by_cases hfirst : init = 0
    · subst hfirst
      simp only [Nat.mul_zero, Nat.zero_add] at hle ⊢
      by_cases hc8 : c.toNat < 56
      · rw [← ih hcs (by omega)]
        exact and_iff_right hc8
      · exact iff_of_false (fun h => hc8 h.1) (by omega)
    · have hlt : 8 * init + (c.toNat - 48) < 10 * init + (c.toNat - 48) := by omega
      exact iff_of_false (fun h => absurd h.2.2 (Nat.ne_of_lt (ofDigitChars_lt cs hlt))) (by omega)

/-! ### Numerals -/

theorem digits_of_not_mem {cs : List Char} (hcs : ∀ c ∈ cs, c.isDigit ∨ c = '_') (h : '_' ∉ cs) :
    ∀ c ∈ cs, c.isDigit := fun c hc =>
  (hcs c hc).resolve_right fun he => h (he ▸ hc)

theorem decimalValue_of_digits {cs : List Char} (h : ∀ c ∈ cs, c.isDigit) :
    decimalValue cs = Nat.ofDigitChars 10 cs 0 := by
  rw [decimalValue, List.filter_eq_self.2 h]

theorem Reading.natural?_of_mem {cs : List Char} (h : '_' ∈ cs) : natural? cs = none := by
  unfold natural?
  split
  · rfl
  · next ds =>
    have hds : '_' ∈ ds := (List.mem_cons.1 h).resolve_left (by decide)
    exact if_neg fun hall => absurd (List.all_eq_true.1 hall _ hds) (by decide)
  · exact if_neg fun hall => absurd (List.all_eq_true.1 hall _ h) (by decide)

theorem IsNumeral.natural?_eq_iff {cs : List Char} (h : IsNumeral cs) :
    Reading.natural? cs = some (decimalValue cs) ↔
      '_' ∉ cs ∧ (cs.head? = some '0' → decimalValue cs < 8) := by
  obtain ⟨hhead, hcs⟩ := h
  by_cases hu : '_' ∈ cs
  · rw [Reading.natural?_of_mem hu]
    exact iff_of_false nofun fun h => h.1 hu
  · have hdigits := digits_of_not_mem hcs hu
    rw [and_iff_right hu, decimalValue_of_digits hdigits]
    unfold Reading.natural?
    split
    · cases hhead
    · next ds =>
      have hds : ∀ d ∈ ds, d.isDigit := fun d hd => hdigits d (List.mem_cons_of_mem _ hd)
      have hvalue : Nat.ofDigitChars 10 ('0' :: ds) 0 = Nat.ofDigitChars 10 ds 0 := rfl
      have hall : (ds.all fun d => d.isDigit && decide (d.toNat < '8'.toNat)) ↔
          ∀ d ∈ ds, d.toNat < '8'.toNat := by
        simp only [List.all_eq_true, Bool.and_eq_true, decide_eq_true_iff]
        exact forall₂_congr fun d hd => and_iff_right (hds d hd)
      rw [hvalue, Option.ite_none_right_eq_some, hall, Option.some.injEq,
        ofDigitChars_eq_iff hds (Nat.zero_lt_succ 7), List.head?_cons]
      exact ⟨fun hlt _ => hlt, fun hlt => hlt rfl⟩
    · next hzero =>
      refine iff_of_true (if_pos (List.all_eq_true.2 hdigits)) fun h => ?_
      obtain ⟨ds, rfl⟩ := List.head?_eq_some_iff.1 h
      exact absurd rfl (hzero ds)

theorem isNumeral_toDigits (n : Nat) : IsNumeral (Nat.toDigits 10 n) := by
  have hdigits : ∀ c ∈ Nat.toDigits 10 n, c.isDigit := fun c =>
    Nat.isDigit_of_mem_toDigits (by decide) (by decide)
  refine ⟨?_, fun c hc => Or.inl (hdigits c hc)⟩
  obtain ⟨c, cs, hcons⟩ := List.exists_cons_of_ne_nil (Nat.toDigits_ne_nil (b := 10) (n := n))
  rw [hcons] at hdigits ⊢
  exact hdigits c List.mem_cons_self

theorem decimalValue_toDigits (n : Nat) : decimalValue (Nat.toDigits 10 n) = n := by
  rw [decimalValue_of_digits fun c => Nat.isDigit_of_mem_toDigits (by decide) (by decide),
    Nat.ofDigitChars_toDigits (by decide) (by decide)]

/-! ### Integers -/

/-- Every integer of a document is written to base ten. -/
theorem isDecimal_toString (n : Int) : IsDecimal (toString n) n := by
  cases n with
  | ofNat n =>
    have h := IsDecimal.natural (isNumeral_toDigits n)
    rw [decimalValue_toDigits, ← Nat.toString_eq_ofList_toDigits] at h
    exact h
  | negSucc n =>
    have h := IsDecimal.negative (isNumeral_toDigits (n + 1))
    rw [decimalValue_toDigits] at h
    have htext : toString (Int.negSucc n) = String.ofList ('-' :: Nat.toDigits 10 (n + 1)) := by
      change "-" ++ toString (n + 1) = _
      rw [Nat.toString_eq_ofList_toDigits]
      exact String.toList_inj.1 (by simp [String.toList_append])
    rw [htext]
    exact h

theorem IsNumeral.find?_eq {cs : List Char} (h : IsNumeral cs) : cs.find? Char.isDigit = cs.head? := by
  obtain ⟨hhead, -⟩ := h
  cases cs with
  | nil => rfl
  | cons c cs => exact List.find?_cons_of_pos hhead

/-- What C reads for a decimal integer is that integer exactly if the numeral is read alike. -/
theorem IsDecimal.integer?_eq_iff {text : String} {n : Int} (h : IsDecimal text n) :
    Reading.integer? text.toList = some n ↔ IsReadAlike text := by
  cases h with
  | @natural cs h =>
    have hminus : '-' ∉ cs := fun hc => absurd (h.2 _ hc) (by decide)
    have hinteger : Reading.integer? cs = (Reading.natural? cs).map fun n : Nat => (n : Int) := by
      unfold Reading.integer?
      split
      · exact absurd List.mem_cons_self hminus
      · rfl
    rw [IsReadAlike, String.toList_ofList, h.find?_eq, ← h.natural?_eq_iff, hinteger,
      Option.map_eq_some_iff]
    simp only [Int.natCast_inj, exists_eq_right]
  | @negative cs h =>
    have hvalue : decimalValue ('-' :: cs) = decimalValue cs := rfl
    have hfind : ('-' :: cs).find? Char.isDigit = cs.find? Char.isDigit := rfl
    have hmem : '_' ∉ '-' :: cs ↔ '_' ∉ cs := by simp
    rw [IsReadAlike, String.toList_ofList, hvalue, hfind, hmem, h.find?_eq, ← h.natural?_eq_iff,
      Reading.integer?, Option.map_eq_some_iff]
    simp only [Int.neg_inj, Int.natCast_inj, exists_eq_right]

theorem IsNumeral.isLine {cs : List Char} (h : IsNumeral cs) : Reading.IsLine (.ofList cs) := by
  rw [Reading.IsLine, String.toList_ofList]
  exact ⟨fun hc => absurd (h.2 _ hc) (by decide), fun hc => absurd (h.2 _ hc) (by decide)⟩

theorem IsDecimal.isLine {text : String} {n : Int} (h : IsDecimal text n) : Reading.IsLine text := by
  cases h with
  | natural h => exact h.isLine
  | @negative cs h =>
    have htext : String.ofList ('-' :: cs) = "-" ++ String.ofList cs :=
      String.toList_inj.1 (by simp [String.toList_append])
    rw [htext]
    exact Reading.isLine_append.2 ⟨by decide, h.isLine⟩

end FfiHeaders
