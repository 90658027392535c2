import FfiHeaders.Proofs.ProperTypes

/-!
# Types told from their source

No proper type goes on where it could end, so the parts of a written type are found one after the
other, and proper types that are written alike are the same.
-/
namespace FfiHeaders.TypeExpr

open Written

/-! ### What is written next -/

theorem separates_types : Separates [',', ' '] chars IsProper Stops Closes where
  sep_follows y := by simp [Stops]
  closes_follows y h := h.stops
  sep_not_closes y h := by simp [Closes] at h
  item_not_closes t y ht hy h := by
    have hlead := lead?_chars ht hy
    rw [lead?_of_stops h.stops] at hlead
    cases hlead

/-- A parameter with a proper pattern and a proper type. -/
def IsParam (p : Param) : Prop := IsPattern p.pattern ∧ p.type.IsProper

theorem separates_params : Separates [',', ' '] paramChars IsParam Stops Closes where
  sep_follows y := by simp [Stops]
  closes_follows y h := h.stops
  sep_not_closes y h := by simp [Closes] at h
  item_not_closes p y hp hy h := by
    rcases paramChars_of_isPattern hp.1 with ⟨-, hwrite⟩ | ⟨label, hlabel, -, hwrite⟩
    · rw [hwrite] at h
      exact separates_types.item_not_closes p.type y hp.2 hy h
    · rw [hwrite, List.append_assoc] at h
      exact hlabel.not_breaks _ h.stops.breaks

theorem separates_lifetimes : Separates [',', ' '] valueChars IsLifetime Breaks Closes where
  sep_follows y := by simp [Breaks, isMark]
  closes_follows y h := h.stops.breaks
  sep_not_closes y h := by simp [Closes] at h
  item_not_closes := by
    rintro _ y ⟨-, -⟩ - h
    simp [Closes, valueChars, Value.plain] at h

/-- A name ends where a mark is written. -/
theorem word_append_inj {v w y z : List Char} (hv : ∀ c ∈ v, isMark c = false)
    (hw : ∀ c ∈ w, isMark c = false) (hy : Breaks y) (hz : Breaks z) (h : v ++ y = w ++ z) :
    v = w ∧ y = z :=
  append_inj_of_forall (p := (!isMark ·)) (by simpa using hv) (by simpa using hw)
    (by simpa [Breaks] using hy) (by simpa [Breaks] using hz) h

theorem isClear_segment {s : Value} (hs : IsSegment s) : IsClear valueChars IsSegment Breaks s := by
  obtain ⟨x, rfl, hx⟩ := hs
  rintro _ y z ⟨x', rfl, hx'⟩ hy hz h
  obtain ⟨hxx, hyz⟩ := word_append_inj hx.not_isMark hx'.not_isMark hy hz h
  rw [String.toList_inj.1 hxx]
  exact ⟨rfl, hyz⟩

theorem isClear_lifetime {l : Value} (hl : IsLifetime l) :
    IsClear valueChars IsLifetime Breaks l := by
  obtain ⟨-, hx⟩ := hl
  rintro _ y z ⟨-, hx'⟩ hy hz h
  simp only [valueChars, Value.plain, String.toList_append, List.append_assoc] at h
  obtain ⟨hxx, hyz⟩ := word_append_inj hx hx' hy hz (List.append_cancel_left h)
  rw [String.toList_inj.1 hxx]
  exact ⟨rfl, hyz⟩

/-- The type is told from its text in front of any text that may follow. -/
abbrev IsTold (t : TypeExpr) : Prop := IsClear chars IsProper Stops t

theorem isClear_param {p : Param} (hp : IsPattern p.pattern) (ht : p.type.IsProper)
    (h : p.type.IsTold) : IsClear paramChars IsParam Stops p := by
  rintro q y z ⟨hq, ht'⟩ hy hz he
  have hext : p.pattern = q.pattern → p.type = q.type → p = q := by
    cases p
    cases q
    rintro ⟨⟩ ⟨⟩
    rfl
  rcases paramChars_of_isPattern hp with ⟨hpat, hw⟩ | ⟨label, hlabel, hpat, hw⟩ <;>
    rcases paramChars_of_isPattern hq with ⟨hpat', hw'⟩ | ⟨label', hlabel', hpat', hw'⟩ <;>
    rw [hw, hw'] at he
  · obtain ⟨htype, hyz⟩ := h q.type y z ht' hy hz he
    exact ⟨hext (hpat.trans hpat'.symm) htype, hyz⟩
  · have hlead := lead?_chars ht hy
    rw [he, List.append_assoc, List.cons_append, List.cons_append, lead?_label_append hlabel'] at hlead
    cases hlead
  · have hlead := lead?_chars ht' hz
    rw [← he, List.append_assoc, List.cons_append, List.cons_append, lead?_label_append hlabel] at hlead
    cases hlead
  · rw [List.append_assoc, List.append_assoc] at he
    obtain ⟨rfl, hrest⟩ := append_inj_of_forall (p := (· != ':')) (by simpa using hlabel.ne_colon)
      (by simpa using hlabel'.ne_colon) (by simp) (by simp) he
    obtain ⟨htype, hyz⟩ := h q.type y z ht' hy hz (List.cons.inj (List.cons.inj hrest).2).2
    exact ⟨hext (hpat.trans hpat'.symm) htype, hyz⟩

theorem lead_eq_of_append_eq {t u : TypeExpr} {y z : List Char} (ht : t.IsProper) (hu : u.IsProper)
    (hy : Stops y) (hz : Stops z) (h : t.chars ++ y = u.chars ++ z) : t.lead = u.lead :=
  Option.some.inj ((lead?_chars ht hy).symm.trans ((congrArg lead? h).trans (lead?_chars hu hz)))

/-! ### Every kind of type -/

theorem typeList_append_inj {ts us : List TypeExpr} (ht : ∀ t ∈ ts, t.IsProper)
    (ih : ∀ t ∈ ts, t.IsTold) (hu : ∀ u ∈ us, u.IsProper) {y z : List Char} (hy : Closes y)
    (hz : Closes z) (h : listChars chars ts ++ y = listChars chars us ++ z) : ts = us ∧ y = z :=
  intercalate_append_inj separates_types ht ih hu hy hz h

theorem genericChars_append_inj {ts us : List TypeExpr} (ht : ∀ t ∈ ts, t.IsProper)
    (ih : ∀ t ∈ ts, t.IsTold) (hu : ∀ u ∈ us, u.IsProper) {y z : List Char} (hy : Stops y)
    (hz : Stops z) (h : genericChars ts ++ y = genericChars us ++ z) : ts = us ∧ y = z := by
  -- No text that stops a type opens a bracket.
  have hopen : ∀ cs : List Char, ¬Stops ('<' :: cs) := fun cs hs => absurd (hs '<' rfl) (by decide)
  unfold genericChars at h
  split at h <;> split at h <;>
    simp only [List.cons_append, List.append_assoc, List.nil_append, List.cons.injEq, true_and] at h
  case isTrue.isTrue hts hus => exact ⟨hts.trans hus.symm, h⟩
  case isTrue.isFalse => exact absurd (h ▸ hy) (hopen _)
  case isFalse.isTrue => exact absurd (h ▸ hz) (hopen _)
  case isFalse.isFalse =>
    obtain ⟨rfl, hrest⟩ := typeList_append_inj ht ih hu (Or.inr (Or.inl ⟨y, rfl⟩))
      (Or.inr (Or.inl ⟨z, rfl⟩)) h
    exact ⟨rfl, (List.cons.inj hrest).2⟩

theorem isTold_path {segments : List Value} {generics : List TypeExpr} (hne : segments ≠ [])
    (hs : ∀ s ∈ segments, IsSegment s) (hg : ∀ t ∈ generics, t.IsProper)
    (ih : ∀ t ∈ generics, t.IsTold) : (path segments generics).IsTold := by
  intro u y z hu hy hz h
  have hlead := lead_eq_of_append_eq (.path hne hs hg) hu hy hz h
  cases hu with
  | @path segments' generics' hne' hs' hg' =>
    rw [chars_path, chars_path, List.append_assoc, List.append_assoc] at h
    obtain ⟨rfl, hrest⟩ := intercalate_append_inj separates_segments hs
      (fun s hs' => isClear_segment (hs s hs')) hs' (hy.endsPath_genericChars generics)
      (hz.endsPath_genericChars generics') h
    obtain ⟨rfl, rfl⟩ := genericChars_append_inj hg ih hg' hy hz hrest
    exact ⟨rfl, rfl⟩
  | _ => cases hlead

theorem isTold_pointer {isMutable : Bool} {t : TypeExpr} (ht : t.IsProper) (ih : t.IsTold) :
    (pointer isMutable t).IsTold := by
  intro u y z hu hy hz h
  have hlead := lead_eq_of_append_eq (.pointer ht) hu hy hz h
  cases hu with
  | @pointer isMutable' t' ht' =>
    simp only [chars_pointer, List.cons_append, List.append_assoc, List.cons.injEq, true_and] at h
    have hsame : isMutable = isMutable' := by
      cases isMutable <;> cases isMutable' <;> first | rfl | simp at h
    subst hsame
    obtain ⟨rfl, rfl⟩ := ih t' y z ht' hy hz (List.append_cancel_left h)
    exact ⟨rfl, rfl⟩
  | _ => cases hlead

/-- A length that is a natural number is written in digits. -/
theorem length_append_inj {m n : Int} (hm : 0 ≤ m) (hn : 0 ≤ n) {y z : List Char}
    (h : (toString m).toList ++ ']' :: y = (toString n).toList ++ ']' :: z) : m = n ∧ y = z := by
  have hdigits : ∀ {n : Int}, 0 ≤ n → (toString n).toList = Nat.toDigits 10 n.toNat := by
    intro n hn
    obtain ⟨k, rfl⟩ := Int.eq_ofNat_of_zero_le hn
    exact Nat.toList_repr
  have hrun : ∀ n : Nat, ∀ c ∈ Nat.toDigits 10 n, c.isDigit :=
    fun n c hc => Nat.isDigit_of_mem_toDigits (by decide) (by decide) hc
  rw [hdigits hm, hdigits hn] at h
  obtain ⟨hsame, hrest⟩ := append_inj_of_forall (hrun _) (hrun _) (by simp) (by simp) h
  have hmn : m.toNat = n.toNat := by
    rw [← Nat.ofDigitChars_toDigits (b := 10) (n := m.toNat) (by decide) (by decide), hsame,
      Nat.ofDigitChars_toDigits (by decide) (by decide)]
  exact ⟨by omega, (List.cons.inj hrest).2⟩

theorem isTold_array {t : TypeExpr} {n : Int} (ht : t.IsProper) (hn : 0 ≤ n) (ih : t.IsTold) :
    (array t (.int n)).IsTold := by
  intro u y z hu hy hz h
  have hlead := lead_eq_of_append_eq (.array ht hn) hu hy hz h
  cases hu with
  | @array t' n' ht' hn' =>
    simp only [chars_array, List.cons_append, List.append_assoc, List.nil_append,
      List.cons.injEq, true_and] at h
    obtain ⟨rfl, hrest⟩ := ih t' _ _ ht' (by simp [Stops]) (by simp [Stops]) h
    obtain ⟨rfl, rfl⟩ := length_append_inj hn hn' (List.cons.inj (List.cons.inj hrest).2).2
    exact ⟨rfl, rfl⟩
  | @slice t' ht' =>
    -- Both begin with a bracket, so only what follows the element tells them apart.
    simp only [chars_array, chars_slice, List.cons_append, List.append_assoc, List.nil_append,
      List.cons.injEq, true_and] at h
    cases (ih t' _ _ ht' (by simp [Stops]) (by simp [Stops]) h).2
  | _ => cases hlead

theorem isTold_slice {t : TypeExpr} (ht : t.IsProper) (ih : t.IsTold) : (slice t).IsTold := by
  intro u y z hu hy hz h
  have hlead := lead_eq_of_append_eq (.slice ht) hu hy hz h
  cases hu with
  | @slice t' ht' =>
    simp only [chars_slice, List.cons_append, List.append_assoc, List.nil_append,
      List.cons.injEq, true_and] at h
    obtain ⟨rfl, hrest⟩ := ih t' _ _ ht' (by simp [Stops]) (by simp [Stops]) h
    exact ⟨rfl, (List.cons.inj hrest).2⟩
  | @array t' n' ht' hn' =>
    simp only [chars_array, chars_slice, List.cons_append, List.append_assoc, List.nil_append,
      List.cons.injEq, true_and] at h
    cases (ih t' _ _ ht' (by simp [Stops]) (by simp [Stops]) h).2
  | _ => cases hlead

theorem isTold_tuple {ts : List TypeExpr} (ht : ∀ t ∈ ts, t.IsProper) (ih : ∀ t ∈ ts, t.IsTold) :
    (tuple ts).IsTold := by
  intro u y z hu hy hz h
  have hlead := lead_eq_of_append_eq (.tuple ht) hu hy hz h
  cases hu with
  | @tuple ts' ht' =>
    have hcloses : ∀ (ts : List TypeExpr) (y : List Char),
        Closes ((if ts.length = 1 then [',', ')'] else [')']) ++ y) := by
      intro ts y
      split <;> simp [Closes]
    simp only [chars_tuple, List.cons_append, List.append_assoc, List.cons.injEq, true_and] at h
    obtain ⟨rfl, hrest⟩ := typeList_append_inj ht ih ht' (hcloses ts y) (hcloses ts' z) h
    exact ⟨rfl, List.append_cancel_left hrest⟩
  | _ => cases hlead

theorem isTold_never : never.IsTold := by
  intro u y z hu hy hz h
  have hlead := lead_eq_of_append_eq .never hu hy hz h
  cases hu with
  | never => exact ⟨rfl, List.append_cancel_left h⟩
  | _ => cases hlead

theorem mutChars_append_inj {isMutable isMutable' : Bool} {t t' : TypeExpr} (ht : t.IsProper)
    (ht' : t'.IsProper) {y z : List Char} (hy : Stops y) (hz : Stops z)
    (h : mutChars isMutable ++ (t.chars ++ y) = mutChars isMutable' ++ (t'.chars ++ z)) :
    isMutable = isMutable' ∧ t.chars ++ y = t'.chars ++ z := by
  cases isMutable <;> cases isMutable' <;>
    simp only [mutChars, reduceIte, Bool.false_eq_true, List.nil_append] at h
  case false.false => exact ⟨rfl, h⟩
  case false.true => cases (lead?_mut _).symm.trans (h ▸ lead?_chars ht hy)
  case true.false => cases (lead?_mut _).symm.trans (h ▸ lead?_chars ht' hz)
  case true.true => exact ⟨rfl, List.append_cancel_left h⟩

theorem mutChars_append_ne_quote {isMutable : Bool} {t : TypeExpr} (ht : t.IsProper)
    {y : List Char} (hy : Stops y) (cs : List Char) :
    mutChars isMutable ++ (t.chars ++ y) ≠ '\'' :: cs := by
  cases isMutable <;> intro h
  · have hlead : lead? ('\'' :: cs) = some t.lead := h ▸ lead?_chars ht hy
    cases (lead?_of_isMark rfl cs).symm.trans hlead
  · cases h

theorem lifetimeChars_append_inj {l l' : Value} (hl : l = .null ∨ IsLifetime l)
    (hl' : l' = .null ∨ IsLifetime l') {y z : List Char} (hy : ∀ cs, y ≠ '\'' :: cs)
    (hz : ∀ cs, z ≠ '\'' :: cs) (h : lifetimeChars l ++ y = lifetimeChars l' ++ z) :
    l = l' ∧ y = z := by
  have hwrite : ∀ {l : Value}, IsLifetime l → lifetimeChars l = valueChars l ++ [' '] := by
    rintro _ ⟨-, -⟩
    simp [lifetimeChars, Value.isTrue]
  have hquote : ∀ {l : Value}, IsLifetime l → ∀ y, ∃ cs, lifetimeChars l ++ y = '\'' :: cs := by
    rintro _ ⟨-, -⟩ y
    simp [lifetimeChars, Value.isTrue, valueChars, Value.plain]
  rcases hl with rfl | hl <;> rcases hl' with rfl | hl'
  · exact ⟨rfl, h⟩
  · obtain ⟨cs, hcs⟩ := hquote hl' z
    exact absurd (h.trans hcs) (hy cs)
  · obtain ⟨cs, hcs⟩ := hquote hl y
    exact absurd (h.symm.trans hcs) (hz cs)
  · rw [hwrite hl, hwrite hl', List.append_assoc, List.append_assoc] at h
    obtain ⟨rfl, hrest⟩ := isClear_lifetime hl l' _ _ hl' (by simp [Breaks, isMark])
      (by simp [Breaks, isMark]) h
    exact ⟨rfl, List.append_cancel_left hrest⟩

theorem isTold_reference {isMutable : Bool} {lifetime : Value} {t : TypeExpr} (ht : t.IsProper)
    (hl : lifetime = .null ∨ IsLifetime lifetime) (ih : t.IsTold) :
    (reference isMutable lifetime t).IsTold := by
  intro u y z hu hy hz h
  have hlead := lead_eq_of_append_eq (.reference ht hl) hu hy hz h
  cases hu with
  | @reference isMutable' lifetime' t' ht' hl' =>
    simp only [chars_reference, List.cons_append, List.append_assoc, List.cons.injEq, true_and] at h
    obtain ⟨rfl, hrest⟩ := lifetimeChars_append_inj hl hl' (mutChars_append_ne_quote ht hy)
      (mutChars_append_ne_quote ht' hz) h
    obtain ⟨rfl, htarget⟩ := mutChars_append_inj ht ht' hy hz hrest
    obtain ⟨rfl, rfl⟩ := ih t' y z ht' hy hz htarget
    exact ⟨rfl, rfl⟩
  | _ => cases hlead

theorem binderChars_append_inj {ls ls' : List Value} (hl : ∀ l ∈ ls, IsLifetime l)
    (hl' : ∀ l ∈ ls', IsLifetime l) {y z : List Char}
    (h : binderChars ls ++ ("fn(".toList ++ y) = binderChars ls' ++ ("fn(".toList ++ z)) :
    ls = ls' ∧ y = z := by
  unfold binderChars at h
  split at h <;> split at h
  case isTrue.isTrue hls hls' => exact ⟨hls.trans hls'.symm, List.append_cancel_left h⟩
  case isTrue.isFalse => simp at h
  case isFalse.isTrue => simp at h
  case isFalse.isFalse =>
    simp only [List.append_assoc] at h
    obtain ⟨rfl, hrest⟩ := intercalate_append_inj separates_lifetimes hl
      (fun l hl' => isClear_lifetime (hl l hl')) hl' (Or.inr (Or.inl ⟨_, rfl⟩))
      (Or.inr (Or.inl ⟨_, rfl⟩)) (List.append_cancel_left h)
    exact ⟨rfl, (List.append_right_inj "> fn(".toList).1 hrest⟩

theorem output_append_inj {o o' : Option TypeExpr} (ih : ∀ t ∈ o, t.IsTold)
    (ho' : ∀ t ∈ o', t.IsProper) {y z : List Char} (hy : Stops y) (hz : Stops z)
    (h : (outputText o).toList ++ y = (outputText o').toList ++ z) : o = o' ∧ y = z := by
  have harrow : ∀ cs : List Char, ¬Stops (" -> ".toList ++ cs) :=
    fun cs hs => absurd (hs ' ' rfl) (by decide)
  cases o <;> cases o' <;>
    simp only [outputText, String.toList_append, List.append_assoc, String.toList_empty,
      List.nil_append] at h
  case none.none => exact ⟨rfl, h⟩
  case none.some t' => exact absurd (h ▸ hy) (harrow _)
  case some.none t => exact absurd (h ▸ hz) (harrow _)
  case some.some t t' =>
    obtain ⟨rfl, rfl⟩ := ih t rfl t' y z (ho' t' rfl) hy hz (List.append_cancel_left h)
    exact ⟨rfl, rfl⟩

theorem isTold_function {params : List Param} {output : Option TypeExpr} {lifetimes : List Value}
    (hp : ∀ p ∈ params, IsPattern p.pattern) (ht : ∀ p ∈ params, p.type.IsProper)
    (ho : ∀ t ∈ output, t.IsProper) (hl : ∀ l ∈ lifetimes, IsLifetime l)
    (iht : ∀ p ∈ params, p.type.IsTold) (iho : ∀ t ∈ output, t.IsTold) :
    (function params output lifetimes).IsTold := by
  intro u y z hu hy hz h
  have hlead := lead_eq_of_append_eq (.function hp ht ho hl) hu hy hz h
  cases hu with
  | @function params' output' lifetimes' hp' ht' ho' hl' =>
    simp only [chars_function, List.append_assoc, List.cons_append] at h
    obtain ⟨rfl, hlisted⟩ := binderChars_append_inj hl hl' h
    obtain ⟨rfl, hrest⟩ := intercalate_append_inj separates_params (fun p hm => ⟨hp p hm, ht p hm⟩)
      (fun p hm => isClear_param (hp p hm) (ht p hm) (iht p hm)) (fun p hm => ⟨hp' p hm, ht' p hm⟩)
      (Or.inl ⟨_, rfl⟩) (Or.inl ⟨_, rfl⟩) hlisted
    obtain ⟨rfl, rfl⟩ := output_append_inj iho ho' hy hz (List.cons.inj hrest).2
    exact ⟨rfl, rfl⟩
  | _ => cases hlead

theorem isTold_of_isProper {t : TypeExpr} (ht : t.IsProper) : t.IsTold := by
  induction ht with
  | path hne hs hg ih => exact isTold_path hne hs hg ih
  | pointer ht ih => exact isTold_pointer ht ih
  | array ht hn ih => exact isTold_array ht hn ih
  | function hp ht ho hl iht iho => exact isTold_function hp ht ho hl iht iho
  | tuple ht ih => exact isTold_tuple ht ih
  | never => exact isTold_never
  | reference ht hl ih => exact isTold_reference ht hl ih
  | slice ht ih => exact isTold_slice ht ih

/-- Proper types can be written, and no two of them are written alike. -/
theorem text_injective {t u : TypeExpr} (ht : t.IsProper) (hu : u.IsProper) :
    t.isPrintable ∧ u.isPrintable ∧ (t.text = u.text → t = u) := by
  refine ⟨ht.isPrintable, hu.isPrintable, fun h => ?_⟩
  have hnil : Stops [] := by simp [Stops]
  have hchars : t.chars ++ [] = u.chars ++ [] := by rw [chars, chars, h]
  exact (isTold_of_isProper ht u [] [] hu hnil hnil hchars).1

/-- With the unit type as output, this is written
`for<'a> fn(mut x: &'a mut [io::Line<(u8,)>], [*const !; 3]) -> ()`. -/
def callback (output : Option TypeExpr) : TypeExpr :=
  function
    [.mk (.text "mut x") (reference true (.text "'a") (slice (path [.text "io", .text "Line"]
      [tuple [named "u8"]]))),
     .mk (.text "") (array (pointer false never) (.int 3))] output [.text "'a"]

theorem isProper_callback {output : Option TypeExpr} (ho : ∀ t ∈ output, t.IsProper) :
    (callback output).IsProper := by
  have hname : ∀ {x : String}, isIdentifier x.toList ∧ x ∉ sourceKeywords → IsSourceName x :=
    fun h => isSourceName_of_isIdentifier h.1 h.2
  have hlifetime : IsLifetime (.text "'a") := .mk (x := "a") (by decide) (by simp [isMark])
  have hbyte : (named "u8").IsProper :=
    .path (by simp) (by simpa using ⟨"u8", rfl, hname (by decide)⟩) (by simp)
  have hline : (path [.text "io", .text "Line"] [tuple [named "u8"]]).IsProper :=
    .path (by simp)
      (by simpa using ⟨⟨"io", rfl, hname (by decide)⟩, ⟨"Line", rfl, hname (by decide)⟩⟩)
      (by simpa using .tuple (by simpa using hbyte))
  refine .function ?_ ?_ ho (by simpa using hlifetime)
  · have hx : IsPattern (.text "mut x") := .mutable (x := "x") (hname (by decide))
    simpa [Param.pattern] using ⟨hx, .missing⟩
  · simpa [Param.type] using
      ⟨.reference (.slice hline) (.inr hlifetime), .array (.pointer .never) (by decide)⟩

theorem text_injective_callback :
    (callback none).IsProper ∧ (callback (some unit)).IsProper ∧
      (callback none).text ≠ (callback (some unit)).text := by
  have hnone : (callback none).IsProper := isProper_callback nofun
  have hunit : (callback (some unit)).IsProper := isProper_callback (by simpa using .tuple nofun)
  obtain ⟨-, -, hsame⟩ := text_injective hnone hunit
  exact ⟨hnone, hunit, fun h => nomatch hsame h⟩

end FfiHeaders.TypeExpr
