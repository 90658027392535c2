import Mathlib.Data.List.Basic

/-!
# Lists told from their text

Items are written one after the other with a separator between them. If each item is told from its
text, whatever follows it, then so is the whole list, provided that what closes the list is neither the
separator nor an item.
-/
namespace FfiHeaders

namespace Written

variable {α : Type} {write : α → List Char} {ok : α → Prop} {follows closes : List Char → Prop}
variable {sep : List Char}

/-- Before any text that may follow, `a` is written like nothing else. -/
def IsClear (write : α → List Char) (ok : α → Prop) (follows : List Char → Prop) (a : α) : Prop :=
  ∀ b y z, ok b → follows y → follows z → write a ++ y = write b ++ z → a = b ∧ y = z

/-- The separator can be told from the texts that close a list, and an item from these. -/
structure Separates (sep : List Char) (write : α → List Char) (ok : α → Prop)
    (follows closes : List Char → Prop) : Prop where
  sep_follows : ∀ y, follows (sep ++ y)
  closes_follows : ∀ y, closes y → follows y
  sep_not_closes : ∀ y, ¬closes (sep ++ y)
  item_not_closes : ∀ a y, ok a → follows y → ¬closes (write a ++ y)

/-- What follows an item of a list: the separator and further items, or what follows the list. -/
def continued (sep : List Char) (write : α → List Char) (as : List α) (y : List Char) : List Char :=
  match as with
  | [] => y
  | a :: as => sep ++ (sep.intercalate ((a :: as).map write) ++ y)

theorem intercalate_cons_append (sep : List Char) (write : α → List Char) (a : α) (as : List α)
    (y : List Char) :
    sep.intercalate ((a :: as).map write) ++ y = write a ++ continued sep write as y := by
  cases as with
  | nil => simp [continued]
  | cons b bs =>
    simp only [List.map_cons, List.intercalate_cons_cons, continued, List.append_assoc]

theorem Separates.follows_continued (hs : Separates sep write ok follows closes) (as : List α)
    {y : List Char} (hy : closes y) : follows (continued sep write as y) := by
  cases as with
  | nil => exact hs.closes_follows y hy
  | cons a as => exact hs.sep_follows _

/-- A list is told from its text if each of its items is. -/
theorem intercalate_append_inj (hs : Separates sep write ok follows closes) {as : List α}
    (has : ∀ a ∈ as, ok a) (hclear : ∀ a ∈ as, IsClear write ok follows a) :
    ∀ {bs : List α} {y z : List Char}, (∀ b ∈ bs, ok b) → closes y → closes z →
      sep.intercalate (as.map write) ++ y = sep.intercalate (bs.map write) ++ z → as = bs ∧ y = z := by
  induction as with
  | nil =>
    intro bs y z hbs hy hz h
    cases bs with
    | nil => exact ⟨rfl, h⟩
    | cons b bs =>
      rw [intercalate_cons_append] at h
      have hb := hs.item_not_closes b _ (hbs b List.mem_cons_self) (hs.follows_continued bs hz)
      exact absurd (h ▸ hy) hb
  | cons a as ih =>
    intro bs y z hbs hy hz h
    have ha := has a List.mem_cons_self
    cases bs with
    | nil =>
      rw [intercalate_cons_append] at h
      exact absurd (h ▸ hz) (hs.item_not_closes a _ ha (hs.follows_continued as hy))
    | cons b bs =>
      rw [intercalate_cons_append, intercalate_cons_append] at h
      obtain ⟨rfl, hrest⟩ := hclear a List.mem_cons_self b _ _ (hbs b List.mem_cons_self)
        (hs.follows_continued as hy) (hs.follows_continued bs hz) h
      cases as with
      | nil =>
        cases bs with
        | nil => exact ⟨rfl, hrest⟩
        | cons b bs =>
          have hy' : closes (continued sep write [] y) := hy
          exact absurd (hrest ▸ hy') (hs.sep_not_closes _)
      | cons a' as =>
        cases bs with
        | nil =>
          have hz' : closes (continued sep write [] z) := hz
          exact absurd (hrest ▸ hz') (hs.sep_not_closes _)
        | cons b bs =>
          obtain ⟨htail, hyz⟩ := ih (fun x hx => has x (List.mem_cons_of_mem a hx))
            (fun x hx => hclear x (List.mem_cons_of_mem a hx))
            (fun x hx => hbs x (List.mem_cons_of_mem a hx)) hy hz (List.append_cancel_left hrest)
          exact ⟨congrArg (a :: ·) htail, hyz⟩

/-- A run of characters of one kind ends where another kind begins. -/
theorem span_run {p : Char → Bool} {v y : List Char} (hv : ∀ c ∈ v, p c)
    (hy : ∀ c ∈ y.head?, p c = false) : (v ++ y).takeWhile p = v ∧ (v ++ y).dropWhile p = y := by
  rw [List.takeWhile_append_of_pos hv, List.dropWhile_append_of_pos hv]
  cases y with
  | nil => simp
  | cons c cs => simp [hy c rfl]

theorem append_inj_of_forall {p : Char → Bool} {v w y z : List Char} (hv : ∀ c ∈ v, p c)
    (hw : ∀ c ∈ w, p c) (hy : ∀ c ∈ y.head?, p c = false) (hz : ∀ c ∈ z.head?, p c = false)
    (h : v ++ y = w ++ z) : v = w ∧ y = z := by
  obtain ⟨hv', hy'⟩ := span_run hv hy
  obtain ⟨hw', hz'⟩ := span_run hw hz
  exact ⟨hv'.symm.trans ((congrArg _ h).trans hw'), hy'.symm.trans ((congrArg _ h).trans hz')⟩

end Written

end FfiHeaders
