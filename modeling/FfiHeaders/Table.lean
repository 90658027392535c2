/-!
# Tables in order of insertion

A table maps keys to values and remembers the order in which its keys were first set. The key list is
duplicate-free by construction.
-/
namespace FfiHeaders

structure Table (κ ν : Type) where
  entries : List (κ × ν)
  nodup : (entries.map (·.1)).Nodup

namespace Table

variable {κ ν : Type}

def empty : Table κ ν := ⟨[], List.nodup_nil⟩

def keys (t : Table κ ν) : List κ := t.entries.map (·.1)

def isEmpty (t : Table κ ν) : Bool := t.entries.isEmpty

@[simp] theorem keys_empty : (empty : Table κ ν).keys = [] := rfl

theorem nodup_keys (t : Table κ ν) : t.keys.Nodup := t.nodup

variable [DecidableEq κ]

/-- The value of the first entry under `k`. -/
def lookup (k : κ) : List (κ × ν) → Option ν
  | [] => none
  | e :: es => if e.1 = k then some e.2 else lookup k es

/-- The entries with the value of `k` replaced, or with a new entry at the end. -/
def put (k : κ) (v : ν) : List (κ × ν) → List (κ × ν)
  | [] => [(k, v)]
  | e :: es => if e.1 = k then (k, v) :: es else e :: put k v es

theorem map_fst_put (k : κ) (v : ν) (es : List (κ × ν)) :
    (put k v es).map (·.1) =
      if k ∈ es.map (·.1) then es.map (·.1) else es.map (·.1) ++ [k] := by
  induction es with
  | nil => rfl
  | cons e es ih =>
    by_cases h : e.1 = k
    · simp [put, h]
    · have h' : ¬k = e.1 := fun hk => h hk.symm
      simp only [put, h, if_false, List.map_cons, ih, List.mem_cons, h', false_or]
      split <;> rfl

theorem lookup_put (k k' : κ) (v : ν) (es : List (κ × ν)) :
    lookup k' (put k v es) = if k = k' then some v else lookup k' es := by
  induction es with
  | nil => simp [put, lookup]
  | cons e es ih => by_cases h : e.1 = k <;> by_cases h' : k = k' <;> simp_all [put, lookup]

theorem lookup_eq_none_iff {k : κ} {es : List (κ × ν)} :
    lookup k es = none ↔ k ∉ es.map (·.1) := by
  induction es with
  | nil => simp [lookup]
  | cons e es ih => by_cases h : e.1 = k <;> simp_all [lookup, eq_comm]

theorem mem_of_lookup {k : κ} {v : ν} {es : List (κ × ν)} (h : lookup k es = some v) :
    (k, v) ∈ es := by
  induction es with
  | nil => cases h
  | cons e es ih =>
    rw [lookup] at h
    split at h
    · next he =>
      obtain rfl := Option.some.inj h
      exact he ▸ List.mem_cons_self
    · exact List.mem_cons_of_mem e (ih h)

def get? (t : Table κ ν) (k : κ) : Option ν := lookup k t.entries

def contains (t : Table κ ν) (k : κ) : Bool := (t.get? k).isSome

def set (t : Table κ ν) (k : κ) (v : ν) : Table κ ν where
  entries := put k v t.entries
  nodup := by
    rw [map_fst_put]
    split
    · exact t.nodup
    · exact List.nodup_append.2 ⟨t.nodup, by simp, fun a ha b hb => by simp_all; grind⟩

/-- The table of a list, where the last value of a key counts. -/
def ofList (es : List (κ × ν)) : Table κ ν := es.foldl (fun t e => t.set e.1 e.2) empty

theorem get?_set (t : Table κ ν) (k k' : κ) (v : ν) :
    (t.set k v).get? k' = if k = k' then some v else t.get? k' :=
  lookup_put k k' v t.entries

theorem keys_set (t : Table κ ν) (k : κ) (v : ν) :
    (t.set k v).keys = if k ∈ t.keys then t.keys else t.keys ++ [k] :=
  map_fst_put k v t.entries

theorem mem_keys_set {t : Table κ ν} {k k' : κ} {v : ν} :
    k' ∈ (t.set k v).keys ↔ k' = k ∨ k' ∈ t.keys := by
  rw [keys_set]
  by_cases h : k ∈ t.keys
  · rw [if_pos h]
    exact ⟨Or.inr, fun hk => hk.elim (fun e => e ▸ h) id⟩
  · rw [if_neg h, List.mem_append, List.mem_singleton]
    exact Or.comm

theorem mem_keys_of_get? {t : Table κ ν} {k : κ} {v : ν} (h : t.get? k = some v) : k ∈ t.keys := by
  refine Decidable.byContradiction fun hk => ?_
  rw [get?, lookup_eq_none_iff.2 hk] at h
  exact absurd h (by simp)

theorem contains_iff {t : Table κ ν} {k : κ} : t.contains k ↔ k ∈ t.keys := by
  simp only [contains, Option.isSome_iff_ne_none, ne_eq, get?, lookup_eq_none_iff, keys,
    Decidable.not_not]

end Table

/-- The texts in order of their code points. -/
def sortTexts (ss : List String) : List String := ss.mergeSort fun a b => a ≤ b

theorem perm_sortTexts (ss : List String) : (sortTexts ss).Perm ss :=
  List.mergeSort_perm ss _

@[simp] theorem mem_sortTexts {s : String} {ss : List String} : s ∈ sortTexts ss ↔ s ∈ ss :=
  (perm_sortTexts ss).mem_iff

/-- The elements in order of first occurrence, each once. -/
def distinct {α : Type} [DecidableEq α] (xs : List α) : List α :=
  xs.foldl (fun seen x => if x ∈ seen then seen else seen ++ [x]) []

section Distinct

variable {α : Type} [DecidableEq α]

private theorem distinct_from (xs seen : List α) (hs : seen.Nodup) :
    let ys := xs.foldl (fun seen x => if x ∈ seen then seen else seen ++ [x]) seen
    ys.Nodup ∧ ∀ x, x ∈ ys ↔ x ∈ seen ∨ x ∈ xs := by
  induction xs generalizing seen with
  | nil => simp [hs]
  | cons y xs ih =>
    by_cases hy : y ∈ seen
    · obtain ⟨hn, hm⟩ := ih seen hs
      simp only [List.foldl_cons, if_pos hy]
      refine ⟨hn, fun x => (hm x).trans ?_⟩
      rw [List.mem_cons]
      exact ⟨fun h => h.imp_right Or.inr, fun h => h.elim Or.inl fun h =>
        h.elim (fun e => Or.inl (e ▸ hy)) Or.inr⟩
    · have hs' : (seen ++ [y]).Nodup :=
        List.nodup_append.2 ⟨hs, by simp, fun a ha b hb => by simp_all; grind⟩
      obtain ⟨hn, hm⟩ := ih (seen ++ [y]) hs'
      simp only [List.foldl_cons, if_neg hy]
      refine ⟨hn, fun x => (hm x).trans ?_⟩
      rw [List.mem_append, List.mem_singleton, List.mem_cons, or_assoc]

theorem nodup_distinct (xs : List α) : (distinct xs).Nodup :=
  (distinct_from xs [] List.nodup_nil).1

@[simp] theorem mem_distinct {x : α} {xs : List α} : x ∈ distinct xs ↔ x ∈ xs := by
  have h := (distinct_from xs [] List.nodup_nil).2 x
  simpa [distinct] using h

end Distinct

end FfiHeaders
