import FfiHeaders.Document.Quantity
import FfiHeaders.Document.Value

/-!
# Symbols

A symbol is a value that can be looked up by name. Lists and objects cannot, every other value can,
though only words are ever meant. Numbers are one name if they have one value, however they are
written, and a truth value is the number 0 or 1.
-/
namespace FfiHeaders

inductive Symbol
  | word (s : String)
  | null
  | bool (b : Bool)
  | int (n : Int)
  | real (x : Float)
  deriving DecidableEq, Repr

namespace Symbol

def ofValue? : Value → Option Symbol
  | .text s => some (word s)
  | .null => some null
  | .bool b => some (bool b)
  | .int n => some (int n)
  | .real x => some (real x)
  | .list _ | .object _ => none

def toValue : Symbol → Value
  | word s => .text s
  | null => .null
  | bool b => .bool b
  | int n => .int n
  | real x => .real x

theorem toValue_of_ofValue? {v : Value} {s : Symbol} (h : ofValue? v = some s) : s.toValue = v := by
  cases v <;> simp_all [ofValue?] <;> subst h <;> rfl

def isWord : Symbol → Bool
  | word _ => true
  | _ => false

def plain (s : Symbol) : String := s.toValue.plain

/-- The value of a symbol that is a number. -/
def quantity? : Symbol → Option Quantity
  | bool b => some (.ofInt b.toNat)
  | int n => some (.ofInt n)
  | real x => some (.ofDouble x)
  | word _ | null => none

/-- Whether two symbols are one name. -/
def same (a b : Symbol) : Bool :=
  match a.quantity?, b.quantity? with
  | some x, some y => x = y
  | _, _ => a = b

theorem same_refl (a : Symbol) : same a a := by
  unfold same; split <;> simp_all

theorem same_comm (a b : Symbol) : same a b = same b a := by
  unfold same
  cases a.quantity? <;> cases b.quantity? <;> simp [eq_comm]

@[simp] theorem same_word_left {s : String} {b : Symbol} : same (word s) b ↔ word s = b := by
  simp [same, quantity?]

/-- The symbol of `known` that is the same name as `s`, or `s` where there is none. -/
def spelledIn (known : List Symbol) (s : Symbol) : Symbol := (known.find? (same s)).getD s

@[simp] theorem spelledIn_word (known : List Symbol) (s : String) :
    spelledIn known (word s) = word s := by
  unfold spelledIn
  cases h : known.find? (same (word s)) with
  | none => rfl
  | some t => exact (same_word_left.1 (List.find?_some h)).symm

/-- The names in order of first occurrence, each once and as it was first written. -/
def distinct (ss : List Symbol) : List Symbol :=
  ss.foldl (fun seen s => if seen.any (same s) then seen else seen ++ [s]) []

/-- A word is itself wherever it was first written. -/
@[simp] theorem word_mem_distinct {s : String} {ss : List Symbol} :
    word s ∈ distinct ss ↔ word s ∈ ss := by
  suffices h : ∀ seen : List Symbol,
      word s ∈ ss.foldl (fun seen s => if seen.any (same s) then seen else seen ++ [s]) seen ↔
        word s ∈ seen ∨ word s ∈ ss by
    simpa [distinct] using h []
  induction ss with
  | nil => simp
  | cons t ss ih =>
    intro seen
    rw [List.foldl_cons, ih, List.mem_cons]
    by_cases ht : word s = t
    · subst ht
      by_cases hs : word s ∈ seen
      · have : seen.any (same (word s)) = true := List.any_eq_true.2 ⟨_, hs, same_refl _⟩
        simp [this, hs]
      · have : seen.any (same (word s)) = false := by
          rw [List.any_eq_false]
          intro u hu he
          exact hs ((same_word_left.1 he) ▸ hu)
        simp [this]
    · split <;> simp [ht]

/-- Whether `a` may stand before `b`. Words go by code points and numbers by value; other pairs have
no order. -/
def precedes? : Symbol → Symbol → Option Bool
  | word s, word t => some (s ≤ t)
  | a, b =>
    match a.quantity?, b.quantity? with
    | some x, some y => some (x.precedes y)
    | _, _ => none

/-- The symbols in order, if any two of them have one. -/
def sorted? (ss : List Symbol) : Option (List Symbol) :=
  match ss with
  | [] => some []
  | [s] => some [s]
  | s :: _ =>
    if ss.all fun t => (precedes? s t).isSome then
      some (ss.mergeSort fun a b => (precedes? a b).getD true)
    else none

theorem perm_of_sorted? {ss ts : List Symbol} (h : sorted? ss = some ts) : ts.Perm ss := by
  unfold sorted? at h
  split at h
  · cases h
    exact .refl _
  · cases h
    exact .refl _
  · split at h
    · cases h
      exact List.mergeSort_perm _ _
    · cases h

example : distinct [int 1, bool true, int 0, real 1] = [int 1, int 0] := by decide +kernel
example : precedes? (int 3) (bool true) = some false := by decide +kernel
example : sorted? [int 3, word "a"] = none := by decide +kernel

end Symbol

end FfiHeaders
