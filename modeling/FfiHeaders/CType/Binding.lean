import FfiHeaders.Failure
import FfiHeaders.Text.Blank

/-!
# Names bound by parameter patterns

Only a plain identifier, by value and possibly `mut`, can be named in C. `boundName?` gives that name.
-/
namespace FfiHeaders

/-- A letter of the ASCII alphabet or an underscore. -/
def isNameStart (c : Char) : Bool := c.isAlpha || c = '_'

def isNameChar (c : Char) : Bool := isNameStart c || c.isDigit

theorem isNameStart_iff {c : Char} :
    isNameStart c ↔ 'A' ≤ c ∧ c ≤ 'Z' ∨ 'a' ≤ c ∧ c ≤ 'z' ∨ c = '_' := by
  have hupper : c.isUpper ↔ 'A' ≤ c ∧ c ≤ 'Z' := decide_eq_true_iff
  have hlower : c.isLower ↔ 'a' ≤ c ∧ c ≤ 'z' :=
    Bool.and_eq_true_iff.trans (and_congr decide_eq_true_iff decide_eq_true_iff)
  have hkinds : isNameStart c ↔ (c.isUpper ∨ c.isLower) ∨ c = '_' := by
    change ((c.isUpper || c.isLower) || decide (c = '_')) = true ↔ _
    simp only [Bool.or_eq_true, decide_eq_true_eq]
  rw [hkinds, hupper, hlower, or_assoc]

theorem isNameChar_iff {c : Char} :
    isNameChar c ↔ 'A' ≤ c ∧ c ≤ 'Z' ∨ 'a' ≤ c ∧ c ≤ 'z' ∨ '0' ≤ c ∧ c ≤ '9' ∨ c = '_' := by
  have hdigit : c.isDigit ↔ '0' ≤ c ∧ c ≤ '9' :=
    Bool.and_eq_true_iff.trans (and_congr decide_eq_true_iff decide_eq_true_iff)
  rw [isNameChar, Bool.or_eq_true, isNameStart_iff, hdigit, or_assoc, or_assoc, or_comm (a := c = '_')]

/-- Identifiers are those of C: ASCII letters, digits and underscores, no digit first. -/
def isIdentifier : List Char → Bool
  | [] => false
  | c :: cs => isNameStart c && cs.all isNameChar

theorem all_isNameChar_of_isIdentifier {cs : List Char} (h : isIdentifier cs) :
    ∀ c ∈ cs, isNameChar c := by
  cases cs with
  | nil => cases h
  | cons c cs =>
    obtain ⟨hc, hcs⟩ := Bool.and_eq_true_iff.1 h
    exact List.forall_mem_cons.2 ⟨by rw [isNameChar, hc, Bool.true_or], List.all_eq_true.1 hcs⟩

/-- The identifier that a trimmed pattern binds, with or without `mut` and blanks before it. -/
def boundName? (cs : List Char) : Option (List Char) :=
  if isIdentifier cs then some cs
  else
    match cs with
    | 'm' :: 'u' :: 't' :: b :: r =>
      if Text.isBlank b then
        let name := Text.trimStart r
        if isIdentifier name then some name else none
      else none
    | _ => none

theorem boundName?_of_isIdentifier {cs : List Char} (h : isIdentifier cs) :
    boundName? cs = some cs := by
  simp [boundName?, h]

theorem isIdentifier_of_boundName? {cs name : List Char} (h : boundName? cs = some name) :
    isIdentifier name := by
  unfold boundName? at h
  split at h
  · simp_all
  · split at h
    · split at h
      · grind
      · simp at h
    · simp at h

namespace Param

/-- The trimmed pattern, which has to be a text. -/
def trimmed (p : Value) : Except Failure (List Char) :=
  match p with
  | .text s => .ok (Text.trim s.toList)
  | _ => .error (.mismatch .part)

/-- The name of a parameter of the function `function`. -/
def boundName (pattern : Value) (function : String) : Except Failure String := do
  match boundName? (← trimmed pattern) with
  | some cs => return String.ofList cs
  | none => throw (.reject (.pattern pattern function))

/-- The name of a parameter of a function pointer, which may have none. -/
def pointerBoundName (pattern : Value) (function : String) : Except Failure String := do
  let cs ← trimmed pattern
  if cs = [] || cs = ['_'] then return ""
  else boundName pattern function

end Param

end FfiHeaders
