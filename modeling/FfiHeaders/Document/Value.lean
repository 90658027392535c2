import FfiHeaders.Decimal.Layout
import FfiHeaders.Text.Quoted

/-!
# Document values

The values that a declaration document is made of. An object keeps its members in the order in which
their keys were first written, and no key is written twice. Names and other plain parts of a
declaration stay values until they are needed as text.
-/
namespace FfiHeaders

inductive Value
  | null
  | bool (b : Bool)
  | int (n : Int)
  | real (x : Float)
  | text (s : String)
  | list (items : List Value)
  | object (members : List (String × Value))
  deriving Inhabited, Repr

namespace Value

def isText : Value → Bool
  | text _ => true
  | _ => false

def isNull : Value → Bool
  | null => true
  | _ => false

/-- Everything is true but null, false, zero and what is empty. -/
def isTrue : Value → Bool
  | null => false
  | bool b => b
  | int n => n != 0
  | real x => x != 0
  | text s => s != ""
  | list items => !items.isEmpty
  | object members => !members.isEmpty

mutual

/-- The written form: texts between quotes, and containers member by member. -/
def quoted : Value → String
  | null => "None"
  | bool b => if b then "True" else "False"
  | int n => toString n
  | real x => Decimal.general.text x
  | text s => Text.quoted s
  | list items => "[" ++ quotedItems items ++ "]"
  | object members => "\x7b" ++ quotedMembers members ++ "\x7d"

def quotedItems : List Value → String
  | [] => ""
  | [v] => v.quoted
  | v :: vs => v.quoted ++ ", " ++ quotedItems vs

def quotedMembers : List (String × Value) → String
  | [] => ""
  | [(key, v)] => Text.quoted key ++ ": " ++ v.quoted
  | (key, v) :: ms => Text.quoted key ++ ": " ++ v.quoted ++ ", " ++ quotedMembers ms

end

/-- The text that stands for a value inside other text: a text is itself, all else is quoted. -/
def plain : Value → String
  | text s => s
  | v => v.quoted

@[simp] theorem plain_text (s : String) : (text s).plain = s := rfl

/-- The members read as a table: the value of `key`. -/
def find? (members : List (String × Value)) (key : String) : Option Value :=
  (members.find? fun m => m.1 == key).map (·.2)

/-- The value of `key`, or `default` where the object has none. -/
def getD (members : List (String × Value)) (key : String) (default : Value) : Value :=
  (find? members key).getD default

/-- The text of every value, if all are texts. -/
def texts? : List Value → Option (List String)
  | [] => some []
  | text s :: vs => (texts? vs).map (s :: ·)
  | _ :: _ => none

@[simp] theorem texts?_map_text (ss : List String) : texts? (ss.map text) = some ss := by
  induction ss with
  | nil => rfl
  | cons s ss ih => simp [texts?, ih]

theorem eq_map_text_of_texts? {vs : List Value} {ss : List String} (h : texts? vs = some ss) :
    vs = ss.map text := by
  induction vs generalizing ss with
  | nil => simp_all [texts?]
  | cons v vs ih =>
    cases v with
    | text s =>
      obtain ⟨ts, ht, rfl⟩ := Option.map_eq_some_iff.1 h
      simp [ih ht]
    | _ => simp [texts?] at h

example : (object [("k", real 1), ("l", list [null, text "a"])]).quoted =
    "\x7b'k': 1.0, 'l': [None, 'a']\x7d" := by
  decide +kernel

end Value

end FfiHeaders
