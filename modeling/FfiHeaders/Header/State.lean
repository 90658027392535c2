import FfiHeaders.CType.Basic
import FfiHeaders.Table

/-!
# The state of a run

What the declarations emitted so far have left behind, header by header.
-/
namespace FfiHeaders

structure State where
  /-- The name of the library, which is kept as it was given until a header needs its text. -/
  libName : Value
  /-- The header that declares each exported type name. -/
  decls : Table Symbol String
  /-- The type names that each header mentions, each once. -/
  deps : Table String (List Symbol)
  /-- The declarations of each header. -/
  outputs : Table String String
  isFinalised : Bool

namespace State

def initial (libName : Value) : State := ⟨libName, .empty, .empty, .empty, false⟩

/-- The text of the library's name. -/
def library (s : State) : String := s.libName.plain

/-- The names that a header mentions. -/
def mentioned (s : State) (header : String) : List Symbol := (s.deps.get? header).getD []

/-- The declarations of a header. -/
def output (s : State) (header : String) : String := (s.outputs.get? header).getD ""

/-- Records that a header mentions the names. -/
def addMentions (s : State) (header : String) (names : List Symbol) : State :=
  if names.isEmpty then s
  else { s with deps := s.deps.set header (Symbol.distinct (s.mentioned header ++ names)) }

/-- Adds declarations at the end of a header. -/
def append (s : State) (header text : String) : State :=
  { s with outputs := s.outputs.set header (s.output header ++ text) }

/-- Makes `header` the home of a type name. -/
def declare (s : State) (name : Symbol) (header : String) : State :=
  { s with decls := s.decls.set (name.spelledIn s.decls.keys) header }

/-- The header that declares a type name. -/
def home? (s : State) (name : Symbol) : Option String :=
  s.decls.get? (name.spelledIn s.decls.keys)

@[simp] theorem addMentions_outputs (s : State) (h : String) (ns : List Symbol) :
    (s.addMentions h ns).outputs = s.outputs := by
  unfold addMentions; split <;> rfl

@[simp] theorem addMentions_decls (s : State) (h : String) (ns : List Symbol) :
    (s.addMentions h ns).decls = s.decls := by
  unfold addMentions; split <;> rfl

@[simp] theorem addMentions_libName (s : State) (h : String) (ns : List Symbol) :
    (s.addMentions h ns).libName = s.libName := by
  unfold addMentions; split <;> rfl

@[simp] theorem addMentions_isFinalised (s : State) (h : String) (ns : List Symbol) :
    (s.addMentions h ns).isFinalised = s.isFinalised := by
  unfold addMentions; split <;> rfl

theorem declare_word (s : State) (n header : String) :
    s.declare (.word n) header = { s with decls := s.decls.set (.word n) header } := by
  simp [declare]

theorem home?_word (s : State) (n : String) : s.home? (.word n) = s.decls.get? (.word n) := by
  simp [home?]

theorem append_output (s : State) (h h' text : String) :
    (s.append h text).output h' = if h = h' then s.output h ++ text else s.output h' := by
  simp only [append, output, Table.get?_set]
  by_cases hh : h = h' <;> simp [hh]

end State

end FfiHeaders
