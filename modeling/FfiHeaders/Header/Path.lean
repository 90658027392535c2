import FfiHeaders.Failure

/-!
# Header paths and include guards

Each module of the library has one header. The root module is renamed after the library and gets a
directory, so that its header `lib/lib.h` is not the aggregate header `lib.h`.
-/
namespace FfiHeaders.Header

/-- Name of the root module. -/
def rootModule : String := "ffi"

/-- The directories and file name of a module's header, without its extension. -/
def segments (libName : String) : List String → List String
  | [] => []
  | [m] => if m = rootModule then [libName, libName] else [m]
  | m :: ms => (if m = rootModule then libName else m) :: ms

/-- The path of a module's header. -/
def path (libName : String) (module : List String) : String :=
  String.intercalate "/" (segments libName module) ++ ".h"

/-- Whether a path has the name of the library in place of the root module. -/
def namesLibrary (module : List String) : Bool := module.head? = some rootModule

/-- The header of a module whose names come from a document. No name but a text can be part of a
path. -/
def ofModule (libName : Value) (module : List Value) : Except Failure String :=
  if module.isEmpty then .error (.reject .emptyModulePath)
  else
    match Value.texts? module with
    | none => .error (.mismatch .operation)
    | some ms =>
      if namesLibrary ms && !libName.isText then .error (.mismatch .operation)
      else .ok (path libName.plain ms)

theorem ofModule_texts (libName : String) {ms : List String} (h : ms ≠ []) :
    ofModule (.text libName) (ms.map .text) = .ok (path libName ms) := by
  simp [ofModule, h, Value.isText]

theorem exists_of_ofModule_ok {libName : Value} {module : List Value} {h : String}
    (hm : ofModule libName module = .ok h) :
    ∃ ms, ms ≠ [] ∧ module = ms.map .text ∧ h = path libName.plain ms := by
  unfold ofModule at hm
  split at hm
  · cases hm
  · next hne =>
    split at hm
    · cases hm
    · next ms hms =>
      split at hm
      · cases hm
      · obtain rfl := Value.eq_map_text_of_texts? hms
        refine ⟨ms, ?_, rfl, (Except.ok.inj hm).symm⟩
        rintro rfl
        exact hne rfl

/-- The path of the aggregate header, which includes all others. -/
def aggregate (libName : String) : String := libName ++ ".h"

/-- The text from which the guard of the aggregate header is made. -/
def aggregateId (libName : String) : String := libName ++ "_root"

/-- Characters that a guard keeps. -/
def isGuardChar (c : Char) : Bool := c.isAlphanum || c = '_'

/-- The text without the characters that cannot stand in an identifier. -/
def sanitise (s : String) : String := String.ofList (s.toList.filter isGuardChar)

theorem isGuardChar_of_mem_sanitise {s : String} {c : Char} (h : c ∈ (sanitise s).toList) :
    isGuardChar c := by
  simp only [sanitise, String.toList_ofList, List.mem_filter] at h
  exact h.2

/-- The guard of a header. Its fixed start allows the rest to begin with a digit. -/
def guardName (id : String) : String := "bindgen_" ++ sanitise id

/-- The code inside the include guard of `id`. -/
def wrapGuard (code id : String) : String :=
  "#ifndef " ++ guardName id ++ "\n#define " ++ guardName id ++ "\n\n" ++ code ++ "\n\n#endif\n"

/-- The code inside a linkage block that only C++ sees. -/
def wrapExtern (code : String) : String :=
  "#ifdef __cplusplus\nextern \"C\" \x7b\n#endif\n\n" ++ code ++
    "\n\n#ifdef __cplusplus\n\x7d\n#endif"

/-- The headers of the fixed-width types and of `bool`. -/
def standardIncludes : String := "#include <stdint.h>\n#include <stdbool.h>\n"

end FfiHeaders.Header
