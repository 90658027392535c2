import FfiHeaders.Document.Value

/-!
# Source locations
-/
namespace FfiHeaders

/-- Where a declaration stands in its source. The column is null where it is not known. -/
structure Span where
  file : Value
  line : Value
  column : Value
  deriving Inhabited, Repr

def Span.text (s : Span) : String :=
  let place := s.file.plain ++ ":" ++ s.line.plain
  if s.column.isNull then place else place ++ ":" ++ s.column.plain

end FfiHeaders
