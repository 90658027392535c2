/-!
# Line ends

A line of a text file may end in a line feed, a carriage return or both. Inside the program it always
ends in a line feed.
-/
namespace FfiHeaders.Text

/-- The text with each line end written as one line feed. -/
def unifyNewlines : List Char → List Char
  | [] => []
  | '\r' :: '\n' :: cs => '\n' :: unifyNewlines cs
  | c :: cs => (if c = '\r' then '\n' else c) :: unifyNewlines cs

example : unifyNewlines ['a', '\r', '\n', '\r', 'b', '\n', '\r'] =
    ['a', '\n', '\n', 'b', '\n', '\n'] := rfl

end FfiHeaders.Text
