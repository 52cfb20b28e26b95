namespace ObjectWrapper
namespace Source

/-!
# Characters in their physical lines

A backslash directly before a line end joins two lines, so that a token may
continue across them.  The line end is LF or CRLF.  Such splices are removed
before anything else is read, while every remaining character keeps the number
of the physical line it stands on.
-/

/-- A character and the line it stands on. -/
structure Located where
  character : Char
  line : Nat
deriving DecidableEq, Repr

/-- The characters that remain once splices are removed, the first of the
given text standing on `line`. -/
def locate (line : Nat) : List Char -> List Located
  | [] => []
  | '\\' :: '\n' :: rest => locate (line + 1) rest
  | '\\' :: '\r' :: '\n' :: rest => locate (line + 1) rest
  | character :: rest =>
    ⟨character, line⟩ :: locate (if character = '\n' then line + 1 else line) rest

end Source
end ObjectWrapper
