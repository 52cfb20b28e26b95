import ObjectWrapper.Source.Token

namespace ObjectWrapper
namespace Directive

open Source

/-!
# Text between directives

A source text is read line by line.  A line whose first token other than white
space is `#` is a directive; its tokens are those up to the line end.  All other
tokens, and the line ends after directives, are text.  What counts for macro
expansion is the whole stretch of text between two directives, because an
invocation may run over several lines.
-/

/-- A directive, or the text up to the next one. -/
inductive Piece where
  | text (tokens : List Token)
  /-- The line of the `#` and the tokens after it. -/
  | directive (line : Nat) (tokens : List Token)
deriving DecidableEq, Repr

/-- The lines of a token list, each with its line end. -/
def lines : List Token -> List (List Token)
  | [] => []
  | token :: rest =>
    if token.isNewline then [token] :: lines rest
    else
      match lines rest with
      | [] => [[token]]
      | line :: more => (token :: line) :: more

/-- Put text in front of pieces. -/
def prependText (tokens : List Token) : List Piece -> List Piece
  | .text more :: rest => .text (tokens ++ more) :: rest
  | rest => .text tokens :: rest

/-- Put a line in front of pieces. -/
def prependLine (line : List Token) (rest : List Piece) : List Piece :=
  match line.dropWhile Token.isWhitespace with
  | [] => prependText line rest
  | first :: following =>
    if first.isPunctuator "#" then
      .directive first.line (following.takeWhile (! ·.isNewline)) ::
        prependText (following.dropWhile (! ·.isNewline)) rest
    else prependText line rest

/-- The pieces of a token list. -/
def pieces (tokens : List Token) : List Piece :=
  (lines tokens).foldr prependLine []

end Directive
end ObjectWrapper
