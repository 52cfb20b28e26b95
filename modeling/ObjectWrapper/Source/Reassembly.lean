import ObjectWrapper.Source.Token
import ObjectWrapper.Text.ByteText

namespace ObjectWrapper
namespace Source

/-!
# Text of a token list

Expanded tokens are written as text again in such a way that each of them
stands on its own line number, as far as that is ahead: line feeds are put
before it.  Blank tokens do not break lines, and a run of them is one space.
String literals that follow each other, possibly after blanks, become one
literal.  The first token after the beginning or end of an included file is
placed relative to the line its marker names.
-/

/-- Text that is being put together. -/
structure Draft where
  /-- The characters so far, the last one first. -/
  reversed : List Char
  /-- The line reached, as tokens count lines. -/
  line : Nat
  /-- The kind of the last token written; a run of blanks counts once, as
  white space. -/
  last : Option TokenKind
  /-- The kind of the token written before that. -/
  beforeLast : Option TokenKind
deriving DecidableEq, Repr

namespace Draft

def empty : Draft :=
  ⟨[], 1, none, none⟩

/-- The draft after a token of the given kind whose text is now part of it. -/
def record (draft : Draft) (kind : TokenKind) : Draft :=
  { draft with last := some kind, beforeLast := draft.last }

/-- Append characters. -/
def write (draft : Draft) (characters : List Char) : Draft :=
  { draft with reversed := characters.reverse ++ draft.reversed }

/-- How many characters a string literal takes back to go on with the literal
before it: that one's closing quote, and the space between them. -/
def overlap (draft : Draft) : Nat :=
  if draft.last = some .stringLiteral then 1
  else if draft.last = some .whitespace ∧ draft.beforeLast = some .stringLiteral then 2
  else 0

/-- Write a token on its line. -/
def put (draft : Draft) (token : Token) : Draft :=
  let padded := draft.write (List.replicate (token.line - draft.line) '\n')
  { (padded.record token.kind).write token.lexeme.toList with line := max draft.line token.line }

/-- Write a string literal as the continuation of the one before it. -/
def join (draft : Draft) (token : Token) : Draft :=
  ({ draft with reversed := draft.reversed.drop draft.overlap }.record .stringLiteral).write
    (token.lexeme.toList.drop 1)

/-- Add the next token. -/
def add (draft : Draft) (token : Token) : Draft :=
  match token.kind with
  | .newline | .whitespace =>
    if draft.last = some .whitespace then draft else (draft.record .whitespace).write [' ']
  | .includeBegin => { draft with line := 0 }
  | .includeEnd => { draft with line := token.line }
  | .stringLiteral => if draft.overlap = 0 then draft.put token else draft.join token
  | _ => draft.put token

/-- The text put together. -/
def text (draft : Draft) : String :=
  String.ofList draft.reversed.reverse

end Draft

/-- The text of a token list. -/
def reassemble (tokens : List Token) : String :=
  (tokens.foldl Draft.add Draft.empty).text

/-- The bytes of that text, as they were read. -/
def reassembledBytes (tokens : List Token) : List UInt8 :=
  ByteText.toBytes (reassemble tokens)

end Source
end ObjectWrapper
