namespace ObjectWrapper
namespace Source

/-!
# Tokens

A token is a lexical unit of C-family source with its kind, the physical line
it begins on, and its text.  Lines count from one; line zero belongs to tokens
that come from the command line.  Two kinds do not come from any source text:
they mark where the content of an included file begins and ends.
-/

/-- The lexical category of a token. -/
inductive TokenKind where
  /-- One line end. -/
  | newline
  /-- A run of blanks, or a comment. -/
  | whitespace
  /-- `"…"`, possibly with an encoding prefix. -/
  | stringLiteral
  /-- `'…'`, possibly with an encoding prefix. -/
  | charLiteral
  | identifier
  /-- A preprocessing number, which need not be a number of the language. -/
  | number
  | punctuator
  | includeBegin
  | includeEnd
  /-- A character that begins no other token. -/
  | other
deriving DecidableEq, Repr

/-- Blank tokens separate others and carry no text of their own. -/
def TokenKind.isBlank : TokenKind -> Bool
  | .newline | .whitespace => true
  | _ => false

/-- Markers delimit the content of an included file. -/
def TokenKind.isMarker : TokenKind -> Bool
  | .includeBegin | .includeEnd => true
  | _ => false

/-- A lexical unit with its place and text. -/
structure Token where
  kind : TokenKind
  line : Nat
  lexeme : String
deriving DecidableEq, Repr

namespace Token

def isBlank (token : Token) : Bool :=
  token.kind.isBlank

def isNewline (token : Token) : Bool :=
  token.kind == .newline

def isWhitespace (token : Token) : Bool :=
  token.kind == .whitespace

def isIdentifier (token : Token) : Bool :=
  token.kind == .identifier

/-- Whether the token is the given punctuator. -/
def isPunctuator (token : Token) (text : String) : Bool :=
  token.kind == .punctuator && token.lexeme == text

def isOpeningBrace (token : Token) : Bool :=
  token.isPunctuator "\x7b"

def isClosingBrace (token : Token) : Bool :=
  token.isPunctuator "\x7d"

/-- Whether the token is the identifier of the given name. -/
def isName (token : Token) (name : String) : Bool :=
  token.kind == .identifier && token.lexeme == name

/-- The same token on another line. -/
def atLine (token : Token) (line : Nat) : Token :=
  { token with line := line }

/-- A token is one punctuator at most. -/
theorem isPunctuator_of_ne {token : Token} {text other : String}
    (isText : token.isPunctuator text = true) (differs : text ≠ other) :
    token.isPunctuator other = false := by
  simp only [isPunctuator, Bool.and_eq_true, beq_iff_eq] at isText
  rw [isPunctuator, isText.2, beq_eq_false_iff_ne.mpr differs, Bool.and_false]

theorem kind_of_isPunctuator {token : Token} {text : String}
    (isText : token.isPunctuator text = true) : token.kind = .punctuator := by
  simp only [isPunctuator, Bool.and_eq_true, beq_iff_eq] at isText
  exact isText.1

theorem isBlank_of_isPunctuator {token : Token} {text : String}
    (isText : token.isPunctuator text = true) : token.isBlank = false := by
  rw [isBlank, kind_of_isPunctuator isText]
  rfl

theorem isIdentifier_of_isPunctuator {token : Token} {text : String}
    (isText : token.isPunctuator text = true) : token.isIdentifier = false := by
  rw [isIdentifier, kind_of_isPunctuator isText]
  rfl

theorem isPunctuator_of_isIdentifier {token : Token} (identifier : token.isIdentifier = true)
    (text : String) : token.isPunctuator text = false := by
  simp only [isIdentifier, beq_iff_eq] at identifier
  rw [isPunctuator, identifier]
  rfl

end Token

/-- The tokens without the blank ones at either end. -/
def trimBlanks (tokens : List Token) : List Token :=
  ((tokens.dropWhile Token.isBlank).reverse.dropWhile Token.isBlank).reverse

/-- The texts of the tokens, one after the other. -/
def joinLexemes (tokens : List Token) : String :=
  String.join (tokens.map Token.lexeme)

end Source
end ObjectWrapper
