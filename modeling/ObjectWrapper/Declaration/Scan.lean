import ObjectWrapper.Declaration.Class
import ObjectWrapper.Declaration.Head

namespace ObjectWrapper
namespace Declaration

open Source

/-!
# Wrapped classes of a token list

The braces of the main file are followed with a stack of what they belong to.
A marker counts for the class whose body it stands in directly, not for an
enclosing one, and of several markers the last one counts.  A class is found
when its body is closed, so an enclosed class comes before the one around it.
-/

/-- A class whose body is open. -/
structure Candidate where
  name : String
  enclosing : List String
  bases : List String
  line : Nat
  /-- The last marker found in its body. -/
  kind? : Option WrapperKind
deriving DecidableEq, Repr

/-- What an open brace belongs to. -/
inductive Scope where
  /-- A namespace, which may have any number of names. -/
  | named (names : List String)
  | body (candidate : Candidate)
  | block
deriving DecidableEq, Repr

/-- The names that a scope adds to what it encloses. -/
def Scope.names : Scope -> List String
  | .named names => names
  | .body candidate => [candidate.name]
  | .block => []

/-- What is wrong with the structure of declarations, without stopping the
scan. -/
inductive Warning where
  | unbalancedBrace
  | markerOutsideClass (marker : String)
  | unterminatedClass (name : String)
deriving DecidableEq, Repr

/-- The warning in words. -/
def Warning.message : Warning -> String
  | .unbalancedBrace => "Unbalanced '\x7d'"
  | .markerOutsideClass marker => s!"{marker} macro outside of a class declaration"
  | .unterminatedClass name => s!"Unterminated declaration of class {name}"

/-- What a scan comes upon, in order. -/
inductive Finding where
  | wrapped (declared : WrappedClass)
  | warning (line : Nat) (cause : Warning)
deriving DecidableEq, Repr

/-- The class that a candidate is when its body is closed. -/
def Candidate.wrapped? (candidate : Candidate) : Option WrappedClass :=
  candidate.kind?.map fun kind =>
    ⟨candidate.name, candidate.enclosing, candidate.bases, candidate.line, kind⟩

/-- What a scope amounts to when its brace is closed. -/
def Scope.closed : Scope -> List Finding
  | .body candidate => (candidate.wrapped?.map Finding.wrapped).toList
  | _ => []

/-- What a scope amounts to when its brace is never closed. -/
def Scope.unclosed : Scope -> List Finding
  | .body candidate => [.warning candidate.line (.unterminatedClass candidate.name)]
  | _ => []

/-- The names around what stands inside the scopes, the innermost of which is
listed first. -/
def enclosingNames (scopes : List Scope) : List String :=
  scopes.reverse.flatMap Scope.names

/-- The state of a scan and the tokens it goes on with, at most `limit`. -/
structure Progress (limit : Nat) where
  findings : List Finding
  scopes : List Scope
  left : List Token
  within : left.length ≤ limit

/-- Go on with the next token. -/
def proceed (rest : List Token) (findings : List Finding) (scopes : List Scope) :
    Progress rest.length :=
  ⟨findings, scopes, rest, Nat.le_refl _⟩

/-- Read the word `namespace`. -/
def readNamespace (scopes : List Scope) (rest : List Token) : Progress rest.length :=
  match found : namespaceHead? rest with
  | none => proceed rest [] scopes
  | some head =>
    ⟨[], .named head.names :: scopes, head.after,
      Nat.le_of_lt (namespaceHead?_after_length found)⟩

/-- Read the word `class` or `struct` on the given line. -/
def readClass (scopes : List Scope) (line : Nat) (rest : List Token) : Progress rest.length :=
  match found : classHead? rest with
  | none => proceed rest [] scopes
  | some head =>
    ⟨[], .body ⟨head.name, enclosingNames scopes, head.bases, line, none⟩ :: scopes, head.after,
      Nat.le_of_lt (classHead?_after_length found)⟩

/-- Read a closing brace on the given line. -/
def readClosing (scopes : List Scope) (line : Nat) : List Finding × List Scope :=
  match scopes with
  | [] => ([.warning line .unbalancedBrace], [])
  | scope :: outer => (scope.closed, outer)

/-- Read a marker on the given line. -/
def readMarker (scopes : List Scope) (line : Nat) (marker : String) (kind : WrapperKind) :
    List Finding × List Scope :=
  match scopes with
  | .body candidate :: outer => ([], .body { candidate with kind? := some kind } :: outer)
  | _ => ([.warning line (.markerOutsideClass marker)], scopes)

/-- The kind of wrapper that a token marks a class for. -/
def marker? (token : Token) : Option WrapperKind :=
  if token.isIdentifier then WrapperKind.ofMarker? token.lexeme else none

/-- Read one token in front of the others.  The words `class` and `struct`
after `enum` begin no class. -/
def read (afterEnum : Bool) (scopes : List Scope) (token : Token) (rest : List Token) :
    Progress rest.length :=
  if token.isName "namespace" then readNamespace scopes rest
  else if (token.isName "class" || token.isName "struct") && !afterEnum then
    readClass scopes token.line rest
  else if token.isOpeningBrace then proceed rest [] (.block :: scopes)
  else if token.isClosingBrace then
    let closing := readClosing scopes token.line
    proceed rest closing.1 closing.2
  else
    match marker? token with
    | some kind =>
      let marked := readMarker scopes token.line token.lexeme kind
      proceed rest marked.1 marked.2
    | none => proceed rest [] scopes

/-- What the tokens amount to inside the given scopes. -/
def scanFrom (afterEnum : Bool) (scopes : List Scope) : List Token -> List Finding
  | [] => scopes.reverse.flatMap Scope.unclosed
  | token :: rest =>
    let progress := read afterEnum scopes token rest
    progress.findings ++ scanFrom (token.isName "enum") progress.scopes progress.left
termination_by tokens => tokens.length
decreasing_by exact Nat.lt_succ_of_le (read afterEnum scopes token rest).within

/-- The tokens of the main file that are not blank: those outside all markers of
included files, `depth` of which are open. -/
def mainFileTokens (depth : Nat) : List Token -> List Token
  | [] => []
  | token :: rest =>
    match token.kind with
    | .includeBegin => mainFileTokens (depth + 1) rest
    | .includeEnd => mainFileTokens (depth - 1) rest
    | _ =>
      if token.isBlank || depth != 0 then mainFileTokens depth rest
      else token :: mainFileTokens depth rest

/-- What is found in the main file of a token list. -/
def findings (tokens : List Token) : List Finding :=
  scanFrom false [] (mainFileTokens 0 tokens)

/-- The class a finding is. -/
def Finding.class? : Finding -> Option WrappedClass
  | .wrapped declared => some declared
  | .warning _ _ => none

/-- The line and the warning a finding is. -/
def Finding.warning? : Finding -> Option (Nat × Warning)
  | .wrapped _ => none
  | .warning line cause => some (line, cause)

/-- What a scan finds, classes and warnings each in order. -/
structure Report where
  classes : List WrappedClass
  warnings : List (Nat × Warning)
deriving DecidableEq, Repr

/-- The wrapped classes of a token list. -/
def scan (tokens : List Token) : Report :=
  let found := findings tokens
  ⟨found.filterMap Finding.class?, found.filterMap Finding.warning?⟩

end Declaration
end ObjectWrapper
