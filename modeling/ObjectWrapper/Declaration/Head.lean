import ObjectWrapper.Source.Token

namespace ObjectWrapper
namespace Declaration

open Source

/-!
# Heads of namespaces and classes

A head is what stands between the word `namespace`, `class` or `struct` and the
opening brace.  Words that do not lead to a brace in this way, such as forward
declarations and template parameters, begin no head.

Any number of identifiers may come before the name of a class; it is the last
of them other than `final`.  Base classes are separated by the commas outside
angle brackets, and the words for access and virtual inheritance do not belong
to them.
-/

/-- The names of a namespace head and the tokens behind its brace. -/
structure NamespaceHead where
  names : List String
  after : List Token
deriving DecidableEq, Repr

/-- The names up to a brace. -/
def namespaceHead? : List Token -> Option NamespaceHead
  | [] => none
  | token :: rest =>
    if token.isOpeningBrace then some ⟨[], rest⟩
    else if token.isIdentifier then
      (namespaceHead? rest).map fun head => { head with names := token.lexeme :: head.names }
    else if token.isPunctuator "::" then namespaceHead? rest
    else none

/-- The identifiers of a class head, and the tokens from its brace or from the
colon of its base clause on. -/
structure ClassNames where
  names : List String
  left : List Token
deriving DecidableEq, Repr

/-- The identifiers up to a brace or colon. -/
def classNames? : List Token -> Option ClassNames
  | [] => none
  | token :: rest =>
    if token.isOpeningBrace || token.isPunctuator ":" then some ⟨[], token :: rest⟩
    else if token.isIdentifier then
      (classNames? rest).map fun head => { head with names := token.lexeme :: head.names }
    else if token.isPunctuator "::" then classNames? rest
    else none

/-- The name among the identifiers of a class head. -/
def nameAmong? (names : List String) : Option String :=
  (if names.length > 1 then names.filter (· != "final") else names).getLast?

/-- The words of a base clause that do not belong to a class. -/
def baseSpecifiers : List String :=
  ["public", "protected", "private", "virtual"]

/-- The base classes of a head and the tokens behind its brace. -/
structure Bases where
  names : List String
  after : List Token
deriving DecidableEq, Repr

/-- How many angle brackets are open after a token. -/
def angleDepth (depth : Nat) (token : Token) : Nat :=
  match token.lexeme with
  | "<" => depth + 1
  | ">" => depth - 1
  | ">>" => depth - 2
  | _ => depth

/-- The base classes up to a brace outside angle brackets, the first of which
begins with the text `begun`. -/
def bases? (depth : Nat) (begun : String) : List Token -> Option Bases
  | [] => none
  | token :: rest =>
    if depth == 0 && token.isOpeningBrace then
      some ⟨if begun.isEmpty then [] else [begun], rest⟩
    else if token.lexeme == ";" then none
    else
      let inner := angleDepth depth token
      if inner == 0 && token.isPunctuator "," then
        (bases? inner "" rest).map fun bases => { bases with names := begun :: bases.names }
      else if inner == 0 && token.isIdentifier && baseSpecifiers.contains token.lexeme then
        bases? inner begun rest
      else bases? inner (begun ++ token.lexeme) rest

/-- What a class head declares, and the tokens behind its brace. -/
structure ClassHead where
  name : String
  bases : List String
  after : List Token
deriving DecidableEq, Repr

/-- The class head whose tokens follow the word `class` or `struct`. -/
def classHead? (tokens : List Token) : Option ClassHead := do
  let identifiers <- classNames? tokens
  let name <- nameAmong? identifiers.names
  match identifiers.left with
  | [] => none
  | token :: rest =>
    if token.isPunctuator ":" then
      let bases <- bases? 0 "" rest
      some ⟨name, bases.names, bases.after⟩
    else some ⟨name, [], rest⟩

/-! ## Heads are not empty -/

theorem namespaceHead?_after_length {tokens : List Token} {head : NamespaceHead}
    (found : namespaceHead? tokens = some head) : head.after.length < tokens.length := by
  induction tokens generalizing head with
  | nil => cases found
  | cons token rest ih =>
    unfold namespaceHead? at found
    split at found
    · cases found
      exact Nat.lt_succ_self _
    split at found
    · obtain ⟨inner, innerFound, rfl⟩ := Option.map_eq_some_iff.mp found
      have bound := ih innerFound
      exact Nat.lt_succ_of_lt bound
    split at found
    · exact Nat.lt_succ_of_lt (ih found)
    · cases found

theorem classNames?_left_length {tokens : List Token} {head : ClassNames}
    (found : classNames? tokens = some head) : head.left.length ≤ tokens.length := by
  induction tokens generalizing head with
  | nil => cases found
  | cons token rest ih =>
    unfold classNames? at found
    split at found
    · cases found
      exact Nat.le_refl _
    split at found
    · obtain ⟨inner, innerFound, rfl⟩ := Option.map_eq_some_iff.mp found
      have bound := ih innerFound
      exact Nat.le_succ_of_le bound
    split at found
    · exact Nat.le_succ_of_le (ih found)
    · cases found

theorem bases?_after_length {depth : Nat} {begun : String} {tokens : List Token} {bases : Bases}
    (found : bases? depth begun tokens = some bases) : bases.after.length < tokens.length := by
  induction tokens generalizing depth begun bases with
  | nil => cases found
  | cons token rest ih =>
    unfold bases? at found
    split at found
    · cases found
      exact Nat.lt_succ_self _
    split at found
    · cases found
    simp only at found
    split at found
    · obtain ⟨inner, innerFound, rfl⟩ := Option.map_eq_some_iff.mp found
      have bound := ih innerFound
      exact Nat.lt_succ_of_lt bound
    split at found
    · exact Nat.lt_succ_of_lt (ih found)
    · exact Nat.lt_succ_of_lt (ih found)

theorem classHead?_after_length {tokens : List Token} {head : ClassHead}
    (found : classHead? tokens = some head) : head.after.length < tokens.length := by
  unfold classHead? at found
  obtain ⟨identifiers, identifiersFound, found⟩ := Option.bind_eq_some_iff.mp found
  obtain ⟨name, _, found⟩ := Option.bind_eq_some_iff.mp found
  have bound := classNames?_left_length identifiersFound
  split at found
  · cases found
  · rename_i token rest shape
    rw [shape, List.length_cons] at bound
    split at found
    · obtain ⟨bases, basesFound, found⟩ := Option.bind_eq_some_iff.mp found
      cases found
      exact Nat.lt_of_lt_of_le (bases?_after_length basesFound) (Nat.le_of_succ_le bound)
    · cases found
      exact bound

end Declaration
end ObjectWrapper
