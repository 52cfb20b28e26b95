import Mathlib.Data.List.Basic
import ObjectWrapper.Source.Token

namespace ObjectWrapper
namespace Source

/-!
# Significant tokens

Blanks only separate, so two token lists say the same when their other tokens agree.
Putting tokens into text changes those in one respect: string literals between which
there are at most blanks become one.  `mergeStrings` says which literal that is,
without looking at any text: the opening of the first one, what stands between the
quotes of each, and a closing quote.

A literal without its closing quote has no such parts.  `Token.IsClosed` holds of all
tokens but those.
-/

/-- The tokens that are not blank. -/
def significant (tokens : List Token) : List Token :=
  tokens.filter (! ·.isBlank)

theorem significant_cons_of_isBlank {token : Token} (blank : token.isBlank = true)
    (rest : List Token) : significant (token :: rest) = significant rest := by
  simp [significant, blank]

theorem significant_cons_of_not_isBlank {token : Token} (noBlank : token.isBlank = false)
    (rest : List Token) : significant (token :: rest) = token :: significant rest := by
  simp [significant, noBlank]

/-! ## The parts of a literal -/

/-- Whether characters may stand between two quotes: each backslash takes the next one
with it, there is no line end, and no quote but after a backslash. -/
def fillsQuotes (quote : Char) : List Char -> Bool
  | [] => true
  | '\\' :: escaped :: rest => escaped != '\n' && fillsQuotes quote rest
  | character :: rest =>
    character != quote && character != '\\' && character != '\n' && fillsQuotes quote rest

/-- What stands before the first quote: the encoding prefix. -/
def beforeQuote (quote : Char) (lexeme : List Char) : List Char :=
  lexeme.takeWhile (· != quote)

/-- What stands between the first quote and the last character. -/
def betweenQuotes (quote : Char) (lexeme : List Char) : List Char :=
  ((lexeme.dropWhile (· != quote)).drop 1).dropLast

/-- The text is a literal with both its quotes. -/
structure InQuotes (quote : Char) (lexeme : List Char) : Prop where
  parts : lexeme = beforeQuote quote lexeme ++ quote :: (betweenQuotes quote lexeme ++ [quote])
  filled : fillsQuotes quote (betweenQuotes quote lexeme) = true

instance (quote : Char) (lexeme : List Char) : Decidable (InQuotes quote lexeme) :=
  decidable_of_iff
    (lexeme = beforeQuote quote lexeme ++ quote :: (betweenQuotes quote lexeme ++ [quote]) ∧
      fillsQuotes quote (betweenQuotes quote lexeme) = true)
    ⟨fun both => ⟨both.1, both.2⟩, fun closed => ⟨closed.parts, closed.filled⟩⟩

/-- The quotes a token of the kind stands in, if it is a literal. -/
def TokenKind.quote? : TokenKind -> Option Char
  | .stringLiteral => some '"'
  | .charLiteral => some '\''
  | _ => none

namespace Token

/-- A literal has both its quotes. -/
def IsClosed (token : Token) : Prop :=
  ∀ quote ∈ token.kind.quote?, InQuotes quote token.lexeme.toList

instance (token : Token) : Decidable token.IsClosed :=
  decidable_of_iff
    ((token.kind.quote?.all fun quote => decide (InQuotes quote token.lexeme.toList)) = true)
    (by cases quoted : token.kind.quote? <;> simp [IsClosed, quoted])

def isString (token : Token) : Bool :=
  token.kind == .stringLiteral

/-- What a string literal says. -/
def content (token : Token) : List Char :=
  betweenQuotes '"' token.lexeme.toList

/-- A string literal goes on with the one before it only without a prefix of its own. -/
def MayContinue (previous next : Token) : Prop :=
  previous.isString = true -> next.isString = true -> beforeQuote '"' next.lexeme.toList = []

instance (previous next : Token) : Decidable (previous.MayContinue next) :=
  inferInstanceAs (Decidable (previous.isString = true -> next.isString = true ->
    beforeQuote '"' next.lexeme.toList = []))

/-- The string literal that begins as `first` and says what all of them say. -/
def withContentOf (first : Token) (run : List Token) : Token :=
  { first with
    lexeme := String.ofList <|
      beforeQuote '"' first.lexeme.toList ++ '"' :: (run.flatMap content ++ ['"']) }

end Token

/-- Each longest run of string literals made one. -/
def mergeStrings : List Token -> List Token
  | [] => []
  | token :: rest =>
    if token.isString then
      token.withContentOf (token :: rest.takeWhile Token.isString) ::
        mergeStrings (rest.dropWhile Token.isString)
    else token :: mergeStrings rest
termination_by tokens => tokens.length
decreasing_by
  · have shorter := (List.dropWhile_suffix Token.isString (l := rest)).length_le
    simp only [List.length_cons]
    omega
  · simp

/-! ## What stands between quotes -/

theorem fillsQuotes_append {quote : Char} {first second : List Char}
    (firstFilled : fillsQuotes quote first = true) (secondFilled : fillsQuotes quote second = true) :
    fillsQuotes quote (first ++ second) = true := by
  fun_induction fillsQuotes quote first with
  | case1 => exact secondFilled
  | case2 escaped rest ih =>
      rw [Bool.and_eq_true] at firstFilled
      rw [List.cons_append, List.cons_append, fillsQuotes, firstFilled.1, ih firstFilled.2]
      rfl
  | case3 character rest _ ih =>
      rw [Bool.and_eq_true] at firstFilled
      have noBackslash : character ≠ '\\' := by
        rintro rfl
        simp at firstFilled
      rw [List.cons_append, fillsQuotes, firstFilled.1, ih firstFilled.2]
      · rfl
      · intro escaped more backslash
        exact absurd backslash noBackslash

/-- Characters other than the quote, backslashes and line ends stand between quotes as they
are. -/
theorem fillsQuotes_of_plain {quote : Char} {text : List Char}
    (plain : ∀ character ∈ text, character ≠ quote ∧ character ≠ '\\' ∧ character ≠ '\n') :
    fillsQuotes quote text = true := by
  fun_induction fillsQuotes quote text with
  | case1 => rfl
  | case2 escaped rest => exact absurd rfl (plain '\\' List.mem_cons_self).2.1
  | case3 character rest _ ih =>
      rcases List.forall_mem_cons.mp plain with ⟨⟨noQuote, noBackslash, noLineFeed⟩, later⟩
      simp [noQuote, noBackslash, noLineFeed, ih later]

theorem lineFeed_notMem_of_fillsQuotes {quote : Char} {body : List Char}
    (filled : fillsQuotes quote body = true) : '\n' ∉ body := by
  fun_induction fillsQuotes quote body with
  | case1 => exact List.not_mem_nil
  | case2 escaped rest ih =>
      rw [Bool.and_eq_true, bne_iff_ne] at filled
      simp [Ne.symm filled.1, ih filled.2]
  | case3 character rest _ ih =>
      simp only [Bool.and_eq_true, bne_iff_ne] at filled
      simp [Ne.symm filled.1.2, ih filled.2]

theorem Token.IsClosed.inQuotes {token : Token} (closed : token.IsClosed)
    (isString : token.isString = true) : InQuotes '"' token.lexeme.toList := by
  have kind : token.kind.quote? = some '"' := by
    rw [beq_iff_eq.mp isString]
    rfl
  exact closed '"' kind

/-- Contents of string literals, one after the other, fit between two quotes. -/
theorem fillsQuotes_contents {tokens : List Token} (closed : ∀ token ∈ tokens, token.IsClosed)
    (strings : ∀ token ∈ tokens, token.isString = true) :
    fillsQuotes '"' (tokens.flatMap Token.content) = true := by
  induction tokens with
  | nil => rfl
  | cons token rest ih =>
      have inQuotes := (closed token List.mem_cons_self).inQuotes (strings token List.mem_cons_self)
      have restFilled := ih (fun other member => closed other (List.mem_cons_of_mem _ member))
        (fun other member => strings other (List.mem_cons_of_mem _ member))
      exact fillsQuotes_append inQuotes.filled restFilled

end Source
end ObjectWrapper
