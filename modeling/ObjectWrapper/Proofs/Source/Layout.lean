import Mathlib.Data.List.Chain
import ObjectWrapper.Proofs.Source.Significant
import ObjectWrapper.Proofs.Text.ByteText
import ObjectWrapper.Source.Reassembly

namespace ObjectWrapper
namespace Source

/-!
# The text of tokens in reading order

A draft takes characters back when a string literal continues the one before it.  The
same text is written here from left to right: the closing quote of a string literal, and
the space of a run of blanks, are held back until the next token decides on them.  The
tokens must be closed, must not mark included files, and a string literal that follows
another one must not have a prefix; a draft does not look at any of that.
-/

/-- What is held back at the end of a text. -/
structure Ending where
  /-- The closing quote of a string literal. -/
  inString : Bool
  /-- The space of a run of blanks. -/
  blank : Bool

def Ending.text (ending : Ending) : List Char :=
  (if ending.inString then ['"'] else []) ++ if ending.blank then [' '] else []

/-- The text of a token, a string literal without its closing quote. -/
def Token.opened (token : Token) : List Char :=
  if token.isString then beforeQuote '"' token.lexeme.toList ++ '"' :: token.content
  else token.lexeme.toList

/-- The text of tokens after an ending that stands on `line`. -/
def written (ending : Ending) (line : Nat) : List Token -> List Char
  | [] => ending.text
  | token :: rest =>
    if token.isBlank then written ⟨ending.inString, true⟩ line rest
    else if ending.inString && token.isString then
      token.content ++ written ⟨true, false⟩ line rest
    else
      ending.text ++ List.replicate (token.line - line) '\n' ++
        (token.opened ++ written ⟨token.isString, false⟩ (max line token.line) rest)

theorem written_here {token : Token} (noBlank : token.isBlank = false) (rest : List Token) :
    written ⟨false, false⟩ token.line (token :: rest) =
      token.opened ++ written ⟨token.isString, false⟩ token.line rest := by
  rw [written, noBlank, if_neg Bool.false_ne_true, Bool.false_and, if_neg Bool.false_ne_true,
    Nat.sub_self, Nat.max_self]
  rfl

/-- A token that is not joined to the literal before it is written where the text
reaches its line, and from there on as at the beginning of a text. -/
theorem written_apart {token : Token} {ending : Ending} {drawn : Nat}
    (noBlank : token.isBlank = false) (apart : ¬ (ending.inString && token.isString) = true)
    (behind : drawn ≤ token.line) (rest : List Token) :
    written ending drawn (token :: rest) =
      ending.text ++ List.replicate (token.line - drawn) '\n' ++
        written ⟨false, false⟩ token.line (token :: rest) := by
  rw [written_here noBlank, written, noBlank, if_neg Bool.false_ne_true, if_neg apart,
    Nat.max_eq_right behind]

/-! ## Characters -/

open ByteText (IsByteText)

theorem content_subset (token : Token) : token.content ⊆ token.lexeme.toList :=
  fun _ member => (List.dropWhile_suffix _).subset
    ((List.drop_suffix _ _).subset ((List.dropLast_prefix _).subset member))

theorem isByteText_opened {token : Token} (isByteText : IsByteText token.lexeme.toList) :
    IsByteText token.opened := by
  rw [Token.opened]
  split
  · have quote : IsByteText ['"'] := by decide
    have before : beforeQuote '"' token.lexeme.toList ⊆ token.lexeme.toList :=
      (List.takeWhile_prefix _).subset
    exact (isByteText.of_subset before).append
      (quote.append (isByteText.of_subset (content_subset token)))
  · exact isByteText

theorem Ending.isByteText_text (ending : Ending) : IsByteText ending.text := by
  rcases ending with ⟨inString, held⟩
  cases inString <;> cases held <;> decide

theorem isByteText_written {tokens : List Token}
    (isByteText : ∀ token ∈ tokens, IsByteText token.lexeme.toList) (ending : Ending) (line : Nat) :
    IsByteText (written ending line tokens) := by
  induction tokens generalizing ending line with
  | nil => exact ending.isByteText_text
  | cons token rest ih =>
      have later := ih fun other member => isByteText other (List.mem_cons_of_mem _ member)
      have here := isByteText token List.mem_cons_self
      have newlines : IsByteText (List.replicate (token.line - line) '\n') := by
        intro character member
        rw [List.eq_of_mem_replicate member]
        decide
      rw [written]
      split
      · exact later _ _
      split
      · exact (here.of_subset (content_subset token)).append (later _ _)
      · exact (ending.isByteText_text.append newlines).append
          ((isByteText_opened here).append (later _ _))

/-! ## Drafts -/

/-- The draft is the settled text with the ending, and knows which ending that is. -/
structure Draft.EndsWith (draft : Draft) (settled : List Char) (ending : Ending) : Prop where
  text : draft.reversed.reverse = settled ++ ending.text
  blank : draft.last = some .whitespace ↔ ending.blank = true
  string : (if ending.blank then draft.beforeLast else draft.last) = some .stringLiteral ↔
    ending.inString = true

theorem Draft.endsWith_empty : Draft.empty.EndsWith [] ⟨false, false⟩ :=
  ⟨rfl, by simp [Draft.empty], by simp [Draft.empty]⟩

section Drafts

variable {draft : Draft} {settled : List Char} {ending : Ending} {token : Token}

theorem Draft.EndsWith.add_blank (ends : draft.EndsWith settled ending)
    (blank : token.isBlank = true) :
    (draft.add token).EndsWith settled ⟨ending.inString, true⟩ ∧
      (draft.add token).line = draft.line := by
  have added : draft.add token =
      if draft.last = some .whitespace then draft else (draft.record .whitespace).write [' '] := by
    rcases token with ⟨kind, line, lexeme⟩
    cases kind <;> first | rfl | cases blank
  rw [added]
  rcases ending with ⟨inString, held⟩
  cases held with
  | true =>
      rw [if_pos (ends.blank.mpr rfl)]
      exact ⟨ends, rfl⟩
  | false =>
      have noBlank : ¬ draft.last = some .whitespace := by
        intro last
        cases ends.blank.mp last
      rw [if_neg noBlank]
      refine ⟨⟨?_, ?_, ends.string⟩, rfl⟩
      · have text := ends.text
        simp only [Draft.write, Draft.record, List.reverse_append, text]
        simp [Ending.text]
      · exact ⟨fun _ => rfl, fun _ => rfl⟩

theorem Draft.EndsWith.overlap_eq (ends : draft.EndsWith settled ending) :
    draft.overlap = if ending.inString then ending.text.length else 0 := by
  rcases ending with ⟨inString, held⟩
  have string := ends.string
  have blank := ends.blank
  cases held with
  | true =>
      simp only [if_true, iff_true] at string blank
      rw [Draft.overlap, blank]
      cases inString with
      | true => simp [string, Ending.text]
      | false => simp [string]
  | false =>
      simp only [Bool.false_eq_true, if_false, iff_false] at string blank
      rw [Draft.overlap]
      cases inString with
      | true => simp [string.mpr rfl, Ending.text]
      | false => simp [string, blank]

/-- The text of a string literal that goes on with another one, without its quotes. -/
theorem content_of_unprefixed (unprefixed : beforeQuote '"' token.lexeme.toList = []) :
    token.content = (token.lexeme.toList.drop 1).dropLast := by
  have whole := List.takeWhile_append_dropWhile (p := (· != '"')) (l := token.lexeme.toList)
  change beforeQuote '"' token.lexeme.toList ++ _ = _ at whole
  rw [unprefixed, List.nil_append] at whole
  rw [Token.content, betweenQuotes, whole]

/-- Whatever stands before its first quote, a literal ends in the last one. -/
theorem InQuotes.exists_body {quote : Char} {lexeme : List Char} (closed : InQuotes quote lexeme) :
    ∃ body, lexeme.drop 1 = body ++ [quote] := by
  rw [closed.parts]
  cases beforeQuote quote lexeme with
  | nil => exact ⟨betweenQuotes quote lexeme, rfl⟩
  | cons first rest => exact ⟨rest ++ quote :: betweenQuotes quote lexeme, by simp⟩

/-- A joined literal is written from its second character on, be that one the quote or
part of a prefix. -/
theorem Draft.EndsWith.join (ends : draft.EndsWith settled ending) (inString : ending.inString = true)
    (closed : InQuotes '"' token.lexeme.toList) :
    (draft.join token).EndsWith (settled ++ (token.lexeme.toList.drop 1).dropLast) ⟨true, false⟩ := by
  refine ⟨?_, ?_, ?_⟩
  · have reversed : draft.reversed = ending.text.reverse ++ settled.reverse := by
      rw [← List.reverse_reverse draft.reversed, ends.text, List.reverse_append]
    have taken : draft.reversed.drop draft.overlap = settled.reverse := by
      rw [ends.overlap_eq, inString, if_pos rfl, reversed, ← List.length_reverse, List.drop_left]
    rcases closed.exists_body with ⟨body, ended⟩
    rw [Draft.join, ended, List.dropLast_concat]
    simp only [Draft.write, Draft.record, List.reverse_append, List.reverse_reverse, taken,
      List.append_assoc]
    rfl
  · constructor
    · intro last
      cases last
    · intro never
      cases never
  · exact ⟨fun _ => rfl, fun _ => rfl⟩

theorem Token.lexeme_eq_opened
    (quoted : token.isString = true -> InQuotes '"' token.lexeme.toList) :
    token.lexeme.toList = token.opened ++ (Ending.text ⟨token.isString, false⟩) := by
  rw [Token.opened]
  cases isString : token.isString with
  | false => simp [Ending.text]
  | true =>
      have parts := (quoted isString).parts
      simp only [if_true, List.append_assoc, List.cons_append]
      exact parts

theorem Draft.EndsWith.put (ends : draft.EndsWith settled ending) (significant : token.isBlank = false)
    (quoted : token.isString = true -> InQuotes '"' token.lexeme.toList) :
    (draft.put token).EndsWith
        (settled ++ (ending.text ++ List.replicate (token.line - draft.line) '\n' ++ token.opened))
        ⟨token.isString, false⟩ ∧
      (draft.put token).line = max draft.line token.line := by
  refine ⟨⟨?_, ?_, ?_⟩, rfl⟩
  · have text := ends.text
    rw [Draft.put]
    simp only [Draft.write, Draft.record, List.reverse_append, List.reverse_reverse, text,
      List.append_assoc, Token.lexeme_eq_opened quoted, List.reverse_replicate]
  · constructor
    · intro last
      have kind : token.kind = .whitespace := Option.some.inj last
      rw [Token.isBlank, kind] at significant
      cases significant
    · intro never
      cases never
  · change some token.kind = some .stringLiteral ↔ token.isString = true
    rw [Option.some.injEq, Token.isString, beq_iff_eq]

theorem Draft.EndsWith.add_eq_join (ends : draft.EndsWith settled ending)
    (inString : ending.inString = true) (isString : token.isString = true) :
    draft.add token = draft.join token := by
  have kind : token.kind = .stringLiteral := beq_iff_eq.mp isString
  have overlaps : ¬ draft.overlap = 0 := by
    rw [ends.overlap_eq, inString]
    simp [Ending.text, inString]
  rw [Draft.add, kind]
  exact if_neg overlaps

theorem Draft.EndsWith.add_eq_put (ends : draft.EndsWith settled ending)
    (apart : ¬ (ending.inString && token.isString) = true) (noBlank : token.isBlank = false)
    (unmarked : token.kind.isMarker = false) : draft.add token = draft.put token := by
  rcases token with ⟨kind, line, lexeme⟩
  cases kind with
  | stringLiteral =>
      have noString : ending.inString = false := by
        cases inString : ending.inString with
        | false => rfl
        | true => exact absurd (by rw [inString]; rfl) apart
      have apartFrom : draft.overlap = 0 := by
        rw [ends.overlap_eq, noString]
        rfl
      exact if_pos apartFrom
  | newline => cases noBlank
  | whitespace => cases noBlank
  | includeBegin => cases unmarked
  | includeEnd => cases unmarked
  | charLiteral => rfl
  | identifier => rfl
  | number => rfl
  | punctuator => rfl
  | other => rfl

end Drafts

/-! ## Lists of tokens -/

/-- String literals that follow another one have no prefix, the first of the tokens
being such a literal if `inString`. -/
structure Joinable (inString : Bool) (tokens : List Token) : Prop where
  first : inString = true -> ∀ next ∈ (significant tokens).head?, next.isString = true ->
    beforeQuote '"' next.lexeme.toList = []
  later : (significant tokens).IsChain Token.MayContinue

section Joinable

variable {inString : Bool} {token : Token} {rest : List Token}

theorem Joinable.of_blank (joinable : Joinable inString (token :: rest))
    (blank : token.isBlank = true) : Joinable inString rest := by
  have same := significant_cons_of_isBlank blank rest
  exact ⟨same ▸ joinable.first, same ▸ joinable.later⟩

theorem Joinable.tail (joinable : Joinable inString (token :: rest))
    (noBlank : token.isBlank = false) : Joinable token.isString rest := by
  have later := joinable.later
  rw [significant_cons_of_not_isBlank noBlank, List.isChain_cons] at later
  exact ⟨fun isString next member => later.1 next member isString, later.2⟩

end Joinable

/-- Adding tokens one after the other writes their text from left to right. -/
theorem reversed_foldl_add {tokens : List Token} {draft : Draft} {settled : List Char}
    {ending : Ending} (ends : draft.EndsWith settled ending)
    (unmarked : ∀ token ∈ tokens, token.kind.isMarker = false)
    (closed : ∀ token ∈ tokens, token.IsClosed) (joinable : Joinable ending.inString tokens) :
    (tokens.foldl Draft.add draft).reversed.reverse =
      settled ++ written ending draft.line tokens := by
  induction tokens generalizing draft settled ending with
  | nil => exact ends.text
  | cons token rest ih =>
      have unmarkedRest : ∀ other ∈ rest, other.kind.isMarker = false :=
        fun other member => unmarked other (List.mem_cons_of_mem _ member)
      have closedRest : ∀ other ∈ rest, other.IsClosed :=
        fun other member => closed other (List.mem_cons_of_mem _ member)
      rw [List.foldl_cons, written]
      cases blank : token.isBlank with
      | true =>
          have added := ends.add_blank blank
          rw [ih added.1 unmarkedRest closedRest (joinable.of_blank blank), added.2]
          rfl
      | false =>
          have joinableRest := joinable.tail blank
          by_cases joins : (ending.inString && token.isString) = true
          · rw [if_neg Bool.false_ne_true, if_pos joins]
            rw [Bool.and_eq_true] at joins
            have unprefixed : beforeQuote '"' token.lexeme.toList = [] := by
              have next := significant_cons_of_not_isBlank blank rest
              exact joinable.first joins.1 token (by rw [next]; rfl) joins.2
            have inQuotes := (closed token List.mem_cons_self).inQuotes joins.2
            have joined := ends.join joins.1 inQuotes
            rw [← content_of_unprefixed unprefixed] at joined
            rw [joins.2] at joinableRest
            rw [ends.add_eq_join joins.1 joins.2, ih joined unmarkedRest closedRest joinableRest,
              List.append_assoc]
            rfl
          · rw [if_neg Bool.false_ne_true, if_neg joins]
            have put := ends.put blank (closed token List.mem_cons_self).inQuotes
            rw [ends.add_eq_put joins blank (unmarked token List.mem_cons_self),
              ih put.1 unmarkedRest closedRest joinableRest, put.2]
            simp only [List.append_assoc]

theorem reassemble_eq_written {tokens : List Token}
    (unmarked : ∀ token ∈ tokens, token.kind.isMarker = false)
    (closed : ∀ token ∈ tokens, token.IsClosed)
    (joinable : (significant tokens).IsChain Token.MayContinue) :
    reassemble tokens = String.ofList (written ⟨false, false⟩ 1 tokens) := by
  have startsApart : Joinable false tokens := by
    refine ⟨?_, joinable⟩
    intro never
    cases never
  rw [reassemble, Draft.text, reversed_foldl_add Draft.endsWith_empty unmarked closed startsApart]
  rfl

end Source
end ObjectWrapper
