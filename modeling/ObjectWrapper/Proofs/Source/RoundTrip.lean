import ObjectWrapper.Proofs.Source.Layout
import ObjectWrapper.Proofs.Source.Lines

namespace ObjectWrapper
namespace Source

/-!
# Text read again

The tokens of a text are put into text again and read once more.  Going through the
segments of the first text, what is written of the rest is in one of three states: it
begins where the rest itself begins, and then looks like the rest, so that the segment
before it is read as it was; or a space comes first, and line feeds may follow it; or a
string literal is still open, and all that matters is which characters it takes before
its closing quote.  In the last two states the text written may be some lines behind.
-/

/-! ## States of what is written -/

/-- While a string literal is open, what is written of a text takes the literals it begins
with into that one, and says the same as the text from there on. -/
def ContinuesString (line : Nat) (text : List Char) : Prop :=
  Joinable true (tokensFrom line text) -> ∀ held, ∀ drawn ≤ line, ∃ more,
    written ⟨true, held⟩ drawn (tokensFrom line text) =
        ((significantFrom line text).takeWhile Token.isString).flatMap Token.content ++ '"' :: more ∧
      Unspliced more ∧
      significantFrom drawn more =
        mergeStrings ((significantFrom line text).dropWhile Token.isString)

/-- What is written of a text that stands on `line` says the same as the text, in
each of the three states. -/
structure ReadsBack (line : Nat) (text : List Char) : Prop where
  alike : Alike text (written ⟨false, false⟩ line (tokensFrom line text))
  unspliced : Unspliced (written ⟨false, false⟩ line (tokensFrom line text))
  plain : significantFrom line (written ⟨false, false⟩ line (tokensFrom line text)) =
    mergeStrings (significantFrom line text)
  blank : ∀ drawn ≤ line, ∃ more,
    written ⟨false, true⟩ drawn (tokensFrom line text) = ' ' :: more ∧ Unspliced more ∧
      significantFrom drawn more = mergeStrings (significantFrom line text)
  inString : ContinuesString line text

theorem readsBack_nil (line : Nat) : ReadsBack line [] := by
  have noTokens := tokensFrom_nil line
  have noneLeft : significantFrom line [] = [] := significantFrom_nil line
  constructor
  · rw [noTokens]
    exact .apart [] (fun _ never => nomatch never)
  · rw [noTokens]
    exact unspliced_nil
  · rw [noTokens, noneLeft, mergeStrings]
    exact noneLeft
  · intro drawn _
    refine ⟨[], by rw [noTokens]; rfl, unspliced_nil, ?_⟩
    rw [noneLeft, mergeStrings]
    exact significantFrom_nil drawn
  · intro _ held drawn _
    rw [noTokens, noneLeft, List.dropWhile_nil, mergeStrings]
    cases held with
    | true => exact ⟨[' '], rfl, unspliced_nil.cons (by decide),
        (significantFrom_space drawn []).trans (significantFrom_nil drawn)⟩
    | false => exact ⟨[], rfl, unspliced_nil, significantFrom_nil drawn⟩

section Segments

variable {segment : Segment} {left : List Char} {line : Nat}

theorem ReadsBack.append_blank (stands : segment.StandsBefore left)
    (blank : segment.kind.isBlank = true)
    (rest : ReadsBack (line + segment.text.count '\n') left) :
    ReadsBack line (segment.text ++ left) := by
  have tokens := tokensFrom_append stands line
  have same := significantFrom_append stands line
  rw [if_pos blank] at same
  have isBlank : (segment.token line).isBlank = true := blank
  have skipped : ∀ ending drawn, written ending drawn (tokensFrom line (segment.text ++ left)) =
      written ⟨ending.inString, true⟩ drawn (tokensFrom (line + segment.text.count '\n') left) := by
    intro ending drawn
    rw [tokens, written, if_pos isBlank]
  rcases rest.blank line (Nat.le_add_right _ _) with ⟨more, begins, unspliced, reads⟩
  have whole := (skipped ⟨false, false⟩ line).trans begins
  constructor
  · rw [whole]
    exact .apart _ (by simp)
  · rw [whole]
    exact unspliced.cons (by decide)
  · rw [whole, significantFrom_space, reads, same]
  · intro drawn behind
    rw [skipped, same]
    exact rest.blank drawn (Nat.le_trans behind (Nat.le_add_right _ _))
  · intro joinable held drawn behind
    rw [tokens] at joinable
    rw [skipped, same]
    exact rest.inString (joinable.of_blank isBlank) true drawn
      (Nat.le_trans behind (Nat.le_add_right _ _))

/-- A text that begins with a significant segment is read back in all states if it is
at the beginning of a text and, being a string literal, in another one. -/
theorem ReadsBack.append_lexeme (stands : segment.StandsBefore left)
    (significant : segment.kind.isBlank = false)
    (alike : Alike (segment.text ++ left)
      (written ⟨false, false⟩ line (tokensFrom line (segment.text ++ left))))
    (unspliced : Unspliced (written ⟨false, false⟩ line (tokensFrom line (segment.text ++ left))))
    (plain : significantFrom line
        (written ⟨false, false⟩ line (tokensFrom line (segment.text ++ left))) =
      mergeStrings (significantFrom line (segment.text ++ left)))
    (joined : segment.kind = .stringLiteral -> ContinuesString line (segment.text ++ left)) :
    ReadsBack line (segment.text ++ left) := by
  have tokens := tokensFrom_lexeme stands significant line
  have noBlank : (segment.token line).isBlank = false := significant
  have reached : ∀ drawn ≤ line, significantFrom drawn
      (List.replicate (line - drawn) '\n' ++
        written ⟨false, false⟩ line (tokensFrom line (segment.text ++ left))) =
      mergeStrings (significantFrom line (segment.text ++ left)) := by
    intro drawn behind
    rw [significantFrom_newlines, Nat.add_sub_of_le behind, plain]
  have spaced : ∀ ending : Ending, ¬ (ending.inString && (segment.token line).isString) = true ->
      ∀ drawn ≤ line, written ending drawn (tokensFrom line (segment.text ++ left)) =
        ending.text ++ (List.replicate (line - drawn) '\n' ++
          written ⟨false, false⟩ line (tokensFrom line (segment.text ++ left))) := by
    intro ending apart drawn behind
    rw [tokens, written_apart noBlank apart behind, List.append_assoc]
    rfl
  refine ⟨alike, unspliced, plain, ?_, ?_⟩
  · intro drawn behind
    exact ⟨_, spaced ⟨false, true⟩ (by simp) drawn behind, unspliced_newlines _ unspliced,
      reached drawn behind⟩
  · intro joinable held drawn behind
    cases isString : (segment.token line).isString with
    | true => exact joined (beq_iff_eq.mp isString) joinable held drawn behind
    | false =>
        have same := significantFrom_lexeme stands significant line
        have noRun : (significantFrom line (segment.text ++ left)).takeWhile Token.isString = [] := by
          rw [same, List.takeWhile_cons, isString]
          rfl
        have allLeft : (significantFrom line (segment.text ++ left)).dropWhile Token.isString =
            significantFrom line (segment.text ++ left) := by
          rw [same, List.dropWhile_cons, isString]
          rfl
        rw [noRun, allLeft, spaced ⟨true, held⟩ (by simp [isString]) drawn behind]
        cases held with
        | true =>
            refine ⟨_, rfl, (unspliced_newlines _ unspliced).cons (by decide), ?_⟩
            exact (significantFrom_space drawn _).trans (reached drawn behind)
        | false => exact ⟨_, rfl, unspliced_newlines _ unspliced, reached drawn behind⟩

theorem ReadsBack.append_other (stands : segment.StandsBefore left)
    (significant : segment.kind.isBlank = false) (noString : segment.kind ≠ .stringLiteral)
    (closed : (segment.token line).IsClosed) (unspliced : Unspliced (segment.text ++ left))
    (rest : ReadsBack line left) : ReadsBack line (segment.text ++ left) := by
  have tokens := tokensFrom_lexeme stands significant line
  have same := significantFrom_lexeme stands significant line
  have noBlank : (segment.token line).isBlank = false := significant
  have isOther : (segment.token line).isString = false := beq_eq_false_iff_ne.mpr noString
  have lexeme : (segment.token line).lexeme.toList = segment.text := Segment.toList_lexeme significant
  have whole : written ⟨false, false⟩ line (tokensFrom line (segment.text ++ left)) =
      segment.text ++ written ⟨false, false⟩ line (tokensFrom line left) := by
    rw [tokens]
    refine (written_here noBlank _).trans ?_
    rw [Token.opened, isOther, if_neg Bool.false_ne_true, lexeme]
    rfl
  have inQuotes : ∀ quote ∈ segment.kind.quote?, InQuotes quote segment.text := by
    intro quote literal
    rw [← lexeme]
    exact closed quote literal
  refine .append_lexeme stands significant ?_ ?_ ?_ (fun isString => absurd isString noString)
  · rw [whole]
    exact rest.alike.append segment.text
  · rw [whole]
    exact unspliced.append_alike rest.alike rest.unspliced
  · have again := stands.alike isSeparator_of_eq_space significant inQuotes rest.alike
    rw [whole, significantFrom_lexeme again significant, rest.plain, same, mergeStrings, isOther,
      if_neg Bool.false_ne_true]

/-- A string literal begins with a prefix and a quote. -/
theorem Segment.StandsBefore.exists_opening (stands : segment.StandsBefore left)
    (isString : segment.kind = .stringLiteral) (closed : (segment.token line).IsClosed) :
    ∃ name body, IsLiteralPrefix name ∧ '\n' ∉ name ∧ segment.text = name ++ '"' :: body ∧
      beforeQuote '"' (segment.token line).lexeme.toList = name ∧
      (segment.token line).opened = name ++ '"' :: (segment.token line).content := by
  have significant : segment.kind.isBlank = false := by
    rw [isString]
    rfl
  have literal : segment.kind.quote? = some '"' := by
    rw [isString]
    rfl
  have tokenIsString : (segment.token line).isString = true := beq_iff_eq.mpr isString
  have lexeme : (segment.token line).lexeme.toList = segment.text := Segment.toList_lexeme significant
  have inQuotes := closed.inQuotes tokenIsString
  rw [lexeme] at inQuotes
  rcases stands.exists_literal literal inQuotes with ⟨name, body, isPrefix, _, parts⟩
  have text : segment.text = name ++ '"' :: (body ++ ['"']) := congrArg Segment.text parts
  have before : beforeQuote '"' (segment.token line).lexeme.toList = name := by
    rw [lexeme, text, beforeQuote_append (isPrefix.quote_notMem literal)]
  have noLineFeed := stands.lineFeed_notMem significant
  rw [text] at noLineFeed
  refine ⟨name, _, isPrefix, fun member => noLineFeed (List.mem_append_left _ member), text, before, ?_⟩
  rw [Token.opened, tokenIsString, if_pos rfl, before]

theorem significantFrom_literal {name body : List Char} (isPrefix : IsLiteralPrefix name)
    (filled : fillsQuotes '"' body = true) (line : Nat) (more : List Char) :
    significantFrom line (name ++ '"' :: (body ++ '"' :: more)) =
      ⟨.stringLiteral, line, String.ofList (name ++ '"' :: (body ++ ['"']))⟩ ::
        significantFrom line more := by
  have literal : TokenKind.quote? .stringLiteral = some '"' := rfl
  have stands := literal_standsBefore literal isPrefix filled more
  have reading := significantFrom_lexeme stands rfl line
  rw [List.append_assoc, List.cons_append, List.append_assoc, List.singleton_append] at reading
  exact reading

theorem Joinable.of_string (isString : segment.kind = .stringLiteral)
    (joinable : (segment.token line :: significantFrom line left).IsChain Token.MayContinue) :
    Joinable true (tokensFrom line left) := by
  have tokenIsString : (segment.token line).isString = true := beq_iff_eq.mpr isString
  have split := List.isChain_cons.mp joinable
  exact ⟨fun _ next member => split.1 next member tokenIsString, split.2⟩

/-- Literals that continue an open one are followed by the same text as behind it. -/
theorem ContinuesString.append_string (stands : segment.StandsBefore left)
    (isString : segment.kind = .stringLiteral) (joinableRest : Joinable true (tokensFrom line left))
    (rest : ContinuesString line left) : ContinuesString line (segment.text ++ left) := by
  have significant : segment.kind.isBlank = false := by
    rw [isString]
    rfl
  have noBlank : (segment.token line).isBlank = false := significant
  have tokenIsString : (segment.token line).isString = true := beq_iff_eq.mpr isString
  have same := significantFrom_lexeme stands significant line
  intro _ held drawn behind
  rcases rest joinableRest false drawn behind with ⟨more, begins, unspliced, reads⟩
  refine ⟨more, ?_, unspliced, ?_⟩
  · rw [tokensFrom_lexeme stands significant, written, noBlank, if_neg Bool.false_ne_true,
      tokenIsString]
    change _ ++ written ⟨true, false⟩ drawn _ = _
    rw [begins, same, List.takeWhile_cons, if_pos tokenIsString, List.flatMap_cons,
      List.append_assoc]
  · rw [reads, same, List.dropWhile_cons, if_pos tokenIsString]

theorem ReadsBack.append_string (stands : segment.StandsBefore left)
    (isString : segment.kind = .stringLiteral)
    (closed : ∀ token ∈ significantFrom line (segment.text ++ left), token.IsClosed)
    (joinable : (significantFrom line (segment.text ++ left)).IsChain Token.MayContinue)
    (rest : ReadsBack line left) : ReadsBack line (segment.text ++ left) := by
  have significant : segment.kind.isBlank = false := by
    rw [isString]
    rfl
  have same := significantFrom_lexeme stands significant line
  rw [same] at closed joinable
  have noBlank : (segment.token line).isBlank = false := significant
  have tokenIsString : (segment.token line).isString = true := beq_iff_eq.mpr isString
  have joinableRest := Joinable.of_string isString joinable
  rcases stands.exists_opening isString (closed _ List.mem_cons_self) with
    ⟨name, body, isPrefix, inName, text, before, opened⟩
  rcases rest.inString joinableRest false line le_rfl with ⟨more, begins, unspliced, reads⟩
  -- the contents of the run that is merged into this literal
  have filled : fillsQuotes '"' ((segment.token line ::
      (significantFrom line left).takeWhile Token.isString).flatMap Token.content) = true := by
    apply fillsQuotes_contents
    · intro token member
      rcases List.mem_cons.mp member with rfl | taken
      · exact closed _ List.mem_cons_self
      · exact closed token (List.mem_cons_of_mem _ ((List.takeWhile_prefix _).subset taken))
    · intro token member
      rcases List.mem_cons.mp member with rfl | taken
      · exact tokenIsString
      · exact List.mem_takeWhile_imp taken
  have whole : written ⟨false, false⟩ line (tokensFrom line (segment.text ++ left)) =
      name ++ '"' :: ((segment.token line ::
        (significantFrom line left).takeWhile Token.isString).flatMap Token.content ++
          '"' :: more) := by
    rw [tokensFrom_lexeme stands significant]
    refine (written_here noBlank _).trans ?_
    rw [opened, tokenIsString]
    change _ ++ written ⟨true, false⟩ line _ = _
    rw [begins]
    simp
  refine .append_lexeme stands significant ?_ ?_ ?_ ?_
  · rw [whole, text, List.append_assoc]
    exact (AlikeUpTo.quoted _ _).append name
  · have noLineFeed : '\n' ∉ name ++ '"' :: (segment.token line ::
        (significantFrom line left).takeWhile Token.isString).flatMap Token.content := by
      simp only [List.mem_append, List.mem_cons, not_or]
      exact ⟨inName, by decide, lineFeed_notMem_of_fillsQuotes filled⟩
    have split := Unspliced.append_quote noLineFeed unspliced
    rw [List.append_assoc, List.cons_append] at split
    rw [whole]
    exact split
  · have kind : (segment.token line).kind = .stringLiteral := isString
    rw [whole, significantFrom_literal isPrefix filled, reads, same, mergeStrings,
      if_pos tokenIsString, Token.withContentOf, before, kind]
    rfl
  · intro _
    exact rest.inString.append_string stands isString joinableRest

end Segments

/-- Every text in which literals are closed and may be joined is read back. -/
theorem readsBack {text : List Char} (unspliced : Unspliced text) {line : Nat}
    (closed : ∀ token ∈ significantFrom line text, token.IsClosed)
    (joinable : (significantFrom line text).IsChain Token.MayContinue) : ReadsBack line text := by
  induction text using segment_induction generalizing line with
  | nil => exact readsBack_nil line
  | append segment left stands ih =>
      have same := significantFrom_append stands line
      have unsplicedLeft : Unspliced left :=
        ⟨fun found => unspliced.1 (found.trans (List.suffix_append _ _).isInfix),
          fun found => unspliced.2 (found.trans (List.suffix_append _ _).isInfix)⟩
      cases blank : segment.kind.isBlank with
      | true =>
          rw [if_pos blank] at same
          rw [same] at closed joinable
          exact .append_blank stands blank (ih unsplicedLeft closed joinable)
      | false =>
          have same := significantFrom_lexeme stands blank line
          have closedLeft : ∀ token ∈ significantFrom line left, token.IsClosed := by
            intro token member
            rw [same] at closed
            exact closed token (List.mem_cons_of_mem _ member)
          have joinableLeft : (significantFrom line left).IsChain Token.MayContinue := by
            rw [same] at joinable
            exact joinable.tail
          have rest := ih unsplicedLeft closedLeft joinableLeft
          by_cases isString : segment.kind = .stringLiteral
          · exact .append_string stands isString closed joinable rest
          · have closedHere : (segment.token line).IsClosed := by
              rw [same] at closed
              exact closed _ List.mem_cons_self
            exact .append_other stands blank isString closedHere unspliced rest

/-- The tokens of a source are written as a text with the same tokens on the same lines,
except that string literals with at most blanks between them are one literal there. -/
theorem significant_tokenize_reassembledBytes (bytes : List UInt8)
    (unspliced : Unspliced (ByteText.ofBytes bytes).toList)
    (closed : ∀ token ∈ tokenize (ByteText.ofBytes bytes), token.IsClosed)
    (joinable : (significant (tokenize (ByteText.ofBytes bytes))).IsChain Token.MayContinue) :
    significant (tokenize (ByteText.ofBytes
        (reassembledBytes (tokenize (ByteText.ofBytes bytes))))) =
      mergeStrings (significant (tokenize (ByteText.ofBytes bytes))) := by
  have tokens : tokenize (ByteText.ofBytes bytes) =
      tokensFrom 1 (ByteText.ofBytes bytes).toList := by
    rw [← tokenize_ofList unspliced, String.ofList_toList]
  rw [tokens] at closed joinable ⊢
  have back := readsBack unspliced (fun token member => closed token (List.mem_of_mem_filter member))
    joinable
  have text := reassemble_eq_written isMarker_of_mem_tokensFrom closed joinable
  have decoded : ByteText.ofBytes
      (reassembledBytes (tokensFrom 1 (ByteText.ofBytes bytes).toList)) =
      String.ofList (written ⟨false, false⟩ 1 (tokensFrom 1 (ByteText.ofBytes bytes).toList)) := by
    rw [reassembledBytes, text]
    apply ByteText.ofBytes_toBytes
    rw [String.toList_ofList]
    exact isByteText_written (isByteText_lexemes (ByteText.isByteText_ofBytes bytes) 1) _ _
  rw [decoded, tokenize_ofList back.unspliced]
  exact back.plain

/-- Comments and line ends between literals, and a literal that ends behind the line of
the next token. -/
def spreadOut : List UInt8 :=
  ByteText.toBytes "x=L\"a\"/*\r\n*/\"\\\"\" // b\n\n  \"c\"+'\\\\';\n.5e-1"

theorem significant_tokenize_reassembledBytes_spreadOut :
    Unspliced (ByteText.ofBytes spreadOut).toList ∧
      (∀ token ∈ tokenize (ByteText.ofBytes spreadOut), token.IsClosed) ∧
      (significant (tokenize (ByteText.ofBytes spreadOut))).IsChain Token.MayContinue ∧
      significant (tokenize (ByteText.ofBytes
          (reassembledBytes (tokenize (ByteText.ofBytes spreadOut))))) =
        [⟨.identifier, 1, "x"⟩, ⟨.punctuator, 1, "="⟩, ⟨.stringLiteral, 1, "L\"a\\\"c\""⟩,
          ⟨.punctuator, 4, "+"⟩, ⟨.charLiteral, 4, "'\\\\'"⟩, ⟨.punctuator, 4, ";"⟩,
          ⟨.number, 5, ".5e-1"⟩] := by
  have unspliced : Unspliced (ByteText.ofBytes spreadOut).toList := by
    unfold Unspliced
    decide +kernel
  have closed : ∀ token ∈ tokenize (ByteText.ofBytes spreadOut), token.IsClosed := by
    decide +kernel
  have joinable : (significant (tokenize (ByteText.ofBytes spreadOut))).IsChain
      Token.MayContinue := by
    decide +kernel
  refine ⟨unspliced, closed, joinable, ?_⟩
  rw [significant_tokenize_reassembledBytes spreadOut unspliced closed joinable]
  decide +kernel

end Source
end ObjectWrapper
