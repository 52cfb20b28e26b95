import Mathlib.Data.List.TakeWhile
import ObjectWrapper.Proofs.Source.Boundary

namespace ObjectWrapper
namespace Source

/-!
# Lexemes and what follows them

A segment that is not blank has been read by one of the readers of names, numbers,
literals and punctuators.  Each of them reads the same segment again before a text
that looks the same, so the segment itself can be put there.
-/

/-- The segment at the start of a text that begins with neither a blank nor a comment. -/
def lexemeReading (first : Char) (rest : List Char) : Reading :=
  if isNameStart first then
    nameReading (first :: rest.takeWhile isNameChar) (rest.dropWhile isNameChar)
  else if first.isDigit || (first == '.' && rest.head?.any Char.isDigit) then
    ((numberTail first rest).after [first]).reading (.verbatim .number)
  else if first = '"' then
    ((literalTail '"' rest).after [first]).reading (.verbatim .stringLiteral)
  else if first = '\'' then
    ((literalTail '\'' rest).after [first]).reading (.verbatim .charLiteral)
  else symbolReading first rest

structure BeginsLexeme (first : Char) (rest : List Char) : Prop where
  noLineEnd : first ≠ '\n'
  noBlank : isBlankChar first = false
  noLineComment : ¬ ['/', '/'] <+: first :: rest
  noBlockComment : ¬ ['/', '*'] <+: first :: rest

theorem pair_isPrefix_iff {first second character : Char} {rest : List Char} :
    [first, second] <+: character :: rest ↔ character = first ∧ rest.head? = some second := by
  rw [List.cons_prefix_cons]
  constructor
  · rintro ⟨rfl, after, rfl⟩
    exact ⟨rfl, rfl⟩
  · rintro ⟨rfl, head⟩
    refine ⟨rfl, ?_⟩
    rw [eq_cons_drop_of_head? head, List.cons_prefix_cons]
    exact ⟨rfl, List.nil_prefix⟩

theorem BeginsLexeme.readSegment_eq {first : Char} {rest : List Char}
    (begins : BeginsLexeme first rest) : readSegment first rest = lexemeReading first rest := by
  have noReturn : ¬ (first = '\r' ∧ rest.head? = some '\n') := by
    rintro ⟨rfl, _⟩
    exact absurd begins.noBlank (by decide)
  have noLineComment := begins.noLineComment
  have noBlockComment := begins.noBlockComment
  rw [pair_isPrefix_iff] at noLineComment noBlockComment
  rw [readSegment, if_neg begins.noLineEnd, if_neg noReturn, if_neg (by simp [begins.noBlank]),
    if_neg noLineComment, if_neg noBlockComment]
  rfl

theorem beginsLexeme_of_significant {first : Char} {rest : List Char}
    (significant : (readSegment first rest).segment.kind.isBlank = false) :
    BeginsLexeme first rest := by
  unfold readSegment at significant
  split at significant
  · cases significant
  rename_i noLineEnd
  split at significant
  · cases significant
  split at significant
  · cases significant
  rename_i noBlank
  split at significant
  · cases significant
  rename_i noLineComment
  split at significant
  · cases significant
  rename_i noBlockComment
  rw [← pair_isPrefix_iff] at noLineComment noBlockComment
  exact ⟨noLineEnd, Bool.not_eq_true _ ▸ noBlank, noLineComment, noBlockComment⟩

theorem Segment.StandsBefore.exists_lexemeReading {segment : Segment} {left : List Char}
    (stands : segment.StandsBefore left) (significant : segment.kind.isBlank = false) :
    ∃ first others, segment.text = first :: others ∧ BeginsLexeme first (others ++ left) ∧
      lexemeReading first (others ++ left) = ⟨segment, left⟩ := by
  rcases stands with ⟨first, others, text, read⟩
  have begins : BeginsLexeme first (others ++ left) :=
    beginsLexeme_of_significant (by rw [read]; exact significant)
  exact ⟨first, others, text, begins, begins.readSegment_eq ▸ read⟩

theorem BeginsLexeme.of_ne_slash {first : Char} (noLineEnd : first ≠ '\n')
    (noBlank : isBlankChar first = false) (noSlash : first ≠ '/') (rest : List Char) :
    BeginsLexeme first rest where
  noLineEnd := noLineEnd
  noBlank := noBlank
  noLineComment found := noSlash (pair_isPrefix_iff.mp found).1
  noBlockComment found := noSlash (pair_isPrefix_iff.mp found).1

theorem BeginsLexeme.of_isNameStart {first : Char} (start : isNameStart first = true)
    (rest : List Char) : BeginsLexeme first rest := by
  have differs : ∀ other, isNameStart other = false -> first ≠ other := by
    rintro other noStart rfl
    rw [start] at noStart
    cases noStart
  have noBlank : isBlankChar first = false := by
    simp only [isBlankChar, Bool.or_eq_false_iff, beq_eq_false_iff_ne]
    exact ⟨⟨⟨⟨differs _ rfl, differs _ rfl⟩, differs _ rfl⟩, differs _ rfl⟩, differs _ rfl⟩
  exact .of_ne_slash (differs _ rfl) noBlank (differs _ rfl) rest

/-- A name that nothing continues is read as a whole. -/
theorem readSegment_name {first : Char} (start : isNameStart first = true) {others left : List Char}
    (inside : ∀ character ∈ others, isNameChar character = true)
    (outside : ∀ character ∈ left.head?, isNameChar character = false) :
    readSegment first (others ++ left) = nameReading (first :: others) left := by
  have run := classTail_append inside outside
  rw [classTail, Cut.mk.injEq] at run
  rw [(BeginsLexeme.of_isNameStart start _).readSegment_eq, lexemeReading, if_pos start, run.1,
    run.2]

/-! ## Literals -/

theorem literalTail_cons {quote character : Char} (noLineEnd : character ≠ '\n')
    (noBackslash : character ≠ '\\') (rest : List Char) :
    literalTail quote (character :: rest) =
      if character = quote then ⟨[character], rest⟩
      else (literalTail quote rest).after [character] := by
  rw [literalTail]
  · intro lineEnd
    exact noLineEnd lineEnd
  · intro escaped more backslash
    exact absurd backslash noBackslash

/-- What fills the quotes is read up to the closing one, whatever follows. -/
theorem literalTail_filled {quote : Char} (noLineEnd : quote ≠ '\n') (noBackslash : quote ≠ '\\')
    {body : List Char} (filled : fillsQuotes quote body = true) (left : List Char) :
    literalTail quote (body ++ quote :: left) = ⟨body ++ [quote], left⟩ := by
  fun_induction fillsQuotes quote body with
  | case1 =>
      rw [List.nil_append, literalTail_cons noLineEnd noBackslash, if_pos rfl]
      rfl
  | case2 escaped rest ih =>
      rw [Bool.and_eq_true, bne_iff_ne] at filled
      have continued := ih filled.2
      rw [List.cons_append, List.cons_append, literalTail, if_neg filled.1, continued]
      rfl
  | case3 character rest _ ih =>
      simp only [Bool.and_eq_true, bne_iff_ne] at filled
      rcases filled with ⟨⟨⟨noQuote, notEscape⟩, notEnd⟩, filledRest⟩
      have continued := ih filledRest
      rw [List.cons_append, literalTail_cons notEnd notEscape, if_neg noQuote, continued]
      rfl

theorem quote?_eq_some_iff {kind : TokenKind} {quote : Char} :
    kind.quote? = some quote ↔
      kind = .stringLiteral ∧ quote = '"' ∨ kind = .charLiteral ∧ quote = '\'' := by
  cases kind <;> simp [TokenKind.quote?, eq_comm]

theorem quote_ne_of_quote? {kind : TokenKind} {quote : Char} (literal : kind.quote? = some quote) :
    quote ≠ '\n' ∧ quote ≠ '\\' := by
  rcases quote?_eq_some_iff.mp literal with ⟨_, rfl⟩ | ⟨_, rfl⟩
  · decide
  · decide

theorem isLexeme_of_quote? {kind : TokenKind} {quote : Char} (literal : kind.quote? = some quote) :
    kind.isBlank = false ∧ kind.isMarker = false := by
  rcases quote?_eq_some_iff.mp literal with ⟨rfl, _⟩ | ⟨rfl, _⟩
  · exact ⟨rfl, rfl⟩
  · exact ⟨rfl, rfl⟩

/-- What may stand before the first quote of a literal. -/
def IsLiteralPrefix (name : List Char) : Prop :=
  name = [] ∨ isEncodingPrefix name = true

theorem mem_of_isEncodingPrefix {name : List Char} (encoding : isEncodingPrefix name = true) :
    name ∈ [['L'], ['u'], ['U'], ['u', '8']] := by
  simpa [isEncodingPrefix, or_assoc] using encoding

theorem exists_of_isEncodingPrefix {name : List Char} (encoding : isEncodingPrefix name = true) :
    ∃ first others, name = first :: others ∧ isNameStart first = true ∧
      ∀ character ∈ others, isNameChar character = true := by
  have listed : ∀ name ∈ [['L'], ['u'], ['U'], ['u', '8']],
      isNameStart (name.headD ' ') = true ∧ name.tail.all isNameChar = true := by decide
  have known := listed name (mem_of_isEncodingPrefix encoding)
  cases name with
  | nil => cases encoding
  | cons first others => exact ⟨first, others, rfl, known.1, List.all_eq_true.mp known.2⟩

theorem IsLiteralPrefix.quote_notMem {name : List Char} (isPrefix : IsLiteralPrefix name)
    {kind : TokenKind} {quote : Char} (literal : kind.quote? = some quote) : quote ∉ name := by
  have listed : ∀ name ∈ [['L'], ['u'], ['U'], ['u', '8']], '"' ∉ name ∧ '\'' ∉ name := by decide
  rcases isPrefix with rfl | encoding
  · exact List.not_mem_nil
  · have absent := listed name (mem_of_isEncodingPrefix encoding)
    rcases quote?_eq_some_iff.mp literal with ⟨_, rfl⟩ | ⟨_, rfl⟩
    · exact absent.1
    · exact absent.2

theorem nameReading_literal {kind : TokenKind} {quote : Char} (literal : kind.quote? = some quote)
    {name : List Char} (encoding : isEncodingPrefix name = true) (text : List Char) :
    nameReading name (quote :: text) =
      ((literalTail quote text).after (name ++ [quote])).reading (.verbatim kind) := by
  rcases quote?_eq_some_iff.mp literal with ⟨rfl, rfl⟩ | ⟨rfl, rfl⟩
  · exact if_pos encoding
  · exact if_pos encoding

theorem readSegment_quote {kind : TokenKind} {quote : Char} (literal : kind.quote? = some quote)
    (text : List Char) :
    readSegment quote text = ((literalTail quote text).after [quote]).reading (.verbatim kind) := by
  rcases quote?_eq_some_iff.mp literal with ⟨rfl, rfl⟩ | ⟨rfl, rfl⟩
  · rfl
  · rfl

/-- A string or character literal stands where its quote is followed by the rest of it, and
no more than that is taken. -/
theorem literal_standsBefore_of_taken {kind : TokenKind} {quote : Char}
    (literal : kind.quote? = some quote) {name : List Char} (isPrefix : IsLiteralPrefix name)
    {taken left : List Char} (takes : literalTail quote (taken ++ left) = ⟨taken, left⟩) :
    Segment.StandsBefore ⟨.verbatim kind, name ++ quote :: taken⟩ left := by
  rcases isPrefix with rfl | encoding
  · refine ⟨quote, taken, rfl, ?_⟩
    rw [readSegment_quote literal, takes]
    rfl
  · rcases exists_of_isEncodingPrefix encoding with ⟨first, others, rfl, start, inside⟩
    refine ⟨first, others ++ quote :: taken, rfl, ?_⟩
    have outside : ∀ character ∈ (quote :: (taken ++ left)).head?,
        isNameChar character = false := by
      intro character head
      cases head
      rcases quote?_eq_some_iff.mp literal with ⟨_, rfl⟩ | ⟨_, rfl⟩ <;> rfl
    rw [List.append_assoc, List.cons_append, readSegment_name start inside outside,
      nameReading_literal literal encoding, takes]
    simp [Cut.after, Cut.reading]

/-- With both its quotes it stands before any text. -/
theorem literal_standsBefore {kind : TokenKind} {quote : Char} (literal : kind.quote? = some quote)
    {name : List Char} (isPrefix : IsLiteralPrefix name) {body : List Char}
    (filled : fillsQuotes quote body = true) (left : List Char) :
    Segment.StandsBefore ⟨.verbatim kind, name ++ quote :: (body ++ [quote])⟩ left := by
  apply literal_standsBefore_of_taken literal isPrefix
  rw [List.append_assoc, List.singleton_append]
  have marks := quote_ne_of_quote? literal
  exact literalTail_filled marks.1 marks.2 filled left

theorem nameReading_cases (name text : List Char) :
    nameReading name text = ⟨⟨.verbatim .identifier, name⟩, text⟩ ∨
      isEncodingPrefix name = true ∧ ∃ kind quote rest, TokenKind.quote? kind = some quote ∧
        nameReading name text =
          ((literalTail quote rest).after (name ++ [quote])).reading (.verbatim kind) := by
  unfold nameReading
  split
  · split
    · rename_i encoding
      exact .inr ⟨encoding, .stringLiteral, '"', _, rfl, rfl⟩
    · exact .inl rfl
  · split
    · rename_i encoding
      exact .inr ⟨encoding, .charLiteral, '\'', _, rfl, rfl⟩
    · exact .inl rfl
  · exact .inl rfl

theorem symbolReading_quote?_eq_none (first : Char) (rest : List Char) :
    (symbolReading first rest).segment.kind.quote? = none := by
  unfold symbolReading
  split
  · rfl
  · rfl

/-- Which of the readers has made a reading of the text `first :: rest`. -/
inductive ReadBy (first : Char) (rest : List Char) (reading : Reading) : Prop where
  | name (start : isNameStart first = true)
      (read : reading = ⟨⟨.verbatim .identifier, first :: rest.takeWhile isNameChar⟩,
        rest.dropWhile isNameChar⟩)
  | literal (kind : TokenKind) (quote : Char) (name text : List Char)
      (isQuote : kind.quote? = some quote) (isPrefix : IsLiteralPrefix name)
      (read : reading = ((literalTail quote text).after (name ++ [quote])).reading (.verbatim kind))
  | number (noName : ¬ isNameStart first = true)
      (begins : (first.isDigit || (first == '.' && rest.head?.any Char.isDigit)) = true)
      (read : reading = ((numberTail first rest).after [first]).reading (.verbatim .number))
  | symbol (noName : ¬ isNameStart first = true)
      (noNumber : ¬ (first.isDigit || (first == '.' && rest.head?.any Char.isDigit)) = true)
      (noQuote : first ≠ '"' ∧ first ≠ '\'')
      (read : reading = symbolReading first rest)

theorem readBy_lexemeReading (first : Char) (rest : List Char) :
    ReadBy first rest (lexemeReading first rest) := by
  unfold lexemeReading
  split
  · rename_i start
    rcases nameReading_cases (first :: rest.takeWhile isNameChar) (rest.dropWhile isNameChar) with
      identifier | ⟨encoding, kind, quote, text, isQuote, reading⟩
    · exact .name start identifier
    · exact .literal kind quote _ text isQuote (.inr encoding) reading
  rename_i noName
  split
  · rename_i begins
    exact .number noName begins rfl
  rename_i noNumber
  split
  · rename_i opens
    rw [opens]
    exact .literal .stringLiteral '"' [] rest rfl (.inl rfl) rfl
  rename_i noString
  split
  · rename_i opens
    rw [opens]
    exact .literal .charLiteral '\'' [] rest rfl (.inl rfl) rfl
  rename_i noChar
  exact .symbol noName noNumber ⟨noString, noChar⟩ rfl

theorem Segment.StandsBefore.exists_readBy {segment : Segment} {left : List Char}
    (stands : segment.StandsBefore left) (significant : segment.kind.isBlank = false) :
    ∃ first others, segment.text = first :: others ∧ BeginsLexeme first (others ++ left) ∧
      ReadBy first (others ++ left) ⟨segment, left⟩ := by
  rcases stands.exists_lexemeReading significant with ⟨first, others, text, begins, read⟩
  exact ⟨first, others, text, begins, read ▸ readBy_lexemeReading first (others ++ left)⟩

theorem symbolReading_kind (first : Char) (rest : List Char) :
    (symbolReading first rest).segment.kind = .punctuator ∨
      (symbolReading first rest).segment.kind = .other := by
  unfold symbolReading
  split
  · exact .inl rfl
  · exact .inr rfl

/-- The kind of a token tells which reader it comes from. -/
theorem ReadBy.of_kind {first : Char} {rest : List Char} {segment : Segment} {left : List Char}
    (readBy : ReadBy first rest ⟨segment, left⟩) :
    match segment.kind with
    | .identifier => isNameStart first = true ∧
        segment = ⟨.verbatim .identifier, first :: rest.takeWhile isNameChar⟩ ∧
          left = rest.dropWhile isNameChar
    | .number => ¬ isNameStart first = true ∧
        (first.isDigit || (first == '.' && rest.head?.any Char.isDigit)) = true ∧
          ((numberTail first rest).after [first]).reading (.verbatim .number) = ⟨segment, left⟩
    | .punctuator => ¬ isNameStart first = true ∧
        ¬ (first.isDigit || (first == '.' && rest.head?.any Char.isDigit)) = true ∧
          (first ≠ '"' ∧ first ≠ '\'') ∧ symbolReading first rest = ⟨segment, left⟩
    | _ => True := by
  cases readBy with
  | name start read =>
      rcases Reading.mk.inj read with ⟨rfl, rfl⟩
      exact ⟨start, rfl, rfl⟩
  | literal kind quote name text isQuote isPrefix read =>
      rcases Reading.mk.inj read with ⟨rfl, rfl⟩
      rcases quote?_eq_some_iff.mp isQuote with ⟨rfl, _⟩ | ⟨rfl, _⟩
      · trivial
      · trivial
  | number noName begins read =>
      rcases Reading.mk.inj read with ⟨rfl, rfl⟩
      exact ⟨noName, begins, rfl⟩
  | symbol noName noNumber noQuote read =>
      rcases symbolReading_kind first rest with kind | kind
      · rw [← read] at kind
        rw [kind]
        exact ⟨noName, noNumber, noQuote, read.symm⟩
      · rw [← read] at kind
        rw [kind]
        trivial

/-- None of the readers makes blanks or markers. -/
theorem isLexeme_lexemeReading (first : Char) (rest : List Char) :
    (lexemeReading first rest).segment.kind.isBlank = false ∧
      (lexemeReading first rest).segment.kind.isMarker = false := by
  cases readBy_lexemeReading first rest with
  | name _ read =>
      rw [read]
      exact ⟨rfl, rfl⟩
  | literal _ _ _ _ isQuote _ read =>
      rw [read]
      exact isLexeme_of_quote? isQuote
  | number _ _ read =>
      rw [read]
      exact ⟨rfl, rfl⟩
  | symbol _ _ _ read =>
      rw [read]
      unfold symbolReading
      split
      · exact ⟨rfl, rfl⟩
      · exact ⟨rfl, rfl⟩

/-- A literal begins with its prefix and a quote, and takes what belongs to it then. -/
theorem exists_of_lexemeReading_quote? {first : Char} {rest : List Char} {quote : Char}
    (literal : (lexemeReading first rest).segment.kind.quote? = some quote) :
    ∃ kind name text, TokenKind.quote? kind = some quote ∧ IsLiteralPrefix name ∧
      lexemeReading first rest =
        ((literalTail quote text).after (name ++ [quote])).reading (.verbatim kind) := by
  cases readBy_lexemeReading first rest with
  | name _ read =>
      rw [read] at literal
      cases literal
  | literal kind found name text isQuote isPrefix read =>
      rw [read] at literal
      cases isQuote.symm.trans literal
      exact ⟨kind, name, text, isQuote, isPrefix, read⟩
  | number _ _ read =>
      rw [read] at literal
      cases literal
  | symbol _ _ _ read =>
      rw [read, symbolReading_quote?_eq_none] at literal
      cases literal

theorem bne_of_notMem {quote : Char} {name : List Char} (noQuote : quote ∉ name) :
    ∀ character ∈ name, (character != quote) = true := by
  intro character member
  rw [bne_iff_ne]
  rintro rfl
  exact noQuote member

theorem beforeQuote_append {quote : Char} {name : List Char} (noQuote : quote ∉ name)
    (taken : List Char) : beforeQuote quote (name ++ quote :: taken) = name := by
  rw [beforeQuote, List.takeWhile_append_of_pos (bne_of_notMem noQuote)]
  simp

theorem betweenQuotes_append {quote : Char} {name : List Char} (noQuote : quote ∉ name)
    (body : List Char) : betweenQuotes quote (name ++ quote :: (body ++ [quote])) = body := by
  rw [betweenQuotes, List.dropWhile_append_of_pos (bne_of_notMem noQuote)]
  simp

theorem inQuotes_of_fillsQuotes {quote : Char} {name body : List Char} (noQuote : quote ∉ name)
    (filled : fillsQuotes quote body = true) :
    InQuotes quote (name ++ quote :: (body ++ [quote])) := by
  have between := betweenQuotes_append noQuote body
  constructor
  · rw [between, beforeQuote_append noQuote]
  · rw [between]
    exact filled

/-- A literal consists of a prefix, a quote, and what is taken after the quote. -/
theorem Segment.StandsBefore.exists_taken {segment : Segment} {left : List Char}
    (stands : segment.StandsBefore left) {quote : Char}
    (literal : segment.kind.quote? = some quote) :
    ∃ name taken text, IsLiteralPrefix name ∧ literalTail quote text = ⟨taken, left⟩ ∧
      segment = ⟨.verbatim segment.kind, name ++ quote :: taken⟩ := by
  rcases stands.exists_lexemeReading (isLexeme_of_quote? literal).1 with ⟨first, others, _, _, read⟩
  have found : (lexemeReading first (others ++ left)).segment.kind.quote? = some quote := by
    rw [read]
    exact literal
  rcases exists_of_lexemeReading_quote? found with ⟨kind, name, text, _, isPrefix, reading⟩
  rw [read, Cut.reading, Cut.after, Reading.mk.injEq] at reading
  rcases reading with ⟨rfl, rfl⟩
  refine ⟨name, (literalTail quote text).taken, text, isPrefix, rfl, ?_⟩
  rw [List.append_assoc]
  rfl

/-- A literal with both its quotes consists of a prefix, and of what fills the quotes. -/
theorem Segment.StandsBefore.exists_literal {segment : Segment} {left : List Char}
    (stands : segment.StandsBefore left) {quote : Char}
    (literal : segment.kind.quote? = some quote) (closed : InQuotes quote segment.text) :
    ∃ name body, IsLiteralPrefix name ∧ fillsQuotes quote body = true ∧
      segment = ⟨.verbatim segment.kind, name ++ quote :: (body ++ [quote])⟩ := by
  rcases stands.exists_taken literal with ⟨name, taken, text, isPrefix, _, same⟩
  have split := closed.parts
  rw [congrArg Segment.text same, beforeQuote_append (isPrefix.quote_notMem literal),
    List.append_cancel_left_eq, List.cons.injEq] at split
  refine ⟨name, _, isPrefix, closed.filled, ?_⟩
  rw [same]
  rw [← split.2]
  rfl

/-! ## Literals without their closing quote -/

/-- The text is at an end, or at the end of a line. -/
def EndsLine (text : List Char) : Prop :=
  ∀ character ∈ text.head?, character = '\n'

theorem endsLine_nil : EndsLine [] :=
  fun _ never => nomatch never

theorem endsLine_cons (rest : List Char) : EndsLine ('\n' :: rest) :=
  fun _ head => (Option.some.inj head).symm

theorem EndsLine.eq_nil_or_cons {text : List Char} (ends : EndsLine text) :
    text = [] ∨ ∃ rest, text = '\n' :: rest := by
  cases text with
  | nil => exact .inl rfl
  | cons first rest =>
      cases ends first rfl
      exact .inr ⟨rest, rfl⟩

/-- What stands after a backslash that ends a line is not read together with it. -/
theorem literalTail_backslash {quote : Char} (noBackslash : quote ≠ '\\') {left : List Char}
    (ends : EndsLine left) : literalTail quote ('\\' :: left) = ⟨['\\'], left⟩ := by
  rcases ends.eq_nil_or_cons with rfl | ⟨rest, rfl⟩
  · rw [literalTail.eq_def]
    simp [literalTail, Ne.symm noBackslash, Cut.after]
  · rw [literalTail, if_pos rfl]

theorem literalTail_endsLine (quote : Char) {left : List Char} (ends : EndsLine left) :
    literalTail quote left = ⟨[], left⟩ := by
  rcases ends.eq_nil_or_cons with rfl | ⟨rest, rfl⟩
  · rw [literalTail]
  · rw [literalTail]

/-- A literal is read up to its closing quote, or else as far as the line goes. -/
theorem literalTail_closes_or_endsLine (quote : Char) (text : List Char) :
    (∃ body, fillsQuotes quote body = true ∧ (literalTail quote text).taken = body ++ [quote]) ∨
      EndsLine (literalTail quote text).left := by
  fun_induction literalTail quote text with
  | case1 => exact .inr endsLine_nil
  | case2 rest => exact .inr (endsLine_cons rest)
  | case3 rest => exact .inr (endsLine_cons rest)
  | case4 escaped rest notEnd ih =>
      rcases ih with ⟨body, filled, taken⟩ | ends
      · refine .inl ⟨'\\' :: escaped :: body, ?_, ?_⟩
        · rw [fillsQuotes, filled, Bool.and_true]
          exact bne_iff_ne.mpr notEnd
        · rw [Cut.after, taken]
          rfl
      · exact .inr ends
  | case5 => exact .inl ⟨[], rfl, rfl⟩
  | case6 character rest notEnd noEscape noQuote ih =>
      rcases ih with ⟨body, filled, taken⟩ | ends
      · have noBackslash : character ≠ '\\' := by
          rintro rfl
          cases rest with
          | nil => simp [literalTail] at taken
          | cons escaped more => exact noEscape escaped more rfl rfl
        refine .inl ⟨character :: body, ?_, ?_⟩
        · rw [fillsQuotes]
          · have noLineEnd : character ≠ '\n' := notEnd
            simp [noQuote, noBackslash, noLineEnd, filled]
          · intro escaped more backslash
            exact absurd backslash noBackslash
        · rw [Cut.after, taken]
          rfl
      · exact .inr ends

/-- What is taken of a literal is taken as well where the line ends after it. -/
theorem literalTail_taken_append {quote : Char} (marks : quote ≠ '\n' ∧ quote ≠ '\\')
    (text : List Char) {left : List Char} (ends : EndsLine left) :
    literalTail quote ((literalTail quote text).taken ++ left) =
      ⟨(literalTail quote text).taken, left⟩ := by
  fun_induction literalTail quote text with
  | case1 => exact literalTail_endsLine quote ends
  | case2 => exact literalTail_endsLine quote ends
  | case3 => exact literalTail_backslash marks.2 ends
  | case4 escaped rest notEnd ih =>
      change literalTail quote ('\\' :: escaped :: ((literalTail quote rest).taken ++ left)) = _
      rw [literalTail, if_neg notEnd, ih]
      rfl
  | case5 =>
      rw [List.singleton_append, literalTail_cons marks.1 marks.2, if_pos rfl]
  | case6 character rest notEnd noEscape noQuote ih =>
      by_cases backslash : character = '\\'
      · subst backslash
        cases rest with
        | nil => exact literalTail_backslash marks.2 ends
        | cons escaped more => exact absurd rfl (noEscape escaped more rfl)
      · change literalTail quote (character :: ((literalTail quote rest).taken ++ left)) = _
        rw [literalTail_cons notEnd backslash, if_neg noQuote, ih]
        rfl

section Open

variable {segment : Segment} {left : List Char} {quote : Char}

/-- Only the end of a line ends a literal that has no closing quote. -/
theorem Segment.StandsBefore.endsLine (stands : segment.StandsBefore left)
    (literal : segment.kind.quote? = some quote) (isOpen : ¬ InQuotes quote segment.text) :
    EndsLine left := by
  rcases stands.exists_taken literal with ⟨name, taken, text, isPrefix, reads, same⟩
  rcases literalTail_closes_or_endsLine quote text with ⟨body, filled, closes⟩ | ends
  · have whole : taken = body ++ [quote] := by
      rw [reads] at closes
      exact closes
    subst whole
    refine absurd ?_ isOpen
    rw [same]
    exact inQuotes_of_fillsQuotes (isPrefix.quote_notMem literal) filled
  · rw [reads] at ends
    exact ends

theorem Segment.StandsBefore.of_endsLine (stands : segment.StandsBefore left)
    (literal : segment.kind.quote? = some quote) {more : List Char} (ends : EndsLine more) :
    segment.StandsBefore more := by
  rcases stands.exists_taken literal with ⟨name, taken, text, isPrefix, reads, same⟩
  have again := literalTail_taken_append (quote_ne_of_quote? literal) text ends
  rw [reads] at again
  rw [same]
  exact literal_standsBefore_of_taken literal isPrefix again

end Open

/-! ## Names, numbers and symbols -/

section Stability

variable {ends : Char -> Prop} (separates : ∀ character, ends character -> isSeparator character = true)
  {segment : Segment} {first : Char} {others left more : List Char}
include separates

theorem BeginsLexeme.alike {text : List Char} (begins : BeginsLexeme first text)
    (alike : AlikeUpTo ends text more) : BeginsLexeme first more where
  noLineEnd := begins.noLineEnd
  noBlank := begins.noBlank
  noLineComment found :=
    begins.noLineComment ((alike.cons first).isPrefix_of_separates separates (by simp [isSeparator, isBlankChar]) found)
  noBlockComment found :=
    begins.noBlockComment ((alike.cons first).isPrefix_of_separates separates (by simp [isSeparator, isBlankChar]) found)

theorem readSegment_name_alike (start : isNameStart first = true)
    (text : segment.text = first :: others)
    (read : lexemeReading first (others ++ left) = ⟨segment, left⟩)
    (unquoted : segment.kind.quote? = none) (alike : AlikeUpTo ends left more) :
    readSegment first (others ++ more) = ⟨segment, more⟩ := by
  rw [lexemeReading, if_pos start] at read
  rcases nameReading_cases (first :: (others ++ left).takeWhile isNameChar)
      ((others ++ left).dropWhile isNameChar) with
    identifier | ⟨_, kind, quote, cut, isQuote, reading⟩
  · rw [identifier, Reading.mk.injEq] at read
    rcases read with ⟨rfl, after⟩
    have same : (others ++ left).takeWhile isNameChar = others := (List.cons.inj text).2
    have inside : ∀ character ∈ others, isNameChar character = true := by
      intro character member
      rw [← same] at member
      exact List.mem_takeWhile_imp member
    have stops : ∀ character ∈ left.head?, isNameChar character = false := by
      rw [← after]
      exact not_inClass_of_head?_dropWhile
    have outside : ∀ character ∈ more.head?, isNameChar character = false := by
      intro character head
      rcases alike.head? with ended | unchanged
      · exact isNameChar_of_isSeparator (separates character (ended character head))
      · exact stops character (unchanged ▸ head)
    rw [same, after] at identifier
    rw [readSegment_name start inside outside, nameReading_alike separates identifier alike, same]
  · rw [reading] at read
    have found := congrArg Reading.segment read
    subst found
    cases isQuote.symm.trans unquoted

theorem readSegment_number_alike (begins : BeginsLexeme first (others ++ more))
    (noStart : ¬ isNameStart first = true)
    (number : (first.isDigit || (first == '.' && (others ++ left).head?.any Char.isDigit)) = true)
    (text : segment.text = first :: others)
    (read : lexemeReading first (others ++ left) = ⟨segment, left⟩)
    (alike : AlikeUpTo ends left more) :
    readSegment first (others ++ more) = ⟨segment, more⟩ := by
  rw [lexemeReading, if_neg noStart, if_pos number, Cut.reading, Reading.mk.injEq] at read
  rcases read with ⟨rfl, after⟩
  have taken : (numberTail first (others ++ left)).taken = others := (List.cons.inj text).2
  have again := numberTail_alike separates first (others ++ left) (after ▸ alike)
  rw [taken] at again
  have still : (first.isDigit || (first == '.' && (others ++ more).head?.any Char.isDigit)) =
      true := by
    cases others with
    | nil =>
        cases left with
        | nil =>
            rw [List.append_nil, List.head?_nil, Option.any_none, Bool.and_false,
              Bool.or_false] at number
            rw [number, Bool.true_or]
        | cons digit rest =>
            rw [Bool.or_eq_true, Bool.and_eq_true] at number ⊢
            rcases number with isDigit | ⟨_, isDigit⟩
            · exact .inl isDigit
            · have part : digit.isDigit = true := isDigit
              have continues : continuesNumber first digit = true :=
                continuesNumber_of_isPart (by simp [Char.isAlphanum, part])
              rw [List.nil_append, numberTail_cons_of_continues continues] at taken
              cases taken
    | cons character rest => exact number
  rw [begins.readSegment_eq, lexemeReading, if_neg noStart, if_pos still, again]
  simp [Cut.after, Cut.reading, taken]

theorem readSegment_symbol_alike (begins : BeginsLexeme first (others ++ more))
    (read : symbolReading first (others ++ left) = ⟨segment, left⟩)
    (text : segment.text = first :: others)
    (noStart : ¬ isNameStart first = true)
    (noNumber : ¬ (first.isDigit || (first == '.' && (others ++ left).head?.any Char.isDigit)) = true)
    (noString : first ≠ '"') (noChar : first ≠ '\'') (alike : AlikeUpTo ends left more) :
    readSegment first (others ++ more) = ⟨segment, more⟩ := by
  have whole : AlikeUpTo ends (first :: (others ++ left)) (first :: (others ++ more)) :=
    (alike.append others).cons first
  have stillNoNumber : ¬ (first.isDigit ||
      (first == '.' && (others ++ more).head?.any Char.isDigit)) = true := by
    rcases (alike.append others).head? with ended | unchanged
    · have noDigit : (others ++ more).head?.any Char.isDigit = false := by
        cases head : (others ++ more).head? with
        | none => rfl
        | some digit => exact isDigit_of_isSeparator (separates digit (ended digit head))
      rw [Bool.or_eq_true, not_or] at noNumber
      rw [noDigit, Bool.and_false, Bool.or_false]
      exact noNumber.1
    · rw [unchanged]
      exact noNumber
  rw [begins.readSegment_eq, lexemeReading, if_neg noStart, if_neg stillNoNumber, if_neg noString,
    if_neg noChar]
  cases found : punctuatorAt (first :: (others ++ left)) with
  | none =>
      simp only [symbolReading, found, Reading.mk.injEq] at read
      rcases read with ⟨rfl, _⟩
      have empty : [] = others := (List.cons.inj text).2
      subst empty
      simp only [List.nil_append] at found whole ⊢
      have kept : ∀ other ∈ punctuatorAt (first :: left), other <+: first :: more := by
        intro other isFound
        cases found.symm.trans isFound
      have again := (punctuatorAt_alike separates whole kept).trans found
      simp only [symbolReading, again]
  | some punctuator =>
      simp only [symbolReading, found, Reading.mk.injEq] at read
      rcases read with ⟨rfl, _⟩
      have same : punctuator = first :: others := text
      subst same
      have kept : ∀ other ∈ punctuatorAt (first :: (others ++ left)),
          other <+: first :: (others ++ more) := by
        intro other isFound
        cases found.symm.trans isFound
        exact List.prefix_append (first :: others) more
      have again := (punctuatorAt_alike separates whole kept).trans found
      simp only [symbolReading, again]
      rw [← List.cons_append, List.drop_left]

/-- A segment that is not blank stands before every text that looks like the one it was
read before. -/
theorem Segment.StandsBefore.alike (stands : segment.StandsBefore left)
    (significant : segment.kind.isBlank = false)
    (closed : ∀ quote ∈ segment.kind.quote?, InQuotes quote segment.text)
    (alike : AlikeUpTo ends left more) : segment.StandsBefore more := by
  cases isLiteral : segment.kind.quote? with
  | some quote =>
      rcases stands.exists_literal isLiteral (closed quote isLiteral) with
        ⟨name, body, isPrefix, filled, same⟩
      rw [same]
      exact literal_standsBefore isLiteral isPrefix filled more
  | none =>
      rcases stands.exists_lexemeReading significant with ⟨first, others, text, begins, read⟩
      have beginsMore : BeginsLexeme first (others ++ more) := begins.alike separates (alike.append others)
      refine ⟨first, others, text, ?_⟩
      by_cases start : isNameStart first = true
      · exact readSegment_name_alike separates start text read isLiteral alike
      by_cases number :
          (first.isDigit || (first == '.' && (others ++ left).head?.any Char.isDigit)) = true
      · exact readSegment_number_alike separates beginsMore start number text read alike
      rw [lexemeReading, if_neg start, if_neg number] at read
      by_cases opensString : first = '"'
      · rw [if_pos opensString] at read
        have found := congrArg Reading.segment read
        subst found
        cases isLiteral
      by_cases opensChar : first = '\''
      · rw [if_neg opensString, if_pos opensChar] at read
        have found := congrArg Reading.segment read
        subst found
        cases isLiteral
      rw [if_neg opensString, if_neg opensChar] at read
      exact readSegment_symbol_alike separates beginsMore read text start number opensString opensChar alike

end Stability

section Ends

variable {segment : Segment} {text left : List Char}

/-- A segment that stands before a text stands before whatever that text begins with. -/
theorem Segment.StandsBefore.of_append (stands : segment.StandsBefore (text ++ left))
    (significant : segment.kind.isBlank = false) : segment.StandsBefore text := by
  by_cases closed : ∀ quote ∈ segment.kind.quote?, InQuotes quote segment.text
  · have alike : AlikeUpTo (fun character => isSeparator character = true) (text ++ left)
        (text ++ []) :=
      (AlikeUpTo.apart left fun _ never => nomatch never).append text
    rw [List.append_nil] at alike
    exact stands.alike (fun _ separator => separator) significant closed alike
  · push Not at closed
    rcases closed with ⟨quote, literal, isOpen⟩
    refine stands.of_endsLine literal fun character head => ?_
    exact stands.endsLine literal isOpen character (List.mem_head?_append_of_mem_head? head)

/-- What begins with a separator may follow it there, unless it is a literal that has to
be ended. -/
theorem Segment.StandsBefore.append (stands : segment.StandsBefore text)
    (significant : segment.kind.isBlank = false)
    (separated : ∀ character ∈ left.head?, isSeparator character = true)
    (ended : (∀ quote ∈ segment.kind.quote?, InQuotes quote segment.text) ∨ EndsLine (text ++ left)) :
    segment.StandsBefore (text ++ left) := by
  have alike : AlikeUpTo (fun character => isSeparator character = true) (text ++ [])
      (text ++ left) := (AlikeUpTo.apart [] separated).append text
  rw [List.append_nil] at alike
  rcases ended with closed | ends
  · exact stands.alike (fun _ separator => separator) significant closed alike
  · cases isLiteral : segment.kind.quote? with
    | some quote => exact stands.of_endsLine isLiteral ends
    | none =>
        refine stands.alike (fun _ separator => separator) significant ?_ alike
        intro quote literal
        cases isLiteral.symm.trans literal

end Ends

/-! ## The text of a lexeme -/

theorem lineFeed_notMem_literalTail {quote : Char} (noLineEnd : quote ≠ '\n') (text : List Char) :
    '\n' ∉ (literalTail quote text).taken := by
  fun_induction literalTail quote text with
  | case1 => exact List.not_mem_nil
  | case2 => exact List.not_mem_nil
  | case3 => simp
  | case4 escaped rest notEnd ih =>
      have escapes : '\n' ∉ ['\\', escaped] := by simp [Ne.symm notEnd]
      exact List.not_mem_append escapes ih
  | case5 => simp [Ne.symm noLineEnd]
  | case6 character rest notEnd _ _ ih =>
      have single : '\n' ∉ [character] := by
        rw [List.mem_singleton]
        intro lineEnd
        exact notEnd lineEnd.symm
      exact List.not_mem_append single ih

/-- What a number takes behind its first character. -/
theorem mem_numberTail {previous : Char} {text : List Char} :
    ∀ character ∈ (numberTail previous text).taken,
      character.isAlphanum = true ∨ character ∈ ['+', '-', '_', '.', '\''] := by
  fun_induction numberTail previous text with
  | case1 => exact List.forall_mem_nil _
  | case2 previous character rest sign ih =>
      refine List.forall_mem_cons.mpr ⟨.inr ?_, ih⟩
      simp only [Bool.and_eq_true, Bool.or_eq_true, beq_iff_eq] at sign
      rcases sign.1 with rfl | rfl <;> decide
  | case3 previous digit after isDigit noSign ih =>
      exact List.forall_mem_cons.mpr ⟨.inr (by decide),
        List.forall_mem_cons.mpr ⟨.inl isDigit, ih⟩⟩
  | case4 => exact List.forall_mem_nil _
  | case5 => exact List.forall_mem_nil _
  | case6 previous character rest noSign noSeparator part ih =>
      refine List.forall_mem_cons.mpr ⟨?_, ih⟩
      simp only [Bool.or_eq_true, beq_iff_eq] at part
      rcases part with (part | rfl) | rfl
      · exact .inl part
      · exact .inr (by decide)
      · exact .inr (by decide)
  | case7 => exact List.forall_mem_nil _

theorem lineFeed_notMem_numberTail (previous : Char) (text : List Char) :
    '\n' ∉ (numberTail previous text).taken := by
  intro member
  rcases mem_numberTail '\n' member with part | part
  · cases part
  · exact absurd part (by decide)

theorem lineFeed_notMem_symbolReading {first : Char} (notEnd : first ≠ '\n') (rest : List Char) :
    '\n' ∉ (symbolReading first rest).segment.text := by
  have listed : ∀ punctuator ∈ punctuators.map String.toList, '\n' ∉ punctuator := by decide
  unfold symbolReading
  split
  · rename_i punctuator found
    exact listed punctuator (List.mem_of_find?_eq_some found)
  · simp [Ne.symm notEnd]

theorem lineFeed_notMem_nameReading {name text : List Char} (inName : '\n' ∉ name) :
    '\n' ∉ (nameReading name text).segment.text := by
  have opened : ∀ quote, quote ≠ '\n' -> '\n' ∉ name ++ [quote] := by
    intro quote notEnd
    simp [inName, Ne.symm notEnd]
  unfold nameReading
  split
  · split
    · exact List.not_mem_append (opened _ (by decide))
        (lineFeed_notMem_literalTail (by decide) _)
    · exact inName
  · split
    · exact List.not_mem_append (opened _ (by decide))
        (lineFeed_notMem_literalTail (by decide) _)
    · exact inName
  · exact inName

/-- Only line ends and comments reach over a line feed. -/
theorem lineFeed_notMem_lexemeReading {first : Char} (notEnd : first ≠ '\n') (rest : List Char) :
    '\n' ∉ (lexemeReading first rest).segment.text := by
  have single : '\n' ∉ [first] := by simp [Ne.symm notEnd]
  unfold lexemeReading
  split
  · have inName : '\n' ∉ first :: rest.takeWhile isNameChar := by
      intro member
      rcases List.mem_cons.mp member with lineEnd | taken
      · exact notEnd lineEnd.symm
      · cases List.mem_takeWhile_imp taken
    exact lineFeed_notMem_nameReading inName
  split
  · exact List.not_mem_append single (lineFeed_notMem_numberTail _ _)
  split
  · exact List.not_mem_append single
      (lineFeed_notMem_literalTail (by decide) _)
  split
  · exact List.not_mem_append single
      (lineFeed_notMem_literalTail (by decide) _)
  · exact lineFeed_notMem_symbolReading notEnd rest

theorem Segment.StandsBefore.lineFeed_notMem {segment : Segment} {left : List Char}
    (stands : segment.StandsBefore left) (significant : segment.kind.isBlank = false) :
    '\n' ∉ segment.text := by
  rcases stands.exists_lexemeReading significant with ⟨first, others, _, begins, read⟩
  have absent := lineFeed_notMem_lexemeReading begins.noLineEnd (others ++ left)
  rw [read] at absent
  exact absent

theorem Segment.StandsBefore.isMarker_eq_false {segment : Segment} {left : List Char}
    (stands : segment.StandsBefore left) : segment.kind.isMarker = false := by
  cases blank : segment.kind.isBlank with
  | true => cases kind : segment.kind <;> simp_all [TokenKind.isBlank, TokenKind.isMarker]
  | false =>
      rcases stands.exists_lexemeReading blank with ⟨first, others, _, _, read⟩
      have unmarked := (isLexeme_lexemeReading first (others ++ left)).2
      rw [read] at unmarked
      exact unmarked

/-- What is not blank stands for itself. -/
theorem Segment.eq_verbatim (segment : Segment) (significant : segment.kind.isBlank = false) :
    segment = ⟨.verbatim segment.kind, segment.text⟩ := by
  rcases segment with ⟨shape, text⟩
  cases shape with
  | lineEnd => cases significant
  | comment => cases significant
  | verbatim kind => rfl

theorem Segment.toList_lexeme {segment : Segment} (significant : segment.kind.isBlank = false) :
    segment.lexeme.toList = segment.text := by
  rw [segment.eq_verbatim significant]
  exact String.toList_ofList

end Source
end ObjectWrapper
