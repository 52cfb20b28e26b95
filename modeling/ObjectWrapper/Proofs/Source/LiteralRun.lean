import ObjectWrapper.Proofs.Source.Layout
import ObjectWrapper.Proofs.Source.Lines
import ObjectWrapper.Proofs.Source.LiteralValue

namespace ObjectWrapper
namespace Source

/-!
# Runs of string literals

String literals that follow each other are one literal to the language, and a draft writes
them as one.  It takes back a closing quote and leaves out the first character of the next
literal, without looking at either.  So the text of a run is one literal that says what
they say if none but the first has a prefix, and no escape goes on with digits of the next
literal.  In any other run it is something else.
-/

/-- Two or more string literals with both their quotes and with nothing but blanks between
them.  Those that have an encoding prefix have the same one. -/
structure IsLiteralRun (run : List Token) : Prop where
  parts : ∀ token ∈ run, token.isString = true ∨ token.isBlank = true
  begins : run.head?.any Token.isString = true
  ends : run.getLast?.any Token.isString = true
  several : 2 ≤ (significant run).length
  closed : ∀ token ∈ run, token.IsClosed
  prefixes : ∃ name, isEncodingPrefix name = true ∧ ∀ token ∈ significant run,
    beforeQuote '"' token.lexeme.toList = [] ∨ beforeQuote '"' token.lexeme.toList = name

/-- The value of a string literal. -/
def Token.stringValue (token : Token) : List Nat :=
  Literal.value token.content

/-- The text is one string literal with the values of all literals of a run. -/
def SaysAllOf (run : List Token) (text : String) : Prop :=
  ∃ token, tokenize text = [token] ∧ token.isString = true ∧ token.IsClosed ∧
    token.stringValue = (significant run).flatMap Token.stringValue

/-- Whether the last token that leaves something in the text is a string literal. -/
def endsInLiteral (tokens : List Token) : Bool :=
  (tokens.filter fun token => ! token.isBlank && ! token.kind.isMarker).getLast?.any Token.isString

/-! ## What a draft remembers -/

/-- The last token written, other than blanks, is a string literal. -/
def Draft.inString (draft : Draft) : Bool :=
  (if draft.last = some .whitespace then draft.beforeLast else draft.last) == some .stringLiteral

theorem Draft.overlap_eq_zero {draft : Draft} (noString : draft.inString = false) :
    draft.overlap = 0 := by
  rw [Draft.inString, beq_eq_false_iff_ne] at noString
  rw [Draft.overlap]
  by_cases blank : draft.last = some .whitespace
  · rw [if_pos blank] at noString
    simp [blank, noString]
  · rw [if_neg blank] at noString
    simp [blank, noString]

theorem Draft.inString_add (draft : Draft) (token : Token) :
    (draft.add token).inString =
      if ! token.isBlank && ! token.kind.isMarker then token.isString else draft.inString := by
  rcases token with ⟨kind, line, lexeme⟩
  cases kind
  case newline | whitespace =>
    change (if draft.last = some .whitespace then draft
      else (draft.record .whitespace).write [' ']).inString = draft.inString
    split
    · rfl
    · rename_i noBlank
      simp [Draft.inString, Draft.record, Draft.write, noBlank]
  case includeBegin | includeEnd => rfl
  case stringLiteral =>
    change (if draft.overlap = 0 then draft.put _ else draft.join _).inString = true
    split <;> rfl
  all_goals rfl

theorem Draft.inString_foldl_add (tokens : List Token) (draft : Draft) :
    (tokens.foldl Draft.add draft).inString =
      ((tokens.filter fun token => ! token.isBlank && ! token.kind.isMarker).getLast?.map
        Token.isString).getD draft.inString := by
  induction tokens generalizing draft with
  | nil => rfl
  | cons token rest ih =>
      rw [List.foldl_cons, ih, Draft.inString_add, List.filter_cons]
      split
      · rw [List.getLast?_cons]
        cases (rest.filter fun token => ! token.isBlank && ! token.kind.isMarker).getLast? <;> rfl
      · rfl

theorem overlap_foldl_add_eq_zero {tokens : List Token} (apart : endsInLiteral tokens = false) :
    (tokens.foldl Draft.add Draft.empty).overlap = 0 := by
  apply Draft.overlap_eq_zero
  rw [Draft.inString_foldl_add]
  rw [endsInLiteral] at apart
  cases last : (tokens.filter fun token => ! token.isBlank && ! token.kind.isMarker).getLast? with
  | none => rfl
  | some token =>
      rw [last] at apart
      exact apart

/-! ## The text of a run -/

/-- What a literal adds to the one before it. -/
def Token.continuation (token : Token) : List Char :=
  (token.lexeme.toList.drop 1).dropLast

/-- The text of a literal with others that go on with it. -/
def joinedText (first : Token) (others : List Token) : List Char :=
  first.lexeme.toList.dropLast ++ others.flatMap Token.continuation ++ ['"']

theorem Draft.EndsWith.foldl_add {tokens : List Token} {draft : Draft} {settled : List Char}
    {held : Bool} (ends : draft.EndsWith settled ⟨true, held⟩)
    (parts : ∀ token ∈ tokens, token.isString = true ∨ token.isBlank = true)
    (closed : ∀ token ∈ tokens, token.IsClosed) :
    (tokens.foldl Draft.add draft).EndsWith
      (settled ++ (significant tokens).flatMap Token.continuation)
      ⟨true, (tokens.getLast?.map Token.isBlank).getD held⟩ := by
  induction tokens generalizing draft settled held with
  | nil =>
      rw [significant, List.filter_nil, List.flatMap_nil, List.append_nil]
      exact ends
  | cons token rest ih =>
      rcases List.forall_mem_cons.mp parts with ⟨here, later⟩
      rcases List.forall_mem_cons.mp closed with ⟨closedHere, closedLater⟩
      have last : ((token :: rest).getLast?.map Token.isBlank).getD held =
          (rest.getLast?.map Token.isBlank).getD token.isBlank := by
        rw [List.getLast?_cons]
        cases rest.getLast? <;> rfl
      rw [last, List.foldl_cons]
      cases blank : token.isBlank with
      | true =>
          rw [significant_cons_of_isBlank blank]
          exact ih (ends.add_blank blank).1 later closedLater
      | false =>
          have isString : token.isString = true := by simpa [blank] using here
          have joined := ends.join rfl (closedHere.inQuotes isString)
          rw [ends.add_eq_join rfl isString, significant_cons_of_not_isBlank blank,
            List.flatMap_cons, ← List.append_assoc]
          exact ih joined later closedLater

theorem isBlank_of_isString {token : Token} (isString : token.isString = true) :
    token.isBlank = false := by
  rw [Token.isBlank, beq_iff_eq.mp isString]
  rfl

theorem Token.dropLast_lexeme {token : Token} (closed : token.IsClosed)
    (isString : token.isString = true) :
    token.lexeme.toList.dropLast =
      beforeQuote '"' token.lexeme.toList ++ '"' :: token.content := by
  have parts := (closed.inQuotes isString).parts
  rw [← List.cons_append, ← List.append_assoc] at parts
  conv => lhs; rw [parts, List.dropLast_concat]
  rfl

/-- A terminated literal is its text up to the closing quote, and the quote. -/
theorem Token.lexeme_eq_append_quote {token : Token} (closed : token.IsClosed)
    (isString : token.isString = true) :
    token.lexeme.toList = token.lexeme.toList.dropLast ++ ['"'] := by
  rw [Token.dropLast_lexeme closed isString, List.append_assoc]
  exact (closed.inQuotes isString).parts

/-- The run is written as one text, after line feeds that lead to the line it stands on. -/
theorem exists_reassemble_append_run {before others : List Token} {first : Token}
    (run : IsLiteralRun (first :: others)) (apart : endsInLiteral before = false) :
    ∃ lineFeeds, reassemble (before ++ first :: others) =
      reassemble before ++ String.ofList (List.replicate lineFeeds '\n') ++
        String.ofList (joinedText first (significant others)) := by
  have isString : first.isString = true := run.begins
  rcases List.forall_mem_cons.mp run.closed with ⟨closedFirst, closedOthers⟩
  have kind : first.kind = .stringLiteral := beq_iff_eq.mp isString
  have overlap := overlap_foldl_add_eq_zero apart
  generalize drafted : before.foldl Draft.add Draft.empty = draft at overlap
  refine ⟨first.line - draft.line, ?_⟩
  have added : draft.add first = draft.put first := by
    rw [Draft.add, kind]
    exact if_pos overlap
  have ends : (draft.put first).EndsWith (draft.reversed.reverse ++
      List.replicate (first.line - draft.line) '\n' ++ first.lexeme.toList.dropLast)
      ⟨true, false⟩ := by
    refine ⟨?_, ?_, ?_⟩
    · conv => lhs; rw [Draft.put, Token.lexeme_eq_append_quote closedFirst isString]
      simp [Draft.write, Draft.record, Ending.text]
    · change some first.kind = some .whitespace ↔ false = true
      rw [kind]
      decide
    · change some first.kind = some .stringLiteral ↔ true = true
      rw [kind]
      decide
  have finished := ends.foldl_add (fun token member => run.parts token (List.mem_cons_of_mem _ member))
    closedOthers
  have noBlank : (others.getLast?.map Token.isBlank).getD false = false := by
    have ends := run.ends
    rw [List.getLast?_cons] at ends
    cases last : others.getLast? with
    | none => rfl
    | some token =>
        rw [last] at ends
        exact isBlank_of_isString ends
  rw [noBlank] at finished
  have text := finished.text
  rw [reassemble, reassemble, List.foldl_append, List.foldl_cons, drafted, added, Draft.text,
    Draft.text, text, joinedText, ← String.ofList_append, ← String.ofList_append]
  simp only [List.append_assoc]
  rfl

/-! ## Reading the text of a run -/

/-- A text that begins with a literal is read as that literal and what comes after it. -/
theorem tokenize_literal_append {name body more : List Char} (isPrefix : IsLiteralPrefix name)
    (filled : fillsQuotes '"' body = true)
    (noLineFeed : '\n' ∉ name ++ '"' :: (body ++ '"' :: more)) :
    tokenize (String.ofList (name ++ '"' :: (body ++ '"' :: more))) =
      ⟨.stringLiteral, 1, String.ofList (name ++ '"' :: (body ++ ['"']))⟩ :: tokensFrom 1 more := by
  have literal : TokenKind.quote? .stringLiteral = some '"' := rfl
  have reading := tokensFrom_lexeme (literal_standsBefore literal isPrefix filled more) rfl 1
  rw [List.append_assoc, List.cons_append, List.append_assoc, List.singleton_append] at reading
  rw [tokenize_ofList (unspliced_of_lineFeed_notMem noLineFeed), reading]
  rfl

theorem IsLiteralPrefix.doubleQuote_notMem {name : List Char} (isPrefix : IsLiteralPrefix name) :
    '"' ∉ name := by
  have literal : TokenKind.quote? .stringLiteral = some '"' := rfl
  exact isPrefix.quote_notMem literal

section Literals

variable {token : Token}

theorem Token.content_literal {name body : List Char} (isPrefix : IsLiteralPrefix name)
    (line : Nat) :
    Token.content ⟨.stringLiteral, line, String.ofList (name ++ '"' :: (body ++ ['"']))⟩ = body := by
  rw [Token.content, String.toList_ofList]
  exact betweenQuotes_append isPrefix.doubleQuote_notMem body

theorem Token.isClosed_literal {name body : List Char} (isPrefix : IsLiteralPrefix name)
    (filled : fillsQuotes '"' body = true) (line : Nat) :
    Token.IsClosed ⟨.stringLiteral, line, String.ofList (name ++ '"' :: (body ++ ['"']))⟩ := by
  intro quote quoted
  cases quoted
  change InQuotes '"' (String.ofList _).toList
  rw [String.toList_ofList]
  exact inQuotes_of_fillsQuotes isPrefix.doubleQuote_notMem filled

/-- The first character that is left out is the quote only where there is no prefix. -/
theorem Token.continuation_eq (closed : token.IsClosed) (isString : token.isString = true) :
    token.continuation =
      match beforeQuote '"' token.lexeme.toList with
      | [] => token.content
      | _ :: name => name ++ '"' :: token.content := by
  have whole := Token.dropLast_lexeme closed isString
  rw [Token.continuation, List.drop_one, ← List.tail_dropLast, whole]
  cases beforeQuote '"' token.lexeme.toList <;> rfl

theorem IsLiteralPrefix.lineFeed_notMem {name : List Char} (isPrefix : IsLiteralPrefix name) :
    '\n' ∉ name := by
  have listed : ∀ name ∈ [['L'], ['u'], ['U'], ['u', '8']], '\n' ∉ name := by decide
  rcases isPrefix with rfl | encoding
  · exact List.not_mem_nil
  · exact listed name (mem_of_isEncodingPrefix encoding)

theorem Token.lineFeed_notMem_lexeme (closed : token.IsClosed) (isString : token.isString = true)
    (isPrefix : IsLiteralPrefix (beforeQuote '"' token.lexeme.toList)) :
    '\n' ∉ token.lexeme.toList := by
  have quoted := closed.inQuotes isString
  rw [quoted.parts]
  simp only [List.mem_append, List.mem_cons, not_or]
  exact ⟨isPrefix.lineFeed_notMem, by decide, lineFeed_notMem_of_fillsQuotes quoted.filled,
    by decide⟩

end Literals

section Runs

variable {first : Token} {others : List Token}

theorem lineFeed_notMem_joinedText (closed : ∀ token ∈ first :: others, token.IsClosed)
    (strings : ∀ token ∈ first :: others, token.isString = true)
    (prefixes : ∀ token ∈ first :: others, IsLiteralPrefix (beforeQuote '"' token.lexeme.toList)) :
    '\n' ∉ joinedText first others := by
  have lexemes : ∀ token ∈ first :: others, '\n' ∉ token.lexeme.toList := fun token member =>
    Token.lineFeed_notMem_lexeme (closed token member) (strings token member)
      (prefixes token member)
  have within : ∀ token : Token, token.continuation ⊆ token.lexeme.toList := fun token =>
    ((List.dropLast_sublist _).trans (List.drop_sublist _ _)).subset
  simp only [joinedText, List.mem_append, List.mem_flatMap, not_or, not_exists, not_and]
  refine ⟨⟨?_, ?_⟩, by decide⟩
  · exact fun member => lexemes first List.mem_cons_self ((List.dropLast_sublist _).subset member)
  · intro token member found
    exact lexemes token (List.mem_cons_of_mem _ member) (within token found)

/-- Literals without prefixes add what they say. -/
theorem flatMap_continuation (closed : ∀ token ∈ others, token.IsClosed)
    (strings : ∀ token ∈ others, token.isString = true)
    (unprefixed : ∀ token ∈ others, beforeQuote '"' token.lexeme.toList = []) :
    others.flatMap Token.continuation = (others.map Token.content).flatten := by
  rw [← List.flatMap_def]
  apply List.flatMap_congr
  intro token member
  rw [Token.continuation_eq (closed token member) (strings token member), unprefixed token member]

/-- The first literal with a prefix brings its opening quote, and there is more behind it. -/
theorem exists_quote_of_prefixed (closed : ∀ token ∈ others, token.IsClosed)
    (strings : ∀ token ∈ others, token.isString = true)
    (prefixes : ∀ token ∈ others, IsLiteralPrefix (beforeQuote '"' token.lexeme.toList))
    (prefixed : ∃ token ∈ others, beforeQuote '"' token.lexeme.toList ≠ []) :
    ∃ body more, others.flatMap Token.continuation = body ++ '"' :: more ∧
      fillsQuotes '"' body = true := by
  induction others with
  | nil =>
      rcases prefixed with ⟨token, member, _⟩
      cases member
  | cons token rest ih =>
      rcases List.forall_mem_cons.mp closed with ⟨closedHere, closedLater⟩
      rcases List.forall_mem_cons.mp strings with ⟨isString, stringsLater⟩
      rcases List.forall_mem_cons.mp prefixes with ⟨isPrefix, prefixesLater⟩
      have adds := Token.continuation_eq closedHere isString
      rw [List.flatMap_cons, adds]
      cases name : beforeQuote '"' token.lexeme.toList with
      | nil =>
          have later : ∃ token ∈ rest, beforeQuote '"' token.lexeme.toList ≠ [] := by
            rcases prefixed with ⟨other, member, named⟩
            rcases List.mem_cons.mp member with rfl | member
            · exact absurd name named
            · exact ⟨other, member, named⟩
          rcases ih closedLater stringsLater prefixesLater later with ⟨body, more, text, filled⟩
          refine ⟨token.content ++ body, more, ?_, ?_⟩
          · rw [text, List.append_assoc]
          · exact fillsQuotes_append (closedHere.inQuotes isString).filled filled
      | cons letter letters =>
          have listed : ∀ name ∈ [['L'], ['u'], ['U'], ['u', '8']],
              fillsQuotes '"' name.tail = true := by
            decide
          refine ⟨letters, token.content ++ rest.flatMap Token.continuation, ?_, ?_⟩
          · simp
          · rw [name] at isPrefix
            rcases isPrefix with none | encoding
            · cases none
            · exact listed _ (mem_of_isEncodingPrefix encoding)

theorem joinedText_eq (closed : first.IsClosed) (isString : first.isString = true)
    (others : List Token) :
    joinedText first others = beforeQuote '"' first.lexeme.toList ++
      '"' :: (first.content ++ others.flatMap Token.continuation ++ ['"']) := by
  rw [joinedText, Token.dropLast_lexeme closed isString]
  simp only [List.append_assoc, List.cons_append]

/-- Unless a later literal has a prefix, the text is read as one literal. -/
theorem tokenize_joinedText (closed : ∀ token ∈ first :: others, token.IsClosed)
    (strings : ∀ token ∈ first :: others, token.isString = true)
    (prefixes : ∀ token ∈ first :: others, IsLiteralPrefix (beforeQuote '"' token.lexeme.toList))
    (unprefixed : ∀ token ∈ others, beforeQuote '"' token.lexeme.toList = []) :
    tokenize (String.ofList (joinedText first others)) =
      [⟨.stringLiteral, 1, String.ofList (beforeQuote '"' first.lexeme.toList ++
        '"' :: (((first :: others).map Token.content).flatten ++ ['"']))⟩] := by
  have noLineFeed := lineFeed_notMem_joinedText closed strings prefixes
  have contents : first.content ++ others.flatMap Token.continuation =
      ((first :: others).map Token.content).flatten := by
    rw [flatMap_continuation (fun token member => closed token (List.mem_cons_of_mem _ member))
      (fun token member => strings token (List.mem_cons_of_mem _ member)) unprefixed]
    rfl
  have filled := fillsQuotes_contents closed strings
  rw [List.flatMap_def] at filled
  rw [joinedText_eq (closed first List.mem_cons_self) (strings first List.mem_cons_self),
    contents] at noLineFeed ⊢
  rw [tokenize_literal_append (prefixes first List.mem_cons_self) filled noLineFeed, tokensFrom_nil]

/-- The quote that a later literal brings with its prefix is not the end of the text. -/
theorem tokenize_joinedText_ne_singleton (closed : ∀ token ∈ first :: others, token.IsClosed)
    (strings : ∀ token ∈ first :: others, token.isString = true)
    (prefixes : ∀ token ∈ first :: others, IsLiteralPrefix (beforeQuote '"' token.lexeme.toList))
    (prefixed : ∃ token ∈ others, beforeQuote '"' token.lexeme.toList ≠ []) (single : Token) :
    tokenize (String.ofList (joinedText first others)) ≠ [single] := by
  have noLineFeed := lineFeed_notMem_joinedText closed strings prefixes
  rcases exists_quote_of_prefixed (fun token member => closed token (List.mem_cons_of_mem _ member))
    (fun token member => strings token (List.mem_cons_of_mem _ member))
    (fun token member => prefixes token (List.mem_cons_of_mem _ member)) prefixed with
    ⟨body, more, text, filled⟩
  have filledHere : fillsQuotes '"' first.content = true :=
    ((closed first List.mem_cons_self).inQuotes (strings first List.mem_cons_self)).filled
  have parts : first.content ++ others.flatMap Token.continuation ++ ['"'] =
      first.content ++ body ++ '"' :: (more ++ ['"']) := by
    rw [text]
    simp only [List.append_assoc, List.cons_append]
  rw [joinedText_eq (closed first List.mem_cons_self) (strings first List.mem_cons_self),
    parts] at noLineFeed ⊢
  rw [tokenize_literal_append (prefixes first List.mem_cons_self)
    (fillsQuotes_append filledHere filled) noLineFeed]
  intro alone
  exact tokensFrom_ne_nil (List.append_ne_nil_of_right_ne_nil _ (List.cons_ne_nil _ _)) 1
    (List.cons.inj alone).2

theorem IsLiteralRun.significant_cons (run : IsLiteralRun (first :: others)) :
    significant (first :: others) = first :: significant others :=
  significant_cons_of_not_isBlank (isBlank_of_isString run.begins) others

theorem IsLiteralRun.of_mem (run : IsLiteralRun (first :: others)) :
    ∀ token ∈ first :: significant others, token.IsClosed ∧ token.isString = true ∧
      IsLiteralPrefix (beforeQuote '"' token.lexeme.toList) := by
  rw [← run.significant_cons]
  intro token member
  have kept := List.mem_filter.mp member
  refine ⟨run.closed token kept.1, ?_, ?_⟩
  · rcases run.parts token kept.1 with isString | blank
    · exact isString
    · simp [blank] at kept
  · rcases run.prefixes with ⟨name, encoding, shared⟩
    rcases shared token member with none | named
    · exact .inl none
    · exact .inr (named ▸ encoding)

/-- The text of a run is one literal with the values of all, exactly if only the first one
has a prefix and no escape goes on in the next literal. -/
theorem saysAllOf_joinedText_iff (run : IsLiteralRun (first :: others)) :
    SaysAllOf (first :: others) (String.ofList (joinedText first (significant others))) ↔
      (∀ token ∈ significant others, beforeQuote '"' token.lexeme.toList = []) ∧
        Literal.SeamsHold ((first :: significant others).map Token.content) := by
  have literals := run.of_mem
  rw [SaysAllOf, run.significant_cons]
  generalize significant others = later at literals ⊢
  have closed := fun token member => (literals token member).1
  have strings := fun token member => (literals token member).2.1
  have prefixes := fun token member => (literals token member).2.2
  have isPrefix := prefixes first List.mem_cons_self
  by_cases unprefixed : ∀ token ∈ later, beforeQuote '"' token.lexeme.toList = []
  · have filled := fillsQuotes_contents closed strings
    rw [List.flatMap_def] at filled
    have eachFilled : ∀ content ∈ (first :: later).map Token.content,
        fillsQuotes '"' content = true := by
      intro content member
      rcases List.mem_map.mp member with ⟨token, inRun, rfl⟩
      exact ((closed token inRun).inQuotes (strings token inRun)).filled
    rw [and_iff_right unprefixed, tokenize_joinedText closed strings prefixes unprefixed,
      ← Literal.value_flatten_eq_flatMap_iff eachFilled, List.flatMap_map]
    constructor
    · rintro ⟨token, single, _, _, valued⟩
      rw [← (List.cons.inj single).1, Token.stringValue, Token.content_literal isPrefix] at valued
      exact valued
    · intro valued
      refine ⟨_, rfl, rfl, Token.isClosed_literal isPrefix filled 1, ?_⟩
      rw [Token.stringValue, Token.content_literal isPrefix]
      exact valued
  · refine iff_of_false ?_ fun both => unprefixed both.1
    rintro ⟨token, single, _⟩
    have prefixed : ∃ token ∈ later, beforeQuote '"' token.lexeme.toList ≠ [] := by
      simpa using unprefixed
    exact tokenize_joinedText_ne_singleton closed strings prefixes prefixed token single

end Runs

/-! ## Runs within other tokens -/

/-- The text that a run adds to what is written before it is, behind line feeds, one literal
with the values of all of its literals, exactly if none but the first has an encoding prefix
and none ends in a numeric escape that the next one begins with a digit of. -/
theorem exists_reassemble_and_saysAllOf_iff (before run : List Token) (isRun : IsLiteralRun run)
    (apart : endsInLiteral before = false) :
    ∃ lineFeeds text,
      reassemble (before ++ run) =
          reassemble before ++ String.ofList (List.replicate lineFeeds '\n') ++ text ∧
        text.toList.head? ≠ some '\n' ∧
        (SaysAllOf run text ↔
          (∀ token ∈ (significant run).tail, beforeQuote '"' token.lexeme.toList = []) ∧
            Literal.SeamsHold ((significant run).map Token.content)) := by
  cases run with
  | nil => cases isRun.begins
  | cons first others =>
      rcases exists_reassemble_append_run isRun apart with ⟨lineFeeds, written⟩
      refine ⟨lineFeeds, _, written, ?_, ?_⟩
      · have literals := isRun.of_mem
        have noLineFeed := lineFeed_notMem_joinedText (fun token member => (literals token member).1)
          (fun token member => (literals token member).2.1)
          (fun token member => (literals token member).2.2)
        rw [String.toList_ofList]
        exact fun begins => noLineFeed (List.mem_of_head? begins)
      · rw [isRun.significant_cons]
        exact saysAllOf_joinedText_iff isRun

/-- An escape that comes last but one, with an empty literal behind it and a letter that is
no digit after that. -/
def separatedLiterals : List Token :=
  [⟨.stringLiteral, 1, "L\"a\\x1\""⟩, ⟨.whitespace, 1, " "⟩, ⟨.stringLiteral, 1, "\"\""⟩,
    ⟨.newline, 1, "\n"⟩, ⟨.stringLiteral, 2, "\"g2\""⟩]

theorem exists_reassemble_and_saysAllOf_iff_separated :
    IsLiteralRun separatedLiterals ∧ endsInLiteral [⟨.identifier, 1, "x"⟩] = false ∧
      ∃ lineFeeds text,
        reassemble (⟨.identifier, 1, "x"⟩ :: separatedLiterals) =
            reassemble [⟨.identifier, 1, "x"⟩] ++ String.ofList (List.replicate lineFeeds '\n') ++
              text ∧
          SaysAllOf separatedLiterals text := by
  have isRun : IsLiteralRun separatedLiterals :=
    ⟨by decide, by decide, by decide, by decide, by decide, ['L'], by decide, by decide⟩
  have apart : endsInLiteral [⟨.identifier, 1, "x"⟩] = false := by decide
  refine ⟨isRun, apart, ?_⟩
  rcases exists_reassemble_and_saysAllOf_iff [⟨.identifier, 1, "x"⟩] separatedLiterals isRun apart
    with ⟨lineFeeds, text, written, _, valued⟩
  exact ⟨lineFeeds, text, written, valued.mpr ⟨by decide, by decide +kernel⟩⟩

/-- Two literals with the same prefix. -/
def wideLiterals : List Token :=
  [⟨.stringLiteral, 1, "L\"a\""⟩, ⟨.whitespace, 1, " "⟩, ⟨.stringLiteral, 1, "L\"b\""⟩]

/-- A literal that ends in an escape, and one that begins with a digit. -/
def fusingLiterals : List Token :=
  [⟨.stringLiteral, 1, "\"\\x1\""⟩, ⟨.whitespace, 1, " "⟩, ⟨.stringLiteral, 1, "\"2\""⟩]

/-- With its prefix cut in the middle, the second literal is not joined to the first; and an
escape takes over digits of another literal. -/
theorem not_saysAllOf_reassemble :
    (IsLiteralRun wideLiterals ∧ ¬ SaysAllOf wideLiterals (reassemble wideLiterals)) ∧
      (IsLiteralRun fusingLiterals ∧ ¬ SaysAllOf fusingLiterals (reassemble fusingLiterals)) := by
  refine ⟨⟨⟨by decide, by decide, by decide, by decide, by decide, ['L'], by decide, by decide⟩, ?_⟩,
    ⟨by decide, by decide, by decide, by decide, by decide, ['L'], by decide, by decide⟩, ?_⟩
  · rintro ⟨token, single, _⟩
    have read : tokenize (reassemble wideLiterals) =
        [⟨.stringLiteral, 1, "L\"a\""⟩, ⟨.identifier, 1, "b"⟩, ⟨.stringLiteral, 1, "\""⟩] := by
      decide +kernel
    rw [read] at single
    cases single
  · rintro ⟨token, single, _, _, valued⟩
    have read : tokenize (reassemble fusingLiterals) = [⟨.stringLiteral, 1, "\"\\x12\""⟩] := by
      decide +kernel
    rw [read] at single
    rw [← (List.cons.inj single).1] at valued
    revert valued
    decide +kernel

end Source
end ObjectWrapper
