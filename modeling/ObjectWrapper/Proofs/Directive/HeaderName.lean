import ObjectWrapper.Directive.Target
import ObjectWrapper.Proofs.Source.Gaps
import ObjectWrapper.Proofs.Source.Neighbours
import ObjectWrapper.Proofs.Text.Trimmed

namespace ObjectWrapper

open Source Files

/-!
# Header names that survive reading

The name of a header between angle brackets is cut into tokens like any other text: into
names, numbers and punctuators, which are put together again up to the first token that is a
closing bracket.  So the name is what has been written if the bracket behind it is read as a
token of its own and no part of the name is taken for a blank.  What could prevent that are
two slashes, which begin a comment, and a minus at the end, which makes an arrow of the
bracket.  Numbers take signs behind the letter of an exponent, but no bracket.

A name between quotation marks is one token.
-/

namespace Directive

/-- The characters of which names between angle brackets consist. -/
def isHeaderChar (character : Char) : Bool :=
  character.isAlphanum || ['_', '.', '/', '+', '-'].contains character

/-- The characters can stand between angle brackets and are told apart from these. -/
structure IsAngleName (name : List Char) : Prop where
  plain : ∀ character ∈ name, isHeaderChar character = true
  noComment : ¬ ['/', '/'] <:+: name
  noArrow : name.getLast? ≠ some '-'

/-- The text names the header. -/
inductive WritesHeader : String -> Header -> Prop where
  | angled {name : String} (isName : IsAngleName name.toList) :
      WritesHeader ("<" ++ name ++ ">") ⟨name, false⟩
  | quoted {name : String}
      (plain : ∀ character ∈ name.toList, character ≠ '"' ∧ character ≠ '\\' ∧ character ≠ '\n') :
      WritesHeader ("\"" ++ name ++ "\"") ⟨name, true⟩

/-! ## What is seen of a header -/

theorem joinLexemes_map_atLine (tokens : List Token) (line : Nat) :
    joinLexemes (tokens.map (·.atLine line)) = joinLexemes tokens := by
  rw [joinLexemes, joinLexemes, List.map_map]
  rfl

theorem header?_map_atLine (tokens : List Token) (line : Nat) :
    header? (tokens.map (·.atLine line)) = header? tokens := by
  have blank : Token.isBlank ∘ (·.atLine line) = Token.isBlank := rfl
  unfold header?
  rw [List.dropWhile_map, blank]
  cases tokens.dropWhile Token.isBlank with
  | nil => rfl
  | cons first rest =>
      simp only [List.map_cons, List.any_map, List.takeWhile_map, joinLexemes_map_atLine]
      rfl

theorem overlooksGaps_header? : OverlooksGaps header? where
  skips token rest blank := by
    rw [header?, List.dropWhile_cons, if_pos blank]
    rfl
  placeless tokens others same := by
    have recovered : ∀ token : Token,
        (fun spelling : TokenKind × String => (⟨spelling.1, 0, spelling.2⟩ : Token))
          token.spelling = token.atLine 0 := fun _ => rfl
    have moved : tokens.map (·.atLine 0) = others.map (·.atLine 0) := by
      simpa [Function.comp_def, recovered] using
        congrArg (List.map fun spelling : TokenKind × String =>
          (⟨spelling.1, 0, spelling.2⟩ : Token)) same
    rw [← header?_map_atLine tokens 0, moved, header?_map_atLine]

section

variable {opening closing : Token} {between after : List Token}

/-- The name between angle brackets is what the tokens up to the closing one say. -/
theorem header?_of_isPunctuator (opens : opening.isPunctuator "<" = true)
    (inside : ∀ token ∈ between, token.isPunctuator ">" = false)
    (closes : closing.isPunctuator ">" = true) :
    header? (opening :: (between ++ closing :: after)) = some ⟨joinLexemes between, false⟩ := by
  have noBlank := Token.isBlank_of_isPunctuator opens
  have noString : (opening.kind == .stringLiteral) = false := by
    rw [Token.kind_of_isPunctuator opens]
    rfl
  have closed : (between ++ closing :: after).any (·.isPunctuator ">") = true := by
    simp [closes]
  have taken : (between ++ closing :: after).takeWhile (! ·.isPunctuator ">") = between := by
    rw [List.takeWhile_append_of_pos (by simpa using inside),
      List.takeWhile_cons_of_neg (by simp [closes]), List.append_nil]
  rw [header?, List.dropWhile_cons_of_neg (by simp [noBlank])]
  simp only [noString, Bool.false_and, Bool.false_eq_true, if_false, opens, if_true, closed, taken]

end

theorem header?_of_stringLiteral {line : Nat} {lexeme : String} {after : List Token}
    (opens : lexeme.toList.head? = some '"') :
    header? (⟨.stringLiteral, line, lexeme⟩ :: after) = some ⟨unquote lexeme, true⟩ := by
  rw [header?, List.dropWhile_cons_of_neg (by simp [Token.isBlank, TokenKind.isBlank])]
  simp [opens]

theorem unquote_of_quote_notMem {name : List Char} (noQuote : '"' ∉ name) :
    unquote (String.ofList ('"' :: (name ++ ['"']))) = String.ofList name := by
  have noneAtEnds : ∀ character ∈ name, (character == '"') = false :=
    fun character member => beq_eq_false_iff_ne.mpr fun same => noQuote (same ▸ member)
  have trimmed := @Text.rdropWhile_dropWhile_append Char (· == '"') ['"'] name ['"'] (by simp)
    (by simp) (fun character head => noneAtEnds character (List.mem_of_mem_head? head))
    fun character last => noneAtEnds character (List.mem_of_getLast? last)
  rw [unquote, String.toList_ofList]
  exact congrArg String.ofList trimmed

/-! ## A name between quotation marks -/

theorem header?_tokenize_quoted {name : List Char}
    (plain : ∀ character ∈ name, character ≠ '"' ∧ character ≠ '\\' ∧ character ≠ '\n') :
    header? (tokenize (String.ofList ('"' :: (name ++ ['"'])))) =
      some ⟨String.ofList name, true⟩ := by
  have quotes : TokenKind.quote? .stringLiteral = some '"' := rfl
  have stands := literal_standsBefore quotes (.inl rfl) (fillsQuotes_of_plain plain) []
  have alone := tokenize_lexeme stands rfl
  rw [List.nil_append] at alone
  rw [alone]
  change header? [⟨.stringLiteral, 1, String.ofList ('"' :: (name ++ ['"']))⟩] = _
  rw [header?_of_stringLiteral (by rw [String.toList_ofList]; rfl),
    unquote_of_quote_notMem fun member => (plain '"' member).1 rfl]

/-! ## A name between angle brackets -/

/-- A punctuator that ends with a closing bracket is one, or an arrow, or has a character that
names do not have. -/
theorem closing_punctuators : ∀ sign ∈ punctuators.map String.toList,
    ∀ front, sign = front ++ ['>'] -> front = [] ∨ front = ['-'] ∨
      ∃ character ∈ front, isHeaderChar character = false := by
  -- the characters are tested by a computation: a bounded quantifier would range over all of them
  have listed : ∀ sign ∈ punctuators.map String.toList, sign.getLast? = some '>' ->
      sign.dropLast = [] ∨ sign.dropLast = ['-'] ∨ sign.dropLast.all isHeaderChar = false := by
    decide +kernel
  rintro sign member front rfl
  simpa using listed _ member (by simp)

/-- What does not reach the last element is a part of the others. -/
theorem exists_append_of_concat_eq {α : Type} {front back list : List α} {last : α}
    (whole : list ++ [last] = front ++ back) (notIn : last ∉ front) :
    ∃ rest, list = front ++ rest ∧ back = rest ++ [last] := by
  rcases List.append_eq_append_iff.mp whole with ⟨more, reaches, ends⟩ | within
  · cases more with
    | nil => exact ⟨[], by simpa using reaches.symm, by simpa using ends.symm⟩
    | cons other others =>
        rcases List.cons.inj ends with ⟨rfl, _⟩
        exact absurd (reaches ▸ List.mem_append_right list List.mem_cons_self) notIn
  · exact within

namespace IsAngleName

theorem notMem {name : List Char} (isName : IsAngleName name) {character : Char}
    (outside : isHeaderChar character = false) : character ∉ name :=
  fun member => absurd (isName.plain character member) (Bool.eq_false_iff.mp outside)

theorem of_append {front rest : List Char} (isName : IsAngleName (front ++ rest)) :
    IsAngleName rest where
  plain character member := isName.plain character (List.mem_append_right front member)
  noComment found := isName.noComment (found.trans (List.suffix_append front rest).isInfix)
  noArrow arrow := isName.noArrow (by rw [List.getLast?_append, arrow]; rfl)

variable {first : Char} {others : List Char} (isName : IsAngleName (first :: others))
include isName

theorem first_ne {character : Char} (outside : isHeaderChar character = false) :
    first ≠ character := by
  rintro rfl
  exact isName.notMem outside List.mem_cons_self

/-- A name begins no blank and no comment, the bracket behind it included. -/
theorem beginsLexeme : BeginsLexeme first (others ++ ['>']) where
  noLineEnd := isName.first_ne (by decide)
  noBlank := by
    have differs : ∀ other, isHeaderChar other = false -> (first == other) = false :=
      fun other outside => beq_eq_false_iff_ne.mpr (isName.first_ne outside)
    simp [isBlankChar, differs ' ' (by decide), differs '\t' (by decide), differs '\r' (by decide),
      differs '\x0b' (by decide), differs '\x0c' (by decide)]
  noLineComment found := by
    rcases pair_isPrefix_iff.mp found with ⟨slash, head⟩
    cases others with
    | nil => cases head
    | cons second more =>
        have here : ['/', '/'] <+: first :: second :: more := pair_isPrefix_iff.mpr ⟨slash, head⟩
        exact isName.noComment here.isInfix
  noBlockComment found := by
    rcases pair_isPrefix_iff.mp found with ⟨_, head⟩
    cases others with
    | nil => cases head
    | cons second more =>
        cases head
        exact isName.notMem (by decide) (List.mem_cons_of_mem first List.mem_cons_self)

theorem closing_notMem_punctuatorAt {sign : List Char}
    (found : punctuatorAt (first :: (others ++ ['>'])) = some sign) : '>' ∉ sign := by
  intro member
  have isPrefix : sign <+: (first :: others) ++ ['>'] := isPrefix_of_punctuatorAt found
  rcases List.prefix_concat_iff.mp isPrefix with reaches | within
  · rcases closing_punctuators sign (List.mem_of_find?_eq_some found) _ reaches with
      never | arrow | ⟨character, inName, outside⟩
    · cases never
    · exact isName.noArrow (arrow ▸ rfl)
    · exact isName.notMem outside inName
  · exact isName.notMem (by decide) (within.subset member)

/-- No segment that begins in a name takes the bracket behind it. -/
theorem closing_notMem_readSegment :
    '>' ∉ (readSegment first (others ++ ['>'])).segment.text := by
  have notFirst : '>' ≠ first := (isName.first_ne (by decide)).symm
  have whole := readSegment_whole first (others ++ ['>'])
  rw [isName.beginsLexeme.readSegment_eq] at whole ⊢
  cases readBy_lexemeReading first (others ++ ['>']) with
  | name start read =>
      rw [read]
      intro member
      rcases List.mem_cons.mp member with same | taken
      · exact notFirst same
      · cases List.mem_takeWhile_imp taken
  | literal kind quote name text isQuote isPrefix read =>
      -- there would be a quotation mark in the name
      have inText : quote ∈ (first :: others) ++ ['>'] := by
        rw [List.cons_append, ← whole, read]
        simp [Reading.whole, Cut.reading, Cut.after]
      rcases quote?_eq_some_iff.mp isQuote with ⟨_, rfl⟩ | ⟨_, rfl⟩
      · have notInName := isName.notMem (show isHeaderChar '"' = false by decide)
        exact absurd inText (by simpa using notInName)
      · have notInName := isName.notMem (show isHeaderChar '\'' = false by decide)
        exact absurd inText (by simpa using notInName)
  | number noName begins read =>
      rw [read]
      intro member
      rcases List.mem_cons.mp member with same | taken
      · exact notFirst same
      · rcases mem_numberTail '>' taken with part | part
        · cases part
        · exact absurd part (by decide)
  | symbol noName noNumber noQuote read =>
      rw [read]
      unfold symbolReading
      split
      · rename_i sign found
        exact isName.closing_notMem_punctuatorAt found
      · simpa using notFirst

/-- The first segment of a name with the bracket behind it is a part of the name. -/
theorem exists_append_of_standsBefore {segment : Segment} {left : List Char}
    (stands : segment.StandsBefore left) (whole : segment.text ++ left = first :: others ++ ['>']) :
    segment.kind.isBlank = false ∧ '>' ∉ segment.text ∧
      ∃ rest, first :: others = segment.text ++ rest ∧ left = rest ++ ['>'] := by
  have notIn := isName.closing_notMem_readSegment
  have significant := (isLexeme_lexemeReading first (others ++ ['>'])).1
  rw [← isName.beginsLexeme.readSegment_eq] at significant
  have same := whole
  rcases stands with ⟨head, tail, text, read⟩
  rw [text, List.cons_append, List.cons_append, List.cons.injEq] at same
  rcases same with ⟨rfl, later⟩
  rw [← later, read] at notIn significant
  exact ⟨significant, notIn, exists_append_of_concat_eq whole.symm notIn⟩

end IsAngleName

/-- The tokens of a name and of the bracket behind it: those of the name hold no closing bracket
and put together say the name, and the bracket is one of its own. -/
theorem exists_tokensFrom_name {name : List Char} (isName : IsAngleName name) (line : Nat) :
    ∃ tokens closing, tokensFrom line (name ++ ['>']) = tokens ++ [closing] ∧
      closing.isPunctuator ">" = true ∧ (∀ token ∈ tokens, token.isPunctuator ">" = false) ∧
      spelled tokens = name := by
  generalize whole : name ++ ['>'] = text
  induction text using segment_induction generalizing name line with
  | nil => simp at whole
  | append segment left stands ih =>
      cases name with
      | nil =>
          have bracket : Segment.StandsBefore ⟨.verbatim .punctuator, ['>']⟩ [] :=
            ⟨'>', [], rfl, rfl⟩
          have read := tokensFrom_append bracket line
          rw [tokensFrom_nil] at read
          rw [← whole]
          exact ⟨[], _, read, rfl, List.forall_mem_nil _, rfl⟩
      | cons first others =>
          rcases isName.exists_append_of_standsBefore stands whole.symm with
            ⟨significant, notIn, rest, split, rfl⟩
          have lexeme := Segment.toList_lexeme significant
          have noClosing : (segment.token line).isPunctuator ">" = false := by
            refine Bool.eq_false_iff.mpr fun closing => notIn ?_
            simp only [Token.isPunctuator, Bool.and_eq_true, beq_iff_eq] at closing
            rw [← lexeme, show segment.lexeme = ">" from closing.2]
            decide
          rw [split] at isName
          rcases ih isName.of_append line rfl with
            ⟨tokens, closing, tokensRead, closes, inside, spells⟩
          refine ⟨segment.token line :: tokens, closing, ?_, closes,
            List.forall_mem_cons.mpr ⟨noClosing, inside⟩, ?_⟩
          · rw [tokensFrom_lexeme stands significant, tokensRead]
            rfl
          · rw [spelled_cons, spells, split]
            exact congrArg (· ++ rest) lexeme

/-- The bracket in front of a name is a token of its own. -/
theorem standsBefore_opening {text : List Char}
    (head : ∀ character ∈ text.head?, isHeaderChar character = true ∨ character = '>') :
    Segment.StandsBefore ⟨.verbatim .punctuator, ['<']⟩ text := by
  have alone : Segment.StandsBefore ⟨.verbatim .punctuator, ['<']⟩ [] := ⟨'<', [], rfl, rfl⟩
  have listed : ∀ sign ∈ punctuators.map String.toList, sign.take 1 = ['<'] -> sign.length = 2 ->
      sign.getLast?.all (fun character => ! isHeaderChar character && character != '>') = true := by
    decide +kernel
  rw [Segment.standsBefore_punctuator_iff alone rfl (by decide)]
  intro character inText longer
  have outside := listed _ longer rfl rfl
  rcases head character inText with plain | bracket
  · simp [plain] at outside
  · simp [bracket] at outside

theorem header?_tokenize_angled {name : List Char} (isName : IsAngleName name) :
    header? (tokenize (String.ofList ('<' :: (name ++ ['>'])))) =
      some ⟨String.ofList name, false⟩ := by
  have noLineEnd : '\n' ∉ '<' :: (name ++ ['>']) := by
    have notInName : '\n' ∉ name := isName.notMem (by decide)
    simp [notInName]
  have head : ∀ character ∈ (name ++ ['>']).head?,
      isHeaderChar character = true ∨ character = '>' := by
    intro character first
    rcases List.mem_append.mp (List.mem_of_mem_head? first) with inName | bracket
    · exact .inl (isName.plain character inName)
    · exact .inr (List.mem_singleton.mp bracket)
  have opening := tokensFrom_lexeme (standsBefore_opening head) rfl 1
  rcases exists_tokensFrom_name isName 1 with
    ⟨tokens, closing, read, closes, inside, spells⟩
  rw [List.singleton_append, read] at opening
  rw [tokenize_ofList (unspliced_of_lineFeed_notMem noLineEnd), opening,
    header?_of_isPunctuator rfl inside closes, ← spells, ← toList_joinLexemes, String.ofList_toList]

/-! ## Written headers -/

/-- A header that is written behind a gap is the one that is read. -/
theorem header?_tokenize_of_writesHeader {gap written : String} {header : Header}
    (isGap : IsGap ((physical 1 gap.toList).map Located.character))
    (writes : WritesHeader written header) :
    header? (tokenize (gap ++ written)) = some header := by
  cases writes with
  | @angled name isName =>
      have text : "<" ++ name ++ ">" = String.ofList ('<' :: (name.toList ++ ['>'])) := by
        apply String.toList_injective
        simp
      rw [overlooksGaps_header?.view_tokenize_gap isGap (by simp [text]), text,
        header?_tokenize_angled isName, String.ofList_toList]
  | @quoted name plain =>
      have text : "\"" ++ name ++ "\"" = String.ofList ('"' :: (name.toList ++ ['"'])) := by
        apply String.toList_injective
        simp
      rw [overlooksGaps_header?.view_tokenize_gap isGap (by simp [text]), text,
        header?_tokenize_quoted plain, String.ofList_toList]

/-- A block comment over two lines, and a splice behind it. -/
theorem isGap_blockComment :
    IsGap ((physical 1 " /* a\n * b */\\\n\t".toList).map Located.character) := by
  have characters : (physical 1 " /* a\n * b */\\\n\t".toList).map Located.character =
      ' ' :: '/' :: '*' :: ([' ', 'a', '\n', ' ', '*', ' ', 'b', ' '] ++ '*' :: '/' :: ['\t']) := by
    decide +kernel
  rw [characters]
  exact .blank (by decide)
    (.blockComment (by unfold HoldsEnd; decide +kernel) (.blank (by decide) .nil))

theorem isGap_lineComment : IsGap ((physical 1 "// c\r\n".toList).map Located.character) := by
  have characters : (physical 1 "// c\r\n".toList).map Located.character =
      '/' :: '/' :: ([' ', 'c', '\r'] ++ '\n' :: []) := by
    decide +kernel
  rw [characters]
  exact .lineComment (by decide) .nil

theorem header?_tokenize_behind_comments :
    header? (tokenize (" /* a\n * b */\\\n\t" ++ ("<" ++ "lib/c++.1e-x.h" ++ ">"))) =
        some ⟨"lib/c++.1e-x.h", false⟩ ∧
      header? (tokenize ("// c\r\n" ++ ("\"" ++ "//my file-" ++ "\""))) =
        some ⟨"//my file-", true⟩ :=
  ⟨header?_tokenize_of_writesHeader isGap_blockComment
      (.angled ⟨List.all_eq_true.mp (by decide +kernel), by decide +kernel, by decide +kernel⟩),
    header?_tokenize_of_writesHeader isGap_lineComment
      (.quoted fun character member => by
        have listed : "//my file-".toList.all (! ['"', '\\', '\n'].contains ·) = true := by
          decide +kernel
        simpa using List.all_eq_true.mp listed character member)⟩

end Directive
end ObjectWrapper
