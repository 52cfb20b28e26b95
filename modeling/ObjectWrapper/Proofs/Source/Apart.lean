import Mathlib.Algebra.GroupWithZero.Nat
import Mathlib.Data.List.Chain
import ObjectWrapper.Proofs.Source.Position

namespace ObjectWrapper
namespace Source

/-!
# Tokens that stay apart

Tokens whose texts are put one after the other are not always the tokens of that text:
two signs may be read as one punctuator, a name may go on with a digit, what begins a
comment takes all that follows, and a backslash before a line end is lost with it.

They stay apart if each one that is not blank is read off the texts of the tokens from it
on, and the lines are not joined.  That these conditions are necessary is a matter of
counting.  Only blanks, comments and splices are lost when a text is read, and blanks do
not count; so if the tokens that are read say as much as those that have been written,
there is neither a comment nor a splice.
-/

/-- What a token is and says, wherever it stands. -/
def Token.spelling (token : Token) : TokenKind × String :=
  (token.kind, token.lexeme)

/-- The spelling of the token a segment becomes. -/
def Segment.spelling (segment : Segment) : TokenKind × String :=
  (segment.kind, segment.lexeme)

/-- The texts of the tokens, one after the other. -/
def spelled (tokens : List Token) : List Char :=
  tokens.flatMap fun token => token.lexeme.toList

theorem toList_joinLexemes (tokens : List Token) : (joinLexemes tokens).toList = spelled tokens := by
  rw [joinLexemes, String.toList_join, List.flatMap_map, spelled]

/-- Put into one text and read again, the tokens that are not blank are the same. -/
def StayApart (tokens : List Token) : Prop :=
  (significant (tokenize (joinLexemes tokens))).map Token.spelling =
    (significant tokens).map Token.spelling

instance (tokens : List Token) : Decidable (StayApart tokens) :=
  inferInstanceAs (Decidable (_ = _))

/-! ## Spellings in a text -/

theorem map_spelling_significant (tokens : List Token) :
    (significant tokens).map Token.spelling =
      (tokens.map Token.spelling).filter (! ·.1.isBlank) := by
  rw [significant, List.filter_map]
  rfl

theorem map_spelling_tokensOnLines (line : Nat) (read : List Segment) :
    (tokensOnLines line read).map Token.spelling = read.map Segment.spelling := by
  induction read generalizing line with
  | nil => rfl
  | cons segment rest ih =>
      rw [tokensOnLines, List.map_cons, List.map_cons, ih]
      rfl

theorem map_spelling_place (lines : List Nat) (read : List Segment) :
    (place lines read).map Token.spelling = read.map Segment.spelling := by
  induction read generalizing lines with
  | nil => rfl
  | cons segment rest ih =>
      rw [place, List.map_cons, List.map_cons, ih]
      rfl

/-- The spellings of the significant tokens of a text without splices. -/
def spellings (text : List Char) : List (TokenKind × String) :=
  (significantFrom 1 text).map Token.spelling

theorem map_spelling_significantFrom (line : Nat) (text : List Char) :
    (significantFrom line text).map Token.spelling = spellings text := by
  simp only [spellings, significantFrom, tokensFrom, map_spelling_significant,
    map_spelling_tokensOnLines]

theorem map_spelling_tokenize (text : String) :
    (tokenize text).map Token.spelling =
      (splicedSegments text.toList).map Segment.spelling :=
  map_spelling_place _ _

theorem map_spelling_significant_tokenize (text : String) :
    (significant (tokenize text)).map Token.spelling =
      spellings ((locate 1 text.toList).map Located.character) := by
  rw [map_spelling_significant, map_spelling_tokenize, spellings, significantFrom, tokensFrom,
    map_spelling_significant, map_spelling_tokensOnLines]
  rfl

theorem spellings_nil : spellings [] = [] := by
  rw [spellings, significantFrom_nil]
  rfl

theorem spellings_append_blank {segment : Segment} {left : List Char}
    (stands : segment.StandsBefore left) (blank : segment.kind.isBlank = true) :
    spellings (segment.text ++ left) = spellings left := by
  rw [spellings, significantFrom_append stands, blank, if_pos rfl, map_spelling_significantFrom]

theorem spellings_append_lexeme {segment : Segment} {left : List Char}
    (stands : segment.StandsBefore left) (significant : segment.kind.isBlank = false) :
    spellings (segment.text ++ left) = segment.spelling :: spellings left := by
  rw [spellings, significantFrom_append stands, significant, if_neg Bool.false_ne_true,
    List.map_cons, map_spelling_significantFrom]
  rfl

/-! ## Tokens as they are read -/

/-- Some text has been read as the token. -/
def Token.IsRead (token : Token) : Prop :=
  ∃ segment left, Segment.StandsBefore segment left ∧ token.spelling = segment.spelling

/-- The segment that is read as the token, unless that is blank. -/
def Token.segment (token : Token) : Segment :=
  ⟨.verbatim token.kind, token.lexeme.toList⟩

theorem Token.spelling_segment (token : Token) : token.segment.spelling = token.spelling := by
  rw [Segment.spelling, Token.segment, Segment.lexeme, String.ofList_toList]
  rfl

theorem Segment.eq_segment_of_spelling {segment : Segment} {token : Token}
    (same : token.spelling = segment.spelling) (significant : token.isBlank = false) :
    segment = token.segment := by
  rcases Prod.mk.inj same with ⟨kind, lexeme⟩
  rw [Token.isBlank, kind] at significant
  rw [Token.segment, kind, lexeme, Segment.toList_lexeme significant]
  exact segment.eq_verbatim significant

theorem Token.IsRead.exists_standsBefore {token : Token} (read : token.IsRead)
    (significant : token.isBlank = false) : ∃ left, token.segment.StandsBefore left := by
  rcases read with ⟨segment, left, stands, same⟩
  rw [← Segment.eq_segment_of_spelling same significant]
  exact ⟨left, stands⟩

theorem Segment.StandsBefore.exists_begins {segment : Segment} {left : List Char}
    (stands : segment.StandsBefore left) (significant : segment.kind.isBlank = false) :
    ∃ first others, segment.text = first :: others ∧ isSeparator first = false := by
  rcases stands.exists_lexemeReading significant with ⟨first, others, text, begins, _⟩
  refine ⟨first, others, text, ?_⟩
  rw [isSeparator, begins.noBlank, Bool.false_or]
  exact beq_eq_false_iff_ne.mpr begins.noLineEnd

/-- The segment becomes a line end, or else blanks on one line. -/
def Segment.Separates (segment : Segment) : Prop :=
  segment.spelling = (.newline, "\n") ∨
    segment.kind = .whitespace ∧ ∃ first others, segment.lexeme.toList = first :: others ∧
      ∀ character ∈ first :: others, isBlankChar character = true

theorem Segment.separates_comment (text : List Char) : Segment.Separates ⟨.comment, text⟩ := by
  have space : " ".toList = [' '] := by decide
  exact .inr ⟨rfl, ' ', [], space, by simp [isBlankChar]⟩

theorem isBlank_or_separates_readSegment (first : Char) (rest : List Char) :
    (readSegment first rest).segment.kind.isBlank = false ∨
      (readSegment first rest).segment.Separates := by
  by_cases lineEnd : first = '\n'
  · subst lineEnd
    exact .inr (.inl rfl)
  by_cases lineEndTwo : first = '\r' ∧ rest.head? = some '\n'
  · right
    rw [readSegment, if_neg lineEnd, if_pos lineEndTwo]
    exact .inl rfl
  by_cases blank : isBlankChar first = true
  · right
    rw [readSegment_blank blank lineEndTwo]
    refine .inr ⟨rfl, first, rest.takeWhile isBlankChar, String.toList_ofList, ?_⟩
    intro character member
    rcases List.mem_cons.mp member with rfl | taken
    · exact blank
    · exact List.mem_takeWhile_imp taken
  by_cases lineComment : first = '/' ∧ rest.head? = some '/'
  · right
    rw [readSegment, if_neg lineEnd, if_neg lineEndTwo, if_neg blank, if_pos lineComment]
    exact Segment.separates_comment _
  by_cases blockComment : first = '/' ∧ rest.head? = some '*'
  · right
    rw [readSegment, if_neg lineEnd, if_neg lineEndTwo, if_neg blank, if_neg lineComment,
      if_pos blockComment]
    exact Segment.separates_comment _
  · left
    have begins : BeginsLexeme first rest :=
      ⟨lineEnd, Bool.not_eq_true _ ▸ blank, lineComment ∘ pair_isPrefix_iff.mp,
        blockComment ∘ pair_isPrefix_iff.mp⟩
    rw [begins.readSegment_eq]
    exact (isLexeme_lexemeReading first rest).1

theorem Token.IsRead.lexeme_of_isBlank {token : Token} (read : token.IsRead)
    (blank : token.isBlank = true) :
    token.isNewline = true ∧ token.lexeme = "\n" ∨
      token.isNewline = false ∧ ∃ first others, token.lexeme.toList = first :: others ∧
        ∀ character ∈ first :: others, isBlankChar character = true := by
  rcases read with ⟨segment, left, ⟨first, others, _, reads⟩, same⟩
  rcases Prod.mk.inj same with ⟨kind, lexeme⟩
  have shape := isBlank_or_separates_readSegment first (others ++ left)
  rw [reads, Segment.Separates, Segment.spelling, ← kind, ← lexeme, Prod.mk.injEq] at shape
  rcases shape with significant | ⟨isNewline, text⟩ | ⟨isWhitespace, begins⟩
  · cases significant.symm.trans blank
  · exact .inl ⟨beq_iff_eq.mpr isNewline, text⟩
  · refine .inr ⟨?_, begins⟩
    rw [Token.isNewline, isWhitespace]
    rfl

theorem isSeparator_of_isBlankChar {character : Char} (blank : isBlankChar character = true) :
    isSeparator character = true := by
  rw [isSeparator, blank]
  rfl

/-- The blank tokens consist of separators, and the others do not begin with one. -/
theorem Token.IsRead.exists_begins {token : Token} (read : token.IsRead) :
    ∃ first others, token.lexeme.toList = first :: others ∧ isSeparator first = token.isBlank ∧
      (token.isNewline = true ↔ first = '\n') := by
  cases blank : token.isBlank with
  | true =>
      rcases read.lexeme_of_isBlank blank with ⟨isNewline, text⟩ | ⟨noNewline, first, others, text, blanks⟩
      · exact ⟨'\n', [], by rw [text]; rfl, rfl, by simp [isNewline]⟩
      · have isBlankFirst := blanks first List.mem_cons_self
        refine ⟨first, others, text, isSeparator_of_isBlankChar isBlankFirst, ?_⟩
        rw [noNewline]
        constructor
        · intro never
          cases never
        · rintro rfl
          cases isBlankFirst
  | false =>
      rcases read.exists_standsBefore blank with ⟨left, stands⟩
      rcases stands.exists_begins blank with ⟨first, others, text, differs⟩
      refine ⟨first, others, text, differs, ?_⟩
      constructor
      · intro isNewline
        rw [Token.isBlank, beq_iff_eq.mp isNewline] at blank
        cases blank
      · rintro rfl
        cases differs

/-- Blank tokens at the beginning do not matter. -/
theorem spellings_append_of_isBlank {token : Token} (read : token.IsRead)
    (blank : token.isBlank = true) (text : List Char) :
    spellings (token.lexeme.toList ++ text) = spellings text := by
  rcases read.lexeme_of_isBlank blank with ⟨_, lexeme⟩ | ⟨_, first, others, lexeme, blanks⟩
  · rw [lexeme]
    change spellings ('\n' :: text) = _
    rw [spellings, significantFrom_newline, map_spelling_significantFrom]
  · rw [lexeme, spellings, spellings, ← significantFrom_dropWhile_blank,
      List.dropWhile_append_of_pos blanks, significantFrom_dropWhile_blank]

/-! ## Tokens in order -/

/-- Each significant token stands before the texts of the tokens that follow it. -/
def StandInOrder : List Token -> Prop
  | [] => True
  | token :: rest =>
    (token.isBlank = false -> token.segment.StandsBefore (spelled rest)) ∧ StandInOrder rest

theorem spelled_cons (token : Token) (rest : List Token) :
    spelled (token :: rest) = token.lexeme.toList ++ spelled rest :=
  List.flatMap_cons

theorem spelled_append (tokens others : List Token) :
    spelled (tokens ++ others) = spelled tokens ++ spelled others :=
  List.flatMap_append

theorem StandInOrder.spellings_spelled {tokens : List Token} (inOrder : StandInOrder tokens)
    (read : ∀ token ∈ tokens, token.IsRead) :
    spellings (spelled tokens) = (significant tokens).map Token.spelling := by
  induction tokens with
  | nil => exact spellings_nil
  | cons token rest ih =>
      have later := ih inOrder.2 fun other member => read other (List.mem_cons_of_mem token member)
      rw [spelled_cons]
      cases blank : token.isBlank with
      | true =>
          rw [significant_cons_of_isBlank blank]
          exact (spellings_append_of_isBlank (read token List.mem_cons_self) blank _).trans later
      | false =>
          rw [significant_cons_of_not_isBlank blank, List.map_cons]
          refine (spellings_append_lexeme (inOrder.1 blank) blank).trans ?_
          rw [token.spelling_segment, later]

/-! ## Counting what is not blank -/

/-- How many characters of a text are no separators. -/
def ink (text : List Char) : Nat :=
  text.countP (! isSeparator ·)

/-- How many of them the spellings have. -/
def inkOf (spellings : List (TokenKind × String)) : Nat :=
  (spellings.map fun spelling => ink spelling.2.toList).sum

theorem ink_append (first second : List Char) : ink (first ++ second) = ink first + ink second :=
  List.countP_append

theorem ink_pos {character : Char} (noSeparator : isSeparator character = false)
    (rest : List Char) : 0 < ink (character :: rest) := by
  rw [ink, List.countP_cons_of_pos (by rw [noSeparator]; rfl)]
  exact Nat.succ_pos _

/-- Blanks do not count, so nothing is counted but significant tokens. -/
theorem ink_spelled {tokens : List Token} (read : ∀ token ∈ tokens, token.IsRead) :
    ink (spelled tokens) = inkOf ((significant tokens).map Token.spelling) := by
  induction tokens with
  | nil => rfl
  | cons token rest ih =>
      have later := ih fun other member => read other (List.mem_cons_of_mem token member)
      rw [spelled_cons, ink_append, later]
      cases blank : token.isBlank with
      | true =>
          have none : ink token.lexeme.toList = 0 := by
            rcases (read token List.mem_cons_self).lexeme_of_isBlank blank with
              ⟨_, lexeme⟩ | ⟨_, first, others, lexeme, blanks⟩
            · rw [lexeme]
              rfl
            · rw [lexeme, ink, List.countP_eq_zero]
              intro character member
              rw [isSeparator_of_isBlankChar (blanks character member)]
              exact Bool.false_ne_true
          rw [none, Nat.zero_add, significant_cons_of_isBlank blank]
      | false =>
          rw [significant_cons_of_not_isBlank blank]
          rfl

/-- What is read in comments is lost. -/
theorem inkOf_spellings_le (text : List Char) : inkOf (spellings text) ≤ ink text := by
  induction text using segment_induction with
  | nil =>
      rw [spellings_nil]
      exact Nat.le_refl 0
  | append segment left stands ih =>
      rw [ink_append]
      cases blank : segment.kind.isBlank with
      | true =>
          rw [spellings_append_blank stands blank]
          exact Nat.le_trans ih (Nat.le_add_left _ _)
      | false =>
          rw [spellings_append_lexeme stands blank, inkOf, List.map_cons, List.sum_cons,
            Segment.spelling, Segment.toList_lexeme blank]
          exact Nat.add_le_add_left ih _

/-- Splices are lost as well. -/
theorem ink_locate (line : Nat) (text : List Char) :
    ink ((locate line text).map Located.character) ≤ ink text ∧
      (ink ((locate line text).map Located.character) = ink text -> Unspliced text) := by
  fun_induction locate line text with
  | case1 => exact ⟨Nat.le_refl _, fun _ => unspliced_nil⟩
  | case2 line rest ih =>
      have lost := ink_append ['\\', '\n'] rest
      have backslash : ink ['\\', '\n'] = 1 := by decide
      rw [List.cons_append, List.cons_append, List.nil_append] at lost
      omega
  | case3 line rest ih =>
      have lost := ink_append ['\\', '\r', '\n'] rest
      have backslash : ink ['\\', '\r', '\n'] = 1 := by decide
      rw [List.cons_append, List.cons_append, List.cons_append, List.nil_append] at lost
      omega
  | case4 line character rest noSplice noLongSplice ih =>
      rw [List.map_cons, ink, ink, List.countP_cons, List.countP_cons]
      refine ⟨Nat.add_le_add_right ih.1 _, fun same => ?_⟩
      have unspliced := ih.2 (Nat.add_right_cancel same)
      constructor
      · intro found
        rcases List.infix_cons_iff.mp found with here | later
        · rcases List.cons_prefix_cons.mp here with ⟨rfl, after, rfl⟩
          exact noSplice after rfl rfl
        · exact unspliced.1 later
      · intro found
        rcases List.infix_cons_iff.mp found with here | later
        · rcases List.cons_prefix_cons.mp here with ⟨rfl, after, rfl⟩
          exact noLongSplice after rfl rfl
        · exact unspliced.2 later

/-- Tokens that are read back without a loss are read in order. -/
theorem standInOrder_of_spellings {tokens : List Token} (read : ∀ token ∈ tokens, token.IsRead)
    (same : spellings (spelled tokens) = (significant tokens).map Token.spelling) :
    StandInOrder tokens := by
  induction tokens with
  | nil => trivial
  | cons token rest ih =>
      have readRest : ∀ other ∈ rest, other.IsRead :=
        fun other member => read other (List.mem_cons_of_mem token member)
      have readHere := read token List.mem_cons_self
      have counted := ink_spelled read
      rw [← same] at counted
      rw [spelled_cons] at same counted
      cases blank : token.isBlank with
      | true =>
          rw [significant_cons_of_isBlank blank, spellings_append_of_isBlank readHere blank] at same
          exact ⟨fun noBlank => (nomatch blank.symm.trans noBlank), ih readRest same⟩
      | false =>
          rw [significant_cons_of_not_isBlank blank, List.map_cons] at same
          rcases readHere.exists_begins with ⟨first, others, lexeme, differs, _⟩
          rw [blank] at differs
          rw [lexeme, List.cons_append] at same counted
          have stands := readSegment_standsBefore first (others ++ spelled rest)
          have whole := readSegment_whole first (others ++ spelled rest)
          rw [Reading.whole] at whole
          cases lost : (readSegment first (others ++ spelled rest)).segment.kind.isBlank with
          | true =>
              rw [← whole, spellings_append_blank stands lost, ink_append] at counted
              have atMost := inkOf_spellings_le (readSegment first (others ++ spelled rest)).left
              rcases List.exists_cons_of_ne_nil
                (readSegment_text_ne_nil first (others ++ spelled rest)) with ⟨head, more, text⟩
              rw [text, List.cons_append, List.cons.injEq] at whole
              have some := ink_pos (whole.1 ▸ differs) more
              rw [text] at counted
              omega
          | false =>
              rw [← whole, spellings_append_lexeme stands lost, List.cons.injEq] at same
              have here := Segment.eq_segment_of_spelling same.1.symm blank
              have left : (readSegment first (others ++ spelled rest)).left = spelled rest := by
                rw [here, Token.segment, lexeme, List.cons_append, List.cons.injEq] at whole
                exact List.append_cancel_left whole.2
              rw [here, left] at stands
              rw [left] at same
              exact ⟨fun _ => stands, ih readRest same.2⟩

/-- Tokens stay apart if their texts are not spliced and each of them is read where it
stands. -/
theorem stayApart_iff_standInOrder {tokens : List Token} (read : ∀ token ∈ tokens, token.IsRead) :
    StayApart tokens ↔ Unspliced (spelled tokens) ∧ StandInOrder tokens := by
  rw [StayApart, map_spelling_significant_tokenize, toList_joinLexemes]
  constructor
  · intro same
    have kept := ink_locate 1 (spelled tokens)
    have atMost := inkOf_spellings_le ((locate 1 (spelled tokens)).map Located.character)
    rw [same, ← ink_spelled read] at atMost
    have unspliced := kept.2 (Nat.le_antisymm kept.1 atMost)
    rw [(locate_of_unspliced unspliced 1).1] at same
    exact ⟨unspliced, standInOrder_of_spellings read same⟩
  · rintro ⟨unspliced, inOrder⟩
    rw [(locate_of_unspliced unspliced 1).1]
    exact inOrder.spellings_spelled read

end Source
end ObjectWrapper
