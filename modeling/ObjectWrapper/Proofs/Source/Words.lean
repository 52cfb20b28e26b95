import ObjectWrapper.Proofs.Source.Apart

namespace ObjectWrapper
namespace Source

/-!
# Words

A word is a stretch of tokens between which there are no blanks.  A token that is read
with the rest of its word after it is read there as well if a blank ends the word, and it
is read alike before anything its word begins with.  Only a literal without its closing
quote goes on until the line ends.

So tokens stay apart if they do so word by word, and the words of a text always do.  For a
word alone that each of its tokens is read where it stands is all that is asked; two names
side by side never are.
-/

/-- A literal that misses its closing quote is at the end of a line. -/
def LiteralsEnd (tokens : List Token) : Prop :=
  tokens.IsChain fun token next => token.IsClosed ∨ next.isNewline = true

instance (tokens : List Token) : Decidable (LiteralsEnd tokens) :=
  inferInstanceAs (Decidable (List.IsChain _ tokens))

/-- The stretches of tokens between blanks. -/
def words (tokens : List Token) : List (List Token) :=
  tokens.splitOnP Token.isBlank

/-- What holds of a word, and of a word with a blank and any tokens after it, holds of all
tokens. -/
theorem word_induction {motive : List Token -> Prop}
    (word : ∀ word : List Token, (∀ token ∈ word, token.isBlank = false) -> motive word)
    (blank : ∀ (word : List Token) (separator : Token) (rest : List Token),
      (∀ token ∈ word, token.isBlank = false) -> separator.isBlank = true -> motive rest ->
      motive (word ++ separator :: rest))
    (tokens : List Token) : motive tokens := by
  -- The tokens are gone through with the word that has begun before them.
  have continued : ∀ begun : List Token, (∀ token ∈ begun, token.isBlank = false) ->
      motive (begun ++ tokens) := by
    induction tokens with
    | nil =>
        intro begun noBlank
        rw [List.append_nil]
        exact word begun noBlank
    | cons token rest ih =>
        intro begun noBlank
        cases isBlank : token.isBlank with
        | true => exact blank begun token rest noBlank isBlank (ih [] (fun _ never => nomatch never))
        | false =>
            rw [List.append_cons]
            apply ih
            intro other member
            rcases List.mem_append.mp member with before | last
            · exact noBlank other before
            · rw [List.mem_singleton.mp last]
              exact isBlank
  exact continued [] fun _ never => nomatch never

/-! ## Parts of what stands in order -/

section Parts

variable {tokens rest : List Token}

theorem StandInOrder.right_of_append (inOrder : StandInOrder (tokens ++ rest)) :
    StandInOrder rest := by
  induction tokens with
  | nil => exact inOrder
  | cons token others ih => exact ih inOrder.2

theorem StandInOrder.left_of_append (inOrder : StandInOrder (tokens ++ rest)) :
    StandInOrder tokens := by
  induction tokens with
  | nil => trivial
  | cons token others ih =>
      refine ⟨fun significant => ?_, ih inOrder.2⟩
      have stands := inOrder.1 significant
      rw [List.append_eq, spelled_append] at stands
      exact stands.of_append significant

/-- A literal without its closing quote has nothing after it on its line. -/
theorem LiteralsEnd.isClosed_or_endsLine {token : Token} (ends : LiteralsEnd (token :: rest))
    (read : ∀ other ∈ rest, other.IsRead) : token.IsClosed ∨ EndsLine (spelled rest) := by
  cases rest with
  | nil => exact .inr endsLine_nil
  | cons next others =>
      rcases (List.isChain_cons.mp ends).1 next rfl with closed | newline
      · exact .inl closed
      · rcases (read next List.mem_cons_self).exists_begins with ⟨first, more, lexeme, _, isLineEnd⟩
        rw [isLineEnd.mp newline] at lexeme
        right
        rw [spelled_cons, lexeme]
        exact endsLine_cons _

/-- What begins with a blank may follow, if literals end. -/
theorem StandInOrder.append (first : StandInOrder tokens) (second : StandInOrder rest)
    (separated : ∀ token ∈ rest.head?, token.isBlank = true)
    (read : ∀ token ∈ tokens ++ rest, token.IsRead) (ends : LiteralsEnd (tokens ++ rest)) :
    StandInOrder (tokens ++ rest) := by
  induction tokens with
  | nil => exact second
  | cons token others ih =>
      have readRest : ∀ other ∈ others ++ rest, other.IsRead :=
        fun other member => read other (List.mem_cons_of_mem token member)
      refine ⟨fun significant => ?_, ih first.2 readRest (List.isChain_cons.mp ends).2⟩
      have ended := ends.isClosed_or_endsLine readRest
      rw [List.append_eq, spelled_append] at ended ⊢
      refine (first.1 significant).append significant ?_ ended
      intro character head
      cases rest with
      | nil => cases head
      | cons separator more =>
          have isBlank := separated separator rfl
          have readSeparator := readRest separator (List.mem_append_right _ List.mem_cons_self)
          rcases readSeparator.exists_begins with ⟨begin, after, lexeme, same, _⟩
          rw [spelled_cons, lexeme] at head
          cases head
          exact same.trans isBlank

/-- A literal that is read where it stands ends there. -/
theorem StandInOrder.literalsEnd (inOrder : StandInOrder tokens)
    (read : ∀ token ∈ tokens, token.IsRead) : LiteralsEnd tokens := by
  induction tokens with
  | nil => exact List.isChain_nil
  | cons token rest ih =>
      have readRest : ∀ other ∈ rest, other.IsRead :=
        fun other member => read other (List.mem_cons_of_mem token member)
      refine List.isChain_cons.mpr ⟨fun next head => ?_, ih inOrder.2 readRest⟩
      by_cases closed : token.IsClosed
      · exact .inl closed
      right
      rw [Token.IsClosed] at closed
      push Not at closed
      rcases closed with ⟨quote, literal, isOpen⟩
      have stands := inOrder.1 (isLexeme_of_quote? literal).1
      cases rest with
      | nil => cases head
      | cons other more =>
          cases head
          rcases (readRest next List.mem_cons_self).exists_begins with
            ⟨first, after, lexeme, _, isLineEnd⟩
          apply isLineEnd.mpr
          apply stands.endsLine literal isOpen first
          rw [spelled_cons, lexeme]
          rfl

end Parts

/-! ## Word by word -/

section Words

variable {tokens : List Token}

theorem words_of_no_blank {word : List Token} (noBlank : ∀ token ∈ word, token.isBlank = false) :
    words word = [word] :=
  List.splitOnP_eq_singleton noBlank

theorem words_append_blank {word : List Token} (noBlank : ∀ token ∈ word, token.isBlank = false)
    {separator : Token} (isBlank : separator.isBlank = true) (rest : List Token) :
    words (word ++ separator :: rest) = word :: words rest :=
  List.splitOnP_append_cons_of_forall_mem noBlank separator isBlank rest

theorem of_mem_words {word : List Token} (member : word ∈ words tokens) :
    word ⊆ tokens ∧ ∀ token ∈ word, token.isBlank = false := by
  induction tokens using word_induction with
  | word begun noBlank =>
      rw [words_of_no_blank noBlank, List.mem_singleton] at member
      subst member
      exact ⟨List.Subset.refl _, noBlank⟩
  | blank begun separator rest noBlank isBlank ih =>
      rw [words_append_blank noBlank isBlank, List.mem_cons] at member
      rcases member with rfl | later
      · exact ⟨List.subset_append_left _ _, noBlank⟩
      · have inRest := ih later
        exact ⟨List.Subset.trans inRest.1 (List.Subset.trans (List.subset_cons_self _ _)
          (List.subset_append_right _ _)), inRest.2⟩

/-- Tokens stand in order if the words do, and literals end. -/
theorem standInOrder_iff_words (read : ∀ token ∈ tokens, token.IsRead) :
    StandInOrder tokens ↔ LiteralsEnd tokens ∧ ∀ word ∈ words tokens, StandInOrder word := by
  constructor
  · intro inOrder
    refine ⟨inOrder.literalsEnd read, ?_⟩
    clear read
    induction tokens using word_induction with
    | word begun noBlank =>
        intro word member
        rw [words_of_no_blank noBlank, List.mem_singleton] at member
        subst member
        exact inOrder
    | blank begun separator rest noBlank isBlank ih =>
        intro word member
        rw [words_append_blank noBlank isBlank, List.mem_cons] at member
        rcases member with rfl | later
        · exact inOrder.left_of_append
        · exact ih inOrder.right_of_append.2 word later
  · rintro ⟨ends, wordsInOrder⟩
    induction tokens using word_induction with
    | word begun noBlank =>
        exact wordsInOrder begun (by rw [words_of_no_blank noBlank]; exact List.mem_singleton_self _)
    | blank begun separator rest noBlank isBlank ih =>
        rw [words_append_blank noBlank isBlank] at wordsInOrder
        have readRest : ∀ token ∈ rest, token.IsRead := fun token member =>
          read token (List.mem_append_right _ (List.mem_cons_of_mem _ member))
        have endsRest : LiteralsEnd rest :=
          (List.isChain_cons.mp (List.IsChain.right_of_append ends)).2
        have restInOrder := ih readRest endsRest fun word member =>
          wordsInOrder word (List.mem_cons_of_mem _ member)
        have fromBlank : StandInOrder (separator :: rest) :=
          ⟨fun significant => (nomatch isBlank.symm.trans significant), restInOrder⟩
        refine (wordsInOrder begun List.mem_cons_self).append fromBlank ?_ read ends
        intro token head
        cases head
        exact isBlank

/-- A word is not spliced. -/
theorem unspliced_word {word : List Token} (read : ∀ token ∈ word, token.IsRead)
    (noBlank : ∀ token ∈ word, token.isBlank = false) : Unspliced (spelled word) := by
  apply unspliced_of_lineFeed_notMem
  intro member
  rcases List.mem_flatMap.mp member with ⟨token, inWord, lineFeed⟩
  rcases (read token inWord).exists_standsBefore (noBlank token inWord) with ⟨left, stands⟩
  exact stands.lineFeed_notMem (noBlank token inWord) lineFeed

/-- Tokens stay apart if their texts are not spliced, literals end, and the tokens of each
word stay apart. -/
theorem stayApart_iff_words (read : ∀ token ∈ tokens, token.IsRead) :
    StayApart tokens ↔ Unspliced (spelled tokens) ∧ LiteralsEnd tokens ∧
      ∀ word ∈ words tokens, StayApart word := by
  have alone : ∀ word ∈ words tokens, (StayApart word ↔ StandInOrder word) := by
    intro word member
    rcases of_mem_words member with ⟨subset, noBlank⟩
    have readWord : ∀ token ∈ word, token.IsRead := fun token inWord => read token (subset inWord)
    rw [stayApart_iff_standInOrder readWord]
    exact and_iff_right (unspliced_word readWord noBlank)
  rw [stayApart_iff_standInOrder read, standInOrder_iff_words read]
  have together : (∀ word ∈ words tokens, StandInOrder word) ↔
      ∀ word ∈ words tokens, StayApart word :=
    forall₂_congr fun word member => (alone word member).symm
  rw [together]

end Words

/-! ## Words of a text -/

/-- The tokens of a text have been read. -/
theorem isRead_of_mem_tokenize {text : String} {token : Token} (member : token ∈ tokenize text) :
    token.IsRead := by
  rcases exists_segment_of_mem_place member with ⟨segment, inSegments, line, rfl⟩
  rcases exists_standsBefore_of_mem_segments inSegments with ⟨left, stands⟩
  exact ⟨segment, left, stands, rfl⟩

/-- So have those that are spelled alike. -/
theorem isRead_of_isInfix {text : String} {tokens : List Token}
    (taken : tokens.map Token.spelling <:+: (tokenize text).map Token.spelling) :
    ∀ token ∈ tokens, token.IsRead := by
  intro token member
  rcases List.mem_map.mp (taken.subset (List.mem_map_of_mem member)) with ⟨original, inText, same⟩
  rcases isRead_of_mem_tokenize inText with ⟨segment, left, stands, spelling⟩
  exact ⟨segment, left, stands, same.symm.trans spelling⟩

/-- A word at the beginning of a text is in order, and the text begins with its tokens. -/
theorem standInOrder_of_isPrefix {text : List Char} {word : List Token}
    (noBlank : ∀ token ∈ word, token.isBlank = false)
    (begins : word.map Token.spelling <+: (segments text).map Segment.spelling) :
    StandInOrder word ∧ spelled word <+: text := by
  induction text using segment_induction generalizing word with
  | nil =>
      rw [segments, List.map_nil, List.prefix_nil, List.map_eq_nil_iff] at begins
      subst begins
      exact ⟨trivial, List.nil_prefix⟩
  | append segment left stands ih =>
      cases word with
      | nil => exact ⟨trivial, List.nil_prefix⟩
      | cons token rest =>
          rw [segments_of_standsBefore stands, List.map_cons, List.map_cons,
            List.cons_prefix_cons] at begins
          have significant := noBlank token List.mem_cons_self
          have later := ih (fun other member => noBlank other (List.mem_cons_of_mem _ member)) begins.2
          rcases later with ⟨inOrder, after, rfl⟩
          rw [Segment.eq_segment_of_spelling begins.1 significant] at stands ⊢
          refine ⟨⟨fun _ => stands.of_append significant, inOrder⟩, after, ?_⟩
          rw [spelled_cons, List.append_assoc]
          rfl

/-- A word that is taken from a text as it stands there is in order. -/
theorem standInOrder_of_isInfix {text : String} {word : List Token}
    (noBlank : ∀ token ∈ word, token.isBlank = false)
    (taken : word.map Token.spelling <:+: (tokenize text).map Token.spelling) :
    StandInOrder word := by
  rw [map_spelling_tokenize, splicedSegments] at taken
  generalize (locate 1 text.toList).map Located.character = spliced at taken
  induction spliced using segment_induction with
  | nil =>
      rw [segments, List.map_nil, List.infix_nil, List.map_eq_nil_iff] at taken
      subst taken
      trivial
  | append segment left stands ih =>
      have whole := segments_of_standsBefore stands
      rw [whole, List.map_cons, List.infix_cons_iff, ← List.map_cons, ← whole] at taken
      rcases taken with begins | later
      · exact (standInOrder_of_isPrefix noBlank begins).1
      · exact ih later

/-- The tokens of such a word stay apart. -/
theorem stayApart_of_isInfix {text : String} {word : List Token}
    (noBlank : ∀ token ∈ word, token.isBlank = false)
    (taken : word.map Token.spelling <:+: (tokenize text).map Token.spelling) :
    StayApart word := by
  have read := isRead_of_isInfix taken
  exact (stayApart_iff_standInOrder read).mpr
    ⟨unspliced_word read noBlank, standInOrder_of_isInfix noBlank taken⟩

/-! ## Words alone -/

section Alone

variable {word : List Token}

/-- A token that stands before any text has been read there. -/
theorem Token.isRead_of_standsBefore {token : Token} {left : List Char}
    (stands : token.segment.StandsBefore left) : token.IsRead :=
  ⟨token.segment, left, stands, token.spelling_segment.symm⟩

theorem StandInOrder.isRead (inOrder : StandInOrder word)
    (noBlank : ∀ token ∈ word, token.isBlank = false) : ∀ token ∈ word, token.IsRead := by
  induction word with
  | nil => exact fun _ never => nomatch never
  | cons token rest ih =>
      rcases List.forall_mem_cons.mp noBlank with ⟨first, later⟩
      exact List.forall_mem_cons.mpr
        ⟨Token.isRead_of_standsBefore (inOrder.1 first), ih inOrder.2 later⟩

/-- Only tokens that are read can be given back. -/
theorem StayApart.isRead (apart : StayApart word) (noBlank : ∀ token ∈ word, token.isBlank = false) :
    ∀ token ∈ word, token.IsRead := by
  intro token member
  have significant : token ∈ Source.significant word :=
    List.mem_filter.mpr ⟨member, by rw [noBlank token member]; rfl⟩
  have given := List.mem_map_of_mem (f := Token.spelling) significant
  rw [← apart] at given
  rcases List.mem_map.mp given with ⟨original, inText, same⟩
  rcases isRead_of_mem_tokenize (List.mem_filter.mp inText).1 with ⟨segment, left, stands, spelling⟩
  exact ⟨segment, left, stands, same.symm.trans spelling⟩

/-- The tokens of a word stay apart if each of them is read where it stands. -/
theorem stayApart_iff_standInOrder_of_no_blank (noBlank : ∀ token ∈ word, token.isBlank = false) :
    StayApart word ↔ StandInOrder word := by
  constructor
  · intro apart
    exact ((stayApart_iff_standInOrder (apart.isRead noBlank)).mp apart).2
  · intro inOrder
    have read := inOrder.isRead noBlank
    exact (stayApart_iff_standInOrder read).mpr ⟨unspliced_word read noBlank, inOrder⟩

/-- An identifier begins like a name, and nothing that follows continues it. -/
theorem Segment.StandsBefore.of_identifier {segment : Segment} {left : List Char}
    (stands : segment.StandsBefore left) (identifier : segment.kind = .identifier) :
    (∃ first others, segment.text = first :: others ∧ isNameStart first = true) ∧
      ∀ character ∈ left.head?, isNameChar character = false := by
  have significant : segment.kind.isBlank = false := by rw [identifier]; rfl
  rcases stands.exists_readBy significant with ⟨first, others, text, _, readBy⟩
  have isName := readBy.of_kind
  rw [identifier] at isName
  rcases isName with ⟨start, _, after⟩
  refine ⟨⟨first, others, text, start⟩, ?_⟩
  rw [after]
  exact not_inClass_of_head?_dropWhile

/-- Two names side by side run together. -/
theorem not_standInOrder_of_names {first second : Token} (isFirst : first.isIdentifier = true)
    (isSecond : second.isIdentifier = true) (names : [first, second] <:+: word) :
    ¬ StandInOrder word := by
  rintro inOrder
  rcases names with ⟨before, after, rfl⟩
  rw [List.append_assoc] at inOrder
  have here : StandInOrder (first :: second :: after) := inOrder.right_of_append
  have firstKind : first.kind = .identifier := beq_iff_eq.mp isFirst
  have secondKind : second.kind = .identifier := beq_iff_eq.mp isSecond
  have stands := here.1 (by rw [Token.isBlank, firstKind]; rfl)
  have next := here.2.1 (by rw [Token.isBlank, secondKind]; rfl)
  rcases (next.of_identifier secondKind).1 with ⟨character, others, text, start⟩
  have continued : isNameChar character = true := by rw [isNameChar, start, Bool.true_or]
  have lexeme : second.lexeme.toList = character :: others := text
  have ended := (stands.of_identifier firstKind).2 character (by rw [spelled_cons, lexeme]; rfl)
  rw [continued] at ended
  cases ended

end Alone

end Source
end ObjectWrapper
