import ObjectWrapper.Proofs.Source.Gaps
import ObjectWrapper.Proofs.Source.Neighbours
import ObjectWrapper.Proofs.Source.Position

namespace ObjectWrapper
namespace Source

/-!
# Tokens are as long as they can be

What stands behind a token does not belong to it.  The punctuator that is read is the
longest one at its place, and where a character is read alone there is none.  Names,
numbers and blanks are followed by nothing that their rule would let them take, and a
name that can be the prefix of a literal is not followed by a quote.

Which part of a text a token has been read from is not left to the reader: the parts that
the tokens of a text spell are the only ones.
-/

/-! ## What belongs to a token -/

/-- A number with the given last character takes in the beginning of the text: a letter, a
digit, `_` or `.`, a sign behind the letter of an exponent, or a quote and what it
separates. -/
inductive ExtendsNumber (last : Char) : List Char -> Prop where
  | part {character : Char} (rest : List Char)
      (isPart : character.isAlphanum = true ∨ character = '_' ∨ character = '.') :
      ExtendsNumber last (character :: rest)
  | sign {character : Char} (rest : List Char) (isSign : character = '+' ∨ character = '-')
      (exponent : last ∈ ['e', 'E', 'p', 'P']) : ExtendsNumber last (character :: rest)
  | separator {digit : Char} (rest : List Char) (isPart : digit.isAlphanum = true) :
      ExtendsNumber last ('\'' :: digit :: rest)

/-- The text of a token of the given kind is all that belongs to the token, where `left`
follows it. -/
def IsMaximal (kind : TokenKind) (text left : List Char) : Prop :=
  match kind with
  | .punctuator =>
    text ∈ punctuators.map String.toList ∧
      ∀ sign ∈ punctuators.map String.toList, sign <+: text ++ left -> sign.length ≤ text.length
  | .other =>
    text.length = 1 ∧ ∀ sign ∈ punctuators.map String.toList, ¬ sign <+: text ++ left
  | .identifier =>
    (∀ character ∈ left.head?, isNameChar character = false) ∧
      (isEncodingPrefix text = true -> ∀ character ∈ left.head?,
        character ≠ '"' ∧ character ≠ '\'')
  | .whitespace =>
    ¬ BeginsComment text -> ∀ character ∈ left.head?, isBlankChar character = false
  | .number => ∃ last, text.getLast? = some last ∧ ¬ ExtendsNumber last left
  | _ => True

/-! ## What stands before a text is maximal -/

/-- Nothing is left over that a number would take. -/
theorem not_extendsNumber_numberTail (previous : Char) (text : List Char) :
    ¬ ExtendsNumber ((numberTail previous text).taken.getLastD previous)
      (numberTail previous text).left := by
  fun_induction numberTail previous text with
  | case1 => rintro ⟨⟩
  | case2 previous character rest _ ih =>
      rwa [Cut.after, List.singleton_append, List.getLastD_cons]
  | case3 previous digit after _ _ ih =>
      rwa [Cut.after, List.cons_append, List.singleton_append, List.getLastD_cons,
        List.getLastD_cons]
  | case4 previous digit after noDigit _ =>
      intro extended
      cases extended with
      | part _ isPart => simp at isPart
      | sign _ isSign _ => simp at isSign
      | separator _ isPart => exact noDigit isPart
  | case5 previous _ =>
      intro extended
      cases extended with
      | part _ isPart => simp at isPart
      | sign _ isSign _ => simp at isSign
  | case6 previous character rest _ _ _ ih =>
      rwa [Cut.after, List.singleton_append, List.getLastD_cons]
  | case7 previous character rest noSign noSeparator noPart =>
      intro extended
      cases extended with
      | part _ isPart => exact noPart (by simpa [or_assoc] using isPart)
      | sign _ isSign exponent =>
          refine noSign ?_
          rw [List.getLastD_nil] at exponent
          simpa [beginsExponent, or_assoc] using And.intro isSign exponent
      | separator _ _ => exact noSeparator rfl

section StandsBefore

variable {segment : Segment} {left : List Char} (stands : segment.StandsBefore left)
include stands

theorem Segment.StandsBefore.isMaximal_identifier (identifier : segment.kind = .identifier) :
    IsMaximal .identifier segment.text left := by
  refine ⟨(stands.of_identifier identifier).2, ?_⟩
  have significant : segment.kind.isBlank = false := by rw [identifier]; rfl
  rcases stands.exists_lexemeReading significant with ⟨first, others, text, _, read⟩
  have isName := (read ▸ readBy_lexemeReading first (others ++ left)).of_kind
  rw [identifier] at isName
  rcases isName with ⟨start, whole, after⟩
  rw [lexemeReading, if_pos start, ← after, whole] at read
  rw [whole]
  exact nameReading_eq_identifier_iff.mp read

theorem Segment.StandsBefore.isMaximal_number (number : segment.kind = .number) :
    IsMaximal .number segment.text left := by
  have significant : segment.kind.isBlank = false := by rw [number]; rfl
  rcases stands.exists_readBy significant with ⟨first, others, text, _, readBy⟩
  have isNumber := readBy.of_kind
  rw [number] at isNumber
  rcases isNumber with ⟨_, _, read⟩
  have whole : first :: (numberTail first (others ++ left)).taken = segment.text :=
    congrArg (fun reading : Reading => reading.segment.text) read
  have after : (numberTail first (others ++ left)).left = left := congrArg Reading.left read
  have ended := not_extendsNumber_numberTail first (others ++ left)
  rw [after] at ended
  refine ⟨_, ?_, ended⟩
  rw [← whole, List.getLastD_eq_getLast?]
  exact List.getLast?_cons

theorem Segment.StandsBefore.isMaximal_punctuator (punctuator : segment.kind = .punctuator) :
    IsMaximal .punctuator segment.text left := by
  have significant : segment.kind.isBlank = false := by rw [punctuator]; rfl
  rcases stands.exists_readBy significant with ⟨first, others, text, _, readBy⟩
  have isSymbol := readBy.of_kind
  rw [punctuator] at isSymbol
  rcases isSymbol with ⟨_, _, _, read⟩
  rw [segment.eq_verbatim significant, punctuator, symbolReading_eq_punctuator_iff,
    ← List.cons_append, ← text] at read
  rcases punctuatorAt_eq_some_iff.mp read.1 with ⟨⟨listed, _⟩, longest⟩
  exact ⟨listed, longest⟩

theorem Segment.StandsBefore.isMaximal_other (other : segment.kind = .other) :
    IsMaximal .other segment.text left := by
  have significant : segment.kind.isBlank = false := by rw [other]; rfl
  rcases stands.exists_readBy significant with ⟨first, others, text, _, readBy⟩
  have symbol : symbolReading first (others ++ left) = ⟨segment, left⟩ := by
    cases readBy with
    | name _ read =>
        rcases Reading.mk.inj read with ⟨rfl, _⟩
        cases other
    | literal kind quote _ _ isQuote _ read =>
        rcases Reading.mk.inj read with ⟨rfl, _⟩
        obtain rfl : kind = .other := other
        cases isQuote
    | number _ _ read =>
        rcases Reading.mk.inj read with ⟨rfl, _⟩
        cases other
    | symbol _ _ _ read => exact read.symm
  rw [IsMaximal, text, List.cons_append]
  unfold symbolReading at symbol
  split at symbol
  · rcases Reading.mk.inj symbol with ⟨rfl, _⟩
    cases other
  · rename_i none
    rcases Reading.mk.inj symbol with ⟨rfl, _⟩
    refine ⟨(congrArg List.length text).symm, fun sign listed begins => ?_⟩
    exact List.find?_eq_none.mp none sign listed (List.isPrefixOf_iff_prefix.mpr begins)

theorem Segment.StandsBefore.isMaximal_whitespace (whitespace : segment.kind = .whitespace) :
    IsMaximal .whitespace segment.text left := by
  intro noComment
  cases stands.isBlankBefore (whitespace ▸ rfl) with
  | lineFeed | returnLineFeed => cases whitespace
  | blanks _ ends _ => exact ends
  | comment isComment =>
      refine absurd ?_ noComment
      cases isComment with
      | line body _ _ => exact .inl (List.prefix_append ['/', '/'] body)
      | block body _ => exact .inr (List.prefix_append ['/', '*'] (body ++ ['*', '/']))
      | openBlock body _ _ => exact .inr (List.prefix_append ['/', '*'] body)

/-- No token is read that could be longer. -/
theorem Segment.StandsBefore.isMaximal : IsMaximal segment.kind segment.text left := by
  cases kind : segment.kind with
  | identifier => exact stands.isMaximal_identifier kind
  | number => exact stands.isMaximal_number kind
  | punctuator => exact stands.isMaximal_punctuator kind
  | other => exact stands.isMaximal_other kind
  | whitespace => exact stands.isMaximal_whitespace kind
  | _ => trivial

end StandsBefore

/-- Every segment of a text stands before those that follow it. -/
theorem standsBefore_of_getElem?_segments {text : List Char} {index : Nat} {segment : Segment}
    (found : (segments text)[index]? = some segment) :
    segment.StandsBefore (((segments text).drop (index + 1)).flatMap Segment.text) := by
  induction text using segment_induction generalizing index with
  | nil =>
      rw [segments] at found
      cases found
  | append first left stands ih =>
      rw [segments_of_standsBefore stands] at found ⊢
      cases index with
      | zero =>
          cases found
          rwa [List.drop_succ_cons, List.drop_zero, flatMap_text_segments]
      | succ index => exact ih found

/-! ## The part of a token -/

/-- A segment is determined by the text that it begins. -/
theorem Segment.StandsBefore.unique {segment other : Segment} {left after : List Char}
    (stands : segment.StandsBefore left) (otherStands : other.StandsBefore after)
    (same : segment.text ++ left = other.text ++ after) : segment = other := by
  rcases stands with ⟨first, others, text, read⟩
  rcases otherStands with ⟨begin, more, otherText, otherRead⟩
  rw [text, otherText, List.cons_append, List.cons_append, List.cons.injEq] at same
  rw [same.1, same.2, otherRead] at read
  exact (Reading.mk.inj read).1.symm

theorem commentTail_of_not_holdsEnd {body : List Char} (none : ¬ HoldsEnd body) :
    commentTail body = ⟨body, []⟩ := by
  have whole := commentTail_whole body
  rw [Cut.whole] at whole
  rcases commentTail_cases body with ⟨before, taken, _⟩ | ⟨_, atEnd⟩
  · rw [taken, List.append_assoc] at whole
    exact absurd ⟨before, (commentTail body).left, by rw [List.append_assoc, whole]⟩ none
  · rw [atEnd, List.append_nil] at whole
    exact Cut.mk.injEq .. ▸ ⟨whole, atEnd⟩

theorem IsComment.standsBefore {text left : List Char} (isComment : IsComment left text) :
    Segment.StandsBefore ⟨.comment, text⟩ left := by
  cases isComment with
  | line body oneLine ends => exact standsBefore_lineComment oneLine ends
  | block body first => exact standsBefore_blockComment first left
  | openBlock body none atEnd =>
      refine ⟨'/', '*' :: body, rfl, ?_⟩
      rw [atEnd, List.append_nil]
      change ((commentTail body).after ['/', '*']).reading .comment = _
      rw [commentTail_of_not_holdsEnd none]
      rfl

theorem IsComment.head? {text left : List Char} (isComment : IsComment left text) :
    text.head? = some '/' := by
  cases isComment <;> rfl

namespace Spells

variable {left after text other : List Char} {kind : TokenKind} {lexeme : String}

theorem newline_cases (spells : Spells left .newline lexeme text) :
    text = ['\n'] ∨ text = ['\r', '\n'] := by
  cases spells with
  | lineFeed => exact .inl rfl
  | returnLineFeed => exact .inr rfl
  | verbatim noLineEnd => exact absurd rfl noLineEnd

theorem cases_of_ne_newline (spells : Spells left kind lexeme text) (noLineEnd : kind ≠ .newline) :
    IsComment left text ∧ lexeme = " " ∨ text = lexeme.toList := by
  cases spells with
  | lineFeed | returnLineFeed => exact absurd rfl noLineEnd
  | comment isComment => exact .inl ⟨isComment, rfl⟩
  | verbatim => exact .inr String.toList_ofList.symm

/-- Where a token is spelled, there is one text that spells it. -/
theorem unique (spells : Spells left kind lexeme text)
    (otherSpells : Spells after kind lexeme other) (same : text ++ left = other ++ after) :
    text = other := by
  have begins : (text ++ left).head? = (other ++ after).head? := congrArg List.head? same
  by_cases lineEnd : kind = .newline
  · subst lineEnd
    rcases spells.newline_cases with rfl | rfl <;>
      rcases otherSpells.newline_cases with rfl | rfl <;> simp at begins ⊢
  -- A space that stands for itself does not begin with a slash.
  rcases spells.cases_of_ne_newline lineEnd with ⟨isComment, rfl⟩ | verbatim
  · rcases otherSpells.cases_of_ne_newline lineEnd with ⟨otherComment, _⟩ | otherVerbatim
    · have read := isComment.standsBefore.unique otherComment.standsBefore same
      exact congrArg Segment.text read
    · rw [List.head?_append, isComment.head?, otherVerbatim] at begins
      cases begins
  · rcases otherSpells.cases_of_ne_newline lineEnd with ⟨otherComment, rfl⟩ | otherVerbatim
    · rw [List.head?_append, List.head?_append, otherComment.head?, verbatim] at begins
      cases begins
    · rw [verbatim, otherVerbatim]

end Spells

namespace CutInto

variable {located : List Located} {parts others : List (List Located)}

theorem exists_of_cons {token : Token} {tokens : List Token}
    (cut : CutInto located parts (token :: tokens)) :
    ∃ part left rest, located = part ++ left ∧ parts = part :: rest ∧
      Spells (left.map Located.character) token.kind token.lexeme (part.map Located.character) ∧
        CutInto left rest tokens := by
  cases cut with
  | cons spells rest => exact ⟨_, _, _, rfl, rfl, spells, rest⟩

/-- The parts that tokens of segments spell are the texts of the segments. -/
theorem map_character {text : List Char} {lines : List Nat}
    (characters : located.map Located.character = text)
    (cut : CutInto located parts (place lines (segments text))) :
    parts.map (List.map Located.character) = (segments text).map Segment.text := by
  induction text using segment_induction generalizing located parts lines with
  | nil =>
      rw [segments] at cut ⊢
      cases cut
      rfl
  | append segment left stands ih =>
      rw [segments_of_standsBefore stands] at cut ⊢
      rcases exists_of_cons cut with ⟨part, more, rest, rfl, rfl, spells, later⟩
      rw [List.map_append] at characters
      have here : part.map Located.character = segment.text :=
        spells.unique stands.spells characters
      rw [here] at characters
      rw [List.map_cons, List.map_cons, here, ih (List.append_cancel_left characters) later]

/-- There is one way to cut a text into parts that its tokens spell. -/
theorem unique {text : List Char} {lines : List Nat}
    (characters : located.map Located.character = text)
    (cut : CutInto located parts (place lines (segments text)))
    (otherCut : CutInto located others (place lines (segments text))) : others = parts := by
  have sameTexts : others.map (List.map Located.character) =
      parts.map (List.map Located.character) := by
    rw [map_character characters otherCut, map_character characters cut]
  have lengths := congrArg (List.map List.length) sameTexts
  simp only [List.map_map, Function.comp_def, List.length_map] at lengths
  exact List.eq_iff_flatten_eq.mpr ⟨by rw [otherCut.flatten_eq, cut.flatten_eq], lengths⟩

/-- The part of a token is all that belongs to it, where the later parts follow. -/
theorem exists_isMaximal {text : List Char} {lines : List Nat}
    (characters : located.map Located.character = text)
    (cut : CutInto located parts (place lines (segments text))) {index : Nat} {token : Token}
    (found : (place lines (segments text))[index]? = some token) :
    ∃ part, parts[index]? = some part ∧ IsMaximal token.kind (part.map Located.character)
      ((parts.drop (index + 1)).flatten.map Located.character) := by
  have texts := map_character characters cut
  rcases exists_of_getElem?_place found with ⟨segment, inSegments, rfl⟩
  have maximal := (standsBefore_of_getElem?_segments inSegments).isMaximal
  have later : (parts.drop (index + 1)).flatten.map Located.character =
      ((segments text).drop (index + 1)).flatMap Segment.text := by
    rw [List.map_flatten, List.map_drop, texts, ← List.map_drop, ← List.flatMap_def]
  have here : (parts.map (List.map Located.character))[index]? = some segment.text := by
    rw [texts, List.getElem?_map, inSegments]
    rfl
  rw [List.getElem?_map] at here
  rcases Option.map_eq_some_iff.mp here with ⟨part, inParts, same⟩
  refine ⟨part, inParts, ?_⟩
  rw [same, later]
  exact maximal

end CutInto

/-- Every token of a text has its part of it, and is as long as it can be there. -/
theorem existsUnique_cutInto_and_isMaximal (text : String) :
    ∃ parts, CutInto (physical 1 text.toList) parts (tokenize text) ∧
      (∀ others, CutInto (physical 1 text.toList) others (tokenize text) -> others = parts) ∧
      ∀ index token, (tokenize text)[index]? = some token ->
        ∃ part, parts[index]? = some part ∧ IsMaximal token.kind (part.map Located.character)
          ((parts.drop (index + 1)).flatten.map Located.character) := by
  rw [← locate_eq_physical]
  rcases exists_cutInto_of_segments (rfl : (locate 1 text.toList).map Located.character = _) with
    ⟨parts, cut⟩
  exact ⟨parts, cut, fun _ otherCut => cut.unique rfl otherCut,
    fun _ _ found => cut.exists_isMaximal rfl found⟩

example : (tokenize "x+++'a'1'2.e+-3").map Token.lexeme =
    ["x", "++", "+", "'a'", "1'2.e+", "-", "3"] := by decide +kernel

end Source
end ObjectWrapper
