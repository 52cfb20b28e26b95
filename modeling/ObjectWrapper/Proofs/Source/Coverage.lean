import Mathlib.Data.List.Flatten
import ObjectWrapper.Proofs.Source.Lines

namespace ObjectWrapper
namespace Source

/-!
# Tokens cover the text

Reading tokens loses nothing.  The characters of a text outside its splices, each with
the physical line it stands on, fall into consecutive parts, one for each token and
none of them empty.  A token is on the line of the first character of its part and has
the text of its part, except that line ends are written alike and comments are blanks.

Which characters belong to splices is said here of places in the text, and not by
following the text from its beginning.  What a comment is depends on the text after it,
too: one between slashes and asterisks ends where it first can, any other with its line.
-/

/-! ## Characters outside splices -/

/-- The length of the splice that a text begins with, or zero. -/
def spliceLength : List Char -> Nat
  | '\\' :: '\n' :: _ => 2
  | '\\' :: '\r' :: '\n' :: _ => 3
  | _ => 0

/-- The place in the text belongs to a splice. -/
def IsSpliced (text : List Char) (place : Nat) : Prop :=
  ∃ start ≤ place, place < start + spliceLength (text.drop start)

instance (text : List Char) (place : Nat) : Decidable (IsSpliced text place) :=
  decidable_of_iff (∃ start < place + 1, place < start + spliceLength (text.drop start))
    (by simp only [IsSpliced, Nat.lt_succ_iff])

/-- The character at a place of the text outside splices.  It is on the line that is as
many lines behind the given one as there are line feeds before it, those in splices
included. -/
def locatedAt? (line : Nat) (text : List Char) (place : Nat) : Option Located :=
  if IsSpliced text place then none
  else text[place]?.map fun character => ⟨character, line + (text.take place).count '\n'⟩

/-- The characters of a text outside splices, the text beginning on the given line. -/
def physical (line : Nat) (text : List Char) : List Located :=
  (List.range text.length).filterMap (locatedAt? line text)

example : physical 1 "a\\\r\nb\\\n\nc".toList =
    [⟨'a', 1⟩, ⟨'b', 2⟩, ⟨'\n', 3⟩, ⟨'c', 4⟩] := by decide

/-- Which places behind a beginning of the text belong to splices is decided by what
follows that beginning, unless a splice reaches over its end. -/
theorem isSpliced_add_iff {before rest : List Char}
    (ends : ∀ start < before.length,
      start + spliceLength ((before ++ rest).drop start) ≤ before.length) (place : Nat) :
    IsSpliced (before ++ rest) (before.length + place) ↔ IsSpliced rest place := by
  constructor
  · rintro ⟨start, atMost, within⟩
    by_cases inside : start < before.length
    · have ended := ends start inside
      omega
    · obtain ⟨further, rfl⟩ := Nat.exists_eq_add_of_le (Nat.le_of_not_lt inside)
      rw [List.drop_length_add_append] at within
      exact ⟨further, by omega, by omega⟩
  · rintro ⟨start, atMost, within⟩
    refine ⟨before.length + start, by omega, ?_⟩
    rw [List.drop_length_add_append]
    omega

section Append

variable {before rest : List Char} (ends : ∀ start < before.length,
  start + spliceLength ((before ++ rest).drop start) ≤ before.length)
include ends

theorem physical_append (line : Nat) :
    physical line (before ++ rest) =
      (List.range before.length).filterMap (locatedAt? line (before ++ rest)) ++
        physical (line + before.count '\n') rest := by
  rw [physical, List.length_append, List.range_add, List.filterMap_append, List.filterMap_map]
  congr 1
  apply List.filterMap_congr
  intro place _
  simp only [Function.comp_apply, locatedAt?, isSpliced_add_iff ends,
    List.take_length_add_append, List.getElem?_append_right (Nat.le_add_right _ _),
    Nat.add_sub_cancel_left, List.count_append, Nat.add_assoc]

/-- A splice leaves nothing but the change of lines. -/
theorem physical_splice_append (splice : spliceLength (before ++ rest) = before.length)
    (line : Nat) :
    physical line (before ++ rest) = physical (line + before.count '\n') rest := by
  have inSplice : ∀ place ∈ List.range before.length,
      locatedAt? line (before ++ rest) place = none := by
    intro place member
    refine if_pos ⟨0, Nat.zero_le place, ?_⟩
    rw [List.drop_zero, splice, Nat.zero_add]
    exact List.mem_range.mp member
  rw [physical_append ends, List.filterMap_eq_nil_iff.mpr inSplice, List.nil_append]

end Append

theorem physical_cons {character : Char} {rest : List Char}
    (noSplice : spliceLength (character :: rest) = 0) (line : Nat) :
    physical line (character :: rest) =
      ⟨character, line⟩ :: physical (if character = '\n' then line + 1 else line) rest := by
  have ends : ∀ start < [character].length,
      start + spliceLength (([character] ++ rest).drop start) ≤ [character].length := by
    intro start inside
    obtain rfl := Nat.lt_one_iff.mp inside
    rw [List.drop_zero, List.singleton_append, noSplice]
    exact Nat.zero_le _
  have outside : ¬ IsSpliced ([character] ++ rest) 0 := by
    rintro ⟨start, atStart, within⟩
    obtain rfl := Nat.le_zero.mp atStart
    rw [List.drop_zero, List.singleton_append, noSplice] at within
    exact absurd within (Nat.lt_irrefl 0)
  have first : locatedAt? line ([character] ++ rest) 0 = some ⟨character, line⟩ := if_neg outside
  rw [← List.singleton_append, physical_append ends line]
  change List.filterMap _ [0] ++ _ = _
  rw [List.filterMap_cons_some first, List.filterMap_nil, List.count_singleton]
  by_cases lineEnd : character = '\n' <;> simp [lineEnd]

/-- Following the text finds the characters outside splices. -/
theorem locate_eq_physical (line : Nat) (text : List Char) :
    locate line text = physical line text := by
  fun_induction locate line text with
  | case1 => rfl
  | case2 line rest ih =>
      rw [ih]
      refine (@physical_splice_append ['\\', '\n'] rest ?_ rfl line).symm
      intro start inside
      rcases start with _ | _ | start
      · exact le_rfl
      · exact Nat.le_succ 1
      · exact absurd inside (Nat.not_lt.mpr (Nat.le_add_left 2 start))
  | case3 line rest ih =>
      rw [ih]
      refine (@physical_splice_append ['\\', '\r', '\n'] rest ?_ rfl line).symm
      intro start inside
      rcases start with _ | _ | _ | start
      · exact le_rfl
      · exact Nat.le_add_left 1 2
      · exact Nat.le_succ 2
      · exact absurd inside (Nat.not_lt.mpr (Nat.le_add_left 3 start))
  | case4 line character rest noSplice noLongSplice ih =>
      have none : spliceLength (character :: rest) = 0 := by
        rw [spliceLength.eq_def]
        split
        · rename_i after equal
          rcases List.cons.inj equal with ⟨backslash, follows⟩
          exact (noSplice after backslash follows).elim
        · rename_i after equal
          rcases List.cons.inj equal with ⟨backslash, follows⟩
          exact (noLongSplice after backslash follows).elim
        · rfl
      rw [ih, physical_cons none]

/-! ## Parts of the text -/

/-- The text has an end of a block comment in it. -/
def HoldsEnd (text : List Char) : Prop :=
  ['*', '/'] <:+: text

/-- The text is a comment when `left` follows it. -/
inductive IsComment (left : List Char) : List Char -> Prop where
  /-- Two slashes, and the rest of the line. -/
  | line (body : List Char) (oneLine : '\n' ∉ body) (ends : EndsLine left) :
      IsComment left ('/' :: '/' :: body)
  /-- A slash and an asterisk, and the text up to the first asterisk before a slash. -/
  | block (body : List Char) (first : ¬ HoldsEnd (body ++ ['*'])) :
      IsComment left ('/' :: '*' :: (body ++ ['*', '/']))
  /-- A slash and an asterisk, and all of the text, because there is no such end. -/
  | openBlock (body : List Char) (none : ¬ HoldsEnd body) (atEnd : left = []) :
      IsComment left ('/' :: '*' :: body)

/-- The characters begin a comment. -/
def BeginsComment (text : List Char) : Prop :=
  ['/', '/'] <+: text ∨ ['/', '*'] <+: text

/-- What a token of the given kind and lexeme may have been read from, when `left`
follows. -/
inductive Spells (left : List Char) : TokenKind -> String -> List Char -> Prop where
  | lineFeed : Spells left .newline "\n" ['\n']
  | returnLineFeed : Spells left .newline "\n" ['\r', '\n']
  | comment {text : List Char} (isComment : IsComment left text) :
      Spells left .whitespace " " text
  | verbatim {kind : TokenKind} {text : List Char} (noLineEnd : kind ≠ .newline)
      (noLineFeed : '\n' ∉ text) (noComment : ¬ BeginsComment text) :
      Spells left kind (String.ofList text) text

/-- Consecutive parts of the located characters and their tokens.  A part is not empty,
and its token is on the line of its first character. -/
inductive CutInto : List Located -> List (List Located) -> List Token -> Prop where
  | nil : CutInto [] [] []
  | cons {first : Located} {others left : List Located} {parts : List (List Located)}
      {tokens : List Token} {kind : TokenKind} {lexeme : String}
      (spells : Spells (left.map Located.character) kind lexeme
        ((first :: others).map Located.character))
      (rest : CutInto left parts tokens) :
      CutInto ((first :: others) ++ left) ((first :: others) :: parts)
        (⟨kind, first.line, lexeme⟩ :: tokens)

theorem holdsEnd_cons_iff {character : Char} {rest : List Char} :
    HoldsEnd (character :: rest) ↔
      character = '*' ∧ rest.head? = some '/' ∨ HoldsEnd rest := by
  rw [HoldsEnd, List.infix_cons_iff, pair_isPrefix_iff]
  rfl

/-- The rest of a block comment ends where it first can. -/
theorem commentTail_cases (text : List Char) :
    (∃ body, (commentTail text).taken = body ++ ['*', '/'] ∧ ¬ HoldsEnd (body ++ ['*'])) ∨
      ¬ HoldsEnd (commentTail text).taken ∧ (commentTail text).left = [] := by
  fun_induction commentTail text with
  | case1 => exact .inr ⟨by simp [HoldsEnd], rfl⟩
  | case2 rest => exact .inl ⟨[], rfl, by simp [HoldsEnd, List.infix_cons_iff]⟩
  | case3 character rest noEnd ih =>
      have whole := commentTail_whole rest
      rw [Cut.whole] at whole
      have notHere : ∀ body after, body ++ after = rest ->
          ¬ (character = '*' ∧ body.head? = some '/') := by
        rintro body after split ⟨asterisk, head⟩
        rw [eq_cons_drop_of_head? head, List.cons_append] at split
        exact noEnd _ asterisk split.symm
      rcases ih with ⟨body, taken, first⟩ | ⟨none, atEnd⟩
      · refine .inl ⟨character :: body, by rw [Cut.after, taken]; rfl, ?_⟩
        rw [List.cons_append, holdsEnd_cons_iff, not_or]
        rw [taken, List.append_assoc] at whole
        refine ⟨notHere (body ++ ['*']) ('/' :: (commentTail rest).left) ?_, first⟩
        rw [List.append_assoc]
        exact whole
      · refine .inr ⟨?_, atEnd⟩
        rw [Cut.after, List.singleton_append, holdsEnd_cons_iff, not_or]
        exact ⟨notHere _ _ whole, none⟩

theorem isComment_commentTail (text : List Char) :
    IsComment (commentTail text).left ('/' :: '*' :: (commentTail text).taken) := by
  rcases commentTail_cases text with ⟨body, taken, first⟩ | ⟨none, atEnd⟩
  · rw [taken]
    exact .block body first
  · exact .openBlock _ none atEnd

theorem isComment_classTail (text : List Char) :
    IsComment (classTail (· != '\n') text).left
      ('/' :: '/' :: (classTail (· != '\n') text).taken) := by
  refine .line _ ?_ ?_
  · intro member
    simpa using List.mem_takeWhile_imp member
  · intro character head
    simpa using not_inClass_of_head?_dropWhile character head

theorem Segment.StandsBefore.spells_of_significant {segment : Segment} {left : List Char}
    (stands : segment.StandsBefore left) (significant : segment.kind.isBlank = false) :
    Spells left segment.kind segment.lexeme segment.text := by
  rcases stands.exists_lexemeReading significant with ⟨first, others, text, begins, _⟩
  have noLineEnd : segment.kind ≠ .newline := by
    intro lineEnd
    rw [lineEnd] at significant
    cases significant
  have noComment : ¬ BeginsComment segment.text := by
    rw [BeginsComment, text, not_or]
    have within : first :: others <+: first :: (others ++ left) :=
      List.prefix_append (first :: others) left
    exact ⟨fun found => begins.noLineComment (found.trans within),
      fun found => begins.noBlockComment (found.trans within)⟩
  have spelled : Spells left segment.kind (String.ofList segment.text) segment.text :=
    .verbatim noLineEnd (stands.lineFeed_notMem significant) noComment
  rw [← Segment.toList_lexeme significant, String.ofList_toList] at spelled
  rwa [Segment.toList_lexeme significant] at spelled

/-- A blank segment, by what it has been read as and what follows it. -/
inductive IsBlankBefore (left : List Char) : Segment -> Prop where
  | lineFeed : IsBlankBefore left ⟨.lineEnd, ['\n']⟩
  | returnLineFeed : IsBlankBefore left ⟨.lineEnd, ['\r', '\n']⟩
  | blanks {first : Char} {others : List Char}
      (blank : ∀ character ∈ first :: others, isBlankChar character = true)
      (ends : ∀ character ∈ left.head?, isBlankChar character = false)
      (noLineEnd : ¬ (first = '\r' ∧ (others ++ left).head? = some '\n')) :
      IsBlankBefore left ⟨.verbatim .whitespace, first :: others⟩
  | comment {text : List Char} (isComment : IsComment left text) :
      IsBlankBefore left ⟨.comment, text⟩

theorem readSegment_isBlankBefore {first : Char} {rest : List Char}
    (blank : (readSegment first rest).segment.kind.isBlank = true) :
    IsBlankBefore (readSegment first rest).left (readSegment first rest).segment := by
  have noLexeme : ¬ BeginsLexeme first rest := by
    intro begins
    rw [begins.readSegment_eq, (isLexeme_lexemeReading first rest).1] at blank
    cases blank
  clear blank
  unfold readSegment
  split
  · exact .lineFeed
  rename_i noLineEnd
  split
  · exact .returnLineFeed
  rename_i noReturn
  split
  · rename_i blank
    refine .blanks ?_ not_inClass_of_head?_dropWhile ?_
    · exact List.forall_mem_cons.mpr ⟨blank, fun _ => List.mem_takeWhile_imp⟩
    · change ¬ (first = '\r' ∧ (classTail isBlankChar rest).whole.head? = some '\n')
      rwa [classTail_whole]
  rename_i noBlank
  split
  · rename_i comment
    rw [comment.1, eq_cons_drop_of_head? comment.2]
    exact .comment (isComment_classTail (rest.drop 1))
  rename_i noLineComment
  split
  · exact .comment (isComment_commentTail (rest.drop 1))
  · rename_i noBlockComment
    rw [← pair_isPrefix_iff] at noLineComment noBlockComment
    exact absurd ⟨noLineEnd, Bool.not_eq_true _ ▸ noBlank, noLineComment, noBlockComment⟩ noLexeme

theorem Segment.StandsBefore.isBlankBefore {segment : Segment} {left : List Char}
    (stands : segment.StandsBefore left) (blank : segment.kind.isBlank = true) :
    IsBlankBefore left segment := by
  rcases stands with ⟨first, others, _, read⟩
  have isBlank : IsBlankBefore (readSegment first (others ++ left)).left
      (readSegment first (others ++ left)).segment :=
    readSegment_isBlankBefore (by rw [read]; exact blank)
  rwa [read] at isBlank

theorem IsBlankBefore.spells {segment : Segment} {left : List Char}
    (isBlank : IsBlankBefore left segment) :
    Spells left segment.kind segment.lexeme segment.text := by
  cases isBlank with
  | lineFeed => exact .lineFeed
  | returnLineFeed => exact .returnLineFeed
  | comment isComment => exact .comment isComment
  | @blanks first others blank _ _ =>
      refine .verbatim (fun never => TokenKind.noConfusion never) ?_ ?_
      · intro member
        cases blank _ member
      · rcases List.forall_mem_cons.mp blank with ⟨firstBlank, _⟩
        rintro (found | found) <;>
          (obtain rfl := (pair_isPrefix_iff.mp found).1; cases firstBlank)

/-- Whatever stands before a text is read as a token that spells it. -/
theorem Segment.StandsBefore.spells {segment : Segment} {left : List Char}
    (stands : segment.StandsBefore left) :
    Spells left segment.kind segment.lexeme segment.text := by
  cases blank : segment.kind.isBlank with
  | true => exact (stands.isBlankBefore blank).spells
  | false => exact stands.spells_of_significant blank

theorem exists_cutInto_of_segments {text : List Char} {located : List Located}
    (characters : located.map Located.character = text) :
    ∃ parts, CutInto located parts (place (located.map Located.line) (segments text)) := by
  induction text using segment_induction generalizing located with
  | nil =>
      obtain rfl := List.map_eq_nil_iff.mp characters
      refine ⟨[], ?_⟩
      rw [segments]
      exact .nil
  | append segment left stands ih =>
      rcases List.map_eq_append_iff.mp characters with ⟨part, more, rfl, here, later⟩
      rcases ih later with ⟨parts, cut⟩
      have spelled := stands.spells
      rw [← here, ← later] at spelled
      cases part with
      | nil =>
          rcases stands with ⟨first, others, text, _⟩
          rw [text] at here
          cases here
      | cons first others =>
          have length : segment.text.length = ((first :: others).map Located.line).length := by
            rw [← here, List.length_map, List.length_map]
          refine ⟨(first :: others) :: parts, ?_⟩
          rw [segments_of_standsBefore stands, place, List.map_append, length, List.drop_left]
          exact .cons spelled cut

namespace CutInto

variable {located : List Located} {parts : List (List Located)} {tokens : List Token}

theorem flatten_eq (cut : CutInto located parts tokens) : parts.flatten = located := by
  induction cut with
  | nil => rfl
  | cons _ _ ih => rw [List.flatten_cons, ih]

end CutInto

theorem Spells.lineFeed_notMem {left text : List Char} {kind : TokenKind} {lexeme : String}
    (spells : Spells left kind lexeme text) (noLineEnd : kind ≠ .newline) :
    '\n' ∉ lexeme.toList := by
  cases spells with
  | lineFeed => exact absurd rfl noLineEnd
  | returnLineFeed => exact absurd rfl noLineEnd
  | comment => decide
  | verbatim _ noLineFeed _ =>
      rw [String.toList_ofList]
      exact noLineFeed

end Source
end ObjectWrapper
