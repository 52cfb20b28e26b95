import Mathlib.Data.List.TakeWhile
import ObjectWrapper.Proofs.Source.Lexeme
import ObjectWrapper.Proofs.Text.ByteText
import ObjectWrapper.Source.Tokenize

namespace ObjectWrapper
namespace Source

/-!
# Text without splices

Where no backslash stands directly before a line end, lines are joined nowhere: a
token stands on the line of its segment, and the next segment stands as many lines
further as the segment has line feeds.  Tokens can then be taken off the text one
after the other, with the line as the only thing to remember.
-/

/-- No two lines of the text are joined. -/
def Unspliced (text : List Char) : Prop :=
  ¬ ['\\', '\n'] <:+: text ∧ ¬ ['\\', '\r', '\n'] <:+: text

instance (text : List Char) : Decidable (Unspliced text) :=
  inferInstanceAs (Decidable (_ ∧ _))

/-- The token a segment becomes on a line. -/
def Segment.token (segment : Segment) (line : Nat) : Token :=
  ⟨segment.kind, line, segment.lexeme⟩

/-- The tokens of consecutive segments, the first one standing on `line`. -/
def tokensOnLines (line : Nat) : List Segment -> List Token
  | [] => []
  | segment :: rest =>
    segment.token line :: tokensOnLines (line + segment.text.count '\n') rest

/-- The tokens of a text without splices that begins on `line`. -/
def tokensFrom (line : Nat) (text : List Char) : List Token :=
  tokensOnLines line (segments text)

theorem tokensFrom_nil (line : Nat) : tokensFrom line [] = [] := by
  rw [tokensFrom, segments]
  rfl

theorem tokensFrom_ne_nil {text : List Char} (nonempty : text ≠ []) (line : Nat) :
    tokensFrom line text ≠ [] := by
  rcases List.exists_cons_of_ne_nil nonempty with ⟨first, rest, rfl⟩
  rw [tokensFrom, segments]
  exact List.cons_ne_nil _ _

theorem tokensFrom_append {segment : Segment} {left : List Char}
    (stands : segment.StandsBefore left) (line : Nat) :
    tokensFrom line (segment.text ++ left) =
      segment.token line :: tokensFrom (line + segment.text.count '\n') left := by
  rw [tokensFrom, segments_of_standsBefore stands]
  rfl

theorem tokensFrom_lineFeed (line : Nat) (text : List Char) :
    tokensFrom line ('\n' :: text) = ⟨.newline, line, "\n"⟩ :: tokensFrom (line + 1) text := by
  have stands : Segment.StandsBefore ⟨.lineEnd, ['\n']⟩ text := ⟨'\n', [], rfl, rfl⟩
  exact tokensFrom_append stands line

/-- What holds of the empty text, and of a segment with any text after it, holds of
every text. -/
theorem segment_induction {motive : List Char -> Prop} (nil : motive [])
    (append : ∀ (segment : Segment) (left : List Char), segment.StandsBefore left ->
      motive left -> motive (segment.text ++ left)) (text : List Char) : motive text := by
  fun_induction segments text with
  | case1 => exact nil
  | case2 first rest ih =>
      have whole := readSegment_whole first rest
      rw [← whole]
      exact append _ _ (readSegment_standsBefore first rest) ih

/-! ## Every token of a text -/

theorem exists_segment_of_mem_tokensFrom {text : List Char} {line : Nat} {token : Token}
    (member : token ∈ tokensFrom line text) :
    ∃ segment left place, Segment.StandsBefore segment left ∧ segment.text ⊆ text ∧
      token = segment.token place := by
  induction text using segment_induction generalizing line with
  | nil =>
      rw [tokensFrom_nil] at member
      cases member
  | append segment left stands ih =>
      rw [tokensFrom_append stands, List.mem_cons] at member
      rcases member with rfl | later
      · exact ⟨segment, left, line, stands, List.subset_append_left _ _, rfl⟩
      · rcases ih later with ⟨other, after, place, otherStands, subset, equal⟩
        exact ⟨other, after, place, otherStands,
          List.Subset.trans subset (List.subset_append_right _ _), equal⟩

theorem isMarker_of_mem_tokensFrom {text : List Char} {line : Nat} :
    ∀ token ∈ tokensFrom line text, token.kind.isMarker = false := by
  intro token member
  rcases exists_segment_of_mem_tokensFrom member with ⟨segment, left, place, stands, _, rfl⟩
  exact stands.isMarker_eq_false

theorem exists_segment_of_mem_place {lines : List Nat} {read : List Segment} {token : Token}
    (member : token ∈ place lines read) :
    ∃ segment ∈ read, ∃ line, token = segment.token line := by
  induction read generalizing lines with
  | nil => cases member
  | cons segment rest ih =>
      rcases List.mem_cons.mp member with rfl | later
      · exact ⟨segment, List.mem_cons_self, lines.headD 1, rfl⟩
      · rcases ih later with ⟨other, otherMember, line, equal⟩
        exact ⟨other, List.mem_cons_of_mem segment otherMember, line, equal⟩

theorem exists_standsBefore_of_mem_segments {text : List Char} {segment : Segment}
    (member : segment ∈ segments text) : ∃ left, segment.StandsBefore left := by
  fun_induction segments text with
  | case1 => cases member
  | case2 first rest ih =>
      rcases List.mem_cons.mp member with rfl | later
      · exact ⟨_, readSegment_standsBefore first rest⟩
      · exact ih later

/-- No text has the markers of included files, with splices or without. -/
theorem isMarker_of_mem_tokenize {text : String} :
    ∀ token ∈ tokenize text, token.kind.isMarker = false := by
  intro token member
  rcases exists_segment_of_mem_place member with ⟨segment, segmentMember, line, rfl⟩
  rcases exists_standsBefore_of_mem_segments segmentMember with ⟨left, stands⟩
  exact stands.isMarker_eq_false

open ByteText (IsByteText)

theorem Segment.isByteText_lexeme {segment : Segment} (isByteText : IsByteText segment.text) :
    IsByteText segment.lexeme.toList := by
  rcases segment with ⟨shape, text⟩
  cases shape with
  | lineEnd => exact (by decide : IsByteText "\n".toList)
  | comment => exact (by decide : IsByteText " ".toList)
  | verbatim kind =>
      change IsByteText (String.ofList text).toList
      rw [String.toList_ofList]
      exact isByteText

theorem isByteText_lexemes {text : List Char} (isByteText : IsByteText text) (line : Nat) :
    ∀ token ∈ tokensFrom line text, IsByteText token.lexeme.toList := by
  intro token member
  rcases exists_segment_of_mem_tokensFrom member with ⟨segment, left, place, _, subset, rfl⟩
  exact Segment.isByteText_lexeme (isByteText.of_subset subset)

/-! ## Lines of characters -/

/-- The line of each character of a text. -/
def linesFrom (line : Nat) : List Char -> List Nat
  | [] => []
  | character :: rest =>
    line :: linesFrom (if character = '\n' then line + 1 else line) rest

theorem drop_linesFrom (line : Nat) (before after : List Char) :
    (linesFrom line (before ++ after)).drop before.length =
      linesFrom (line + before.count '\n') after := by
  induction before generalizing line with
  | nil => rfl
  | cons character rest ih =>
      rw [List.cons_append, linesFrom, List.length_cons, List.drop_succ_cons, ih]
      by_cases lineEnd : character = '\n'
      · subst lineEnd
        rw [if_pos rfl, List.count_cons_self, Nat.add_right_comm, Nat.add_assoc]
      · rw [if_neg lineEnd, List.count_cons_of_ne lineEnd]

theorem place_linesFrom (line : Nat) (text : List Char) :
    place (linesFrom line text) (segments text) = tokensFrom line text := by
  induction text using segment_induction generalizing line with
  | nil =>
      rw [tokensFrom_nil, segments]
      rfl
  | append segment left stands ih =>
      rw [tokensFrom_append stands, segments_of_standsBefore stands, place, drop_linesFrom, ih]
      rcases stands with ⟨first, others, text, _⟩
      rw [text]
      rfl

theorem Unspliced.tail {character : Char} {rest : List Char}
    (unspliced : Unspliced (character :: rest)) : Unspliced rest :=
  ⟨fun found => unspliced.1 (List.infix_cons found), fun found => unspliced.2 (List.infix_cons found)⟩

theorem locate_of_unspliced {text : List Char} (unspliced : Unspliced text) (line : Nat) :
    (locate line text).map Located.character = text ∧
      (locate line text).map Located.line = linesFrom line text := by
  fun_induction locate line text with
  | case1 => exact ⟨rfl, rfl⟩
  | case2 line rest =>
      exact absurd (List.infix_append [] ['\\', '\n'] rest) unspliced.1
  | case3 line rest =>
      exact absurd (List.infix_append [] ['\\', '\r', '\n'] rest) unspliced.2
  | case4 line character rest _ _ ih =>
      have located := ih unspliced.tail
      rw [List.map_cons, List.map_cons, linesFrom, located.1, located.2]
      exact ⟨rfl, rfl⟩

/-- The tokens of a text without splices are taken off it one after the other. -/
theorem tokenize_ofList {text : List Char} (unspliced : Unspliced text) :
    tokenize (String.ofList text) = tokensFrom 1 text := by
  have located := locate_of_unspliced unspliced 1
  rw [tokenize, String.toList_ofList]
  rw [located.1, located.2]
  exact place_linesFrom 1 text

/-! ## Texts put together without a splice -/

/-- What two texts hold that the second does not hold alone, the first one also holds
with a text that looks like the second. -/
theorem AlikeUpTo.infix_append {ends : Char -> Prop} {searched text more : List Char}
    (alike : AlikeUpTo ends text more)
    (plain : ∀ character ∈ searched, ¬ ends character ∧ character ≠ '"') {before : List Char}
    (found : searched <:+: before ++ more) : searched <:+: before ++ text ∨ searched <:+: more := by
  rcases List.infix_append_iff.mp found with inBefore | inMore | ⟨begins, after, rfl, isSuffix, isPrefix⟩
  · exact .inl (inBefore.trans (List.infix_append' [] before text))
  · exact .inr inMore
  · have kept : after <+: text :=
      alike.isPrefix (fun character member => plain character (List.mem_append_right _ member))
        isPrefix
    exact .inl (List.infix_append_iff.mpr (.inr (.inr ⟨begins, after, rfl, isSuffix, kept⟩)))

theorem Unspliced.append_alike {before text more : List Char}
    (unspliced : Unspliced (before ++ text)) (alike : Alike text more) (others : Unspliced more) :
    Unspliced (before ++ more) := by
  constructor
  · intro found
    exact (alike.infix_append (by simp) found).elim unspliced.1 others.1
  · intro found
    exact (alike.infix_append (by simp) found).elim unspliced.2 others.2

theorem Unspliced.cons {character : Char} (noBackslash : character ≠ '\\') {rest : List Char}
    (unspliced : Unspliced rest) : Unspliced (character :: rest) := by
  constructor
  · intro found
    rcases List.infix_cons_iff.mp found with here | later
    · exact noBackslash (List.cons_prefix_cons.mp here).1.symm
    · exact unspliced.1 later
  · intro found
    rcases List.infix_cons_iff.mp found with here | later
    · exact noBackslash (List.cons_prefix_cons.mp here).1.symm
    · exact unspliced.2 later

theorem unspliced_nil : Unspliced [] :=
  ⟨by decide, by decide⟩

theorem unspliced_newlines (count : Nat) {text : List Char} (unspliced : Unspliced text) :
    Unspliced (List.replicate count '\n' ++ text) := by
  induction count with
  | zero => exact unspliced
  | succ count ih => exact ih.cons (by decide)

/-- A text without line ends holds no splice. -/
theorem unspliced_of_lineFeed_notMem {text : List Char} (noLineEnd : '\n' ∉ text) :
    Unspliced text := by
  constructor
  · intro found
    exact noLineEnd (found.subset (by decide))
  · intro found
    exact noLineEnd (found.subset (by decide))

/-- Nor does it begin one when a quotation mark follows. -/
theorem Unspliced.append_quote {before rest : List Char} (noLineEnd : '\n' ∉ before)
    (unspliced : Unspliced rest) : Unspliced (before ++ '"' :: rest) := by
  have alike : Alike ['"'] ('"' :: rest) := .quoted [] rest
  have alone : Unspliced (before ++ ['"']) :=
    unspliced_of_lineFeed_notMem (by simp [noLineEnd])
  exact alone.append_alike alike (unspliced.cons (by decide))

/-! ## Blanks -/

/-- The significant tokens of a text without splices that begins on `line`. -/
def significantFrom (line : Nat) (text : List Char) : List Token :=
  significant (tokensFrom line text)

theorem significantFrom_nil (line : Nat) : significantFrom line [] = [] := by
  rw [significantFrom, tokensFrom_nil]
  rfl

theorem significantFrom_append {segment : Segment} {left : List Char}
    (stands : segment.StandsBefore left) (line : Nat) :
    significantFrom line (segment.text ++ left) =
      if segment.kind.isBlank then significantFrom (line + segment.text.count '\n') left
      else segment.token line :: significantFrom (line + segment.text.count '\n') left := by
  rw [significantFrom, tokensFrom_append stands, significant, List.filter_cons]
  change (if (! segment.kind.isBlank) = true then _ else _) = _
  cases segment.kind.isBlank with
  | false => rfl
  | true => rfl

section Lexemes

variable {segment : Segment} {left : List Char}

theorem tokensFrom_lexeme (stands : segment.StandsBefore left)
    (significant : segment.kind.isBlank = false) (line : Nat) :
    tokensFrom line (segment.text ++ left) = segment.token line :: tokensFrom line left := by
  rw [tokensFrom_append stands, List.count_eq_zero.mpr (stands.lineFeed_notMem significant),
    Nat.add_zero]

/-- A text that is one lexeme is read as that alone. -/
theorem tokenize_lexeme (stands : segment.StandsBefore [])
    (significant : segment.kind.isBlank = false) :
    tokenize (String.ofList segment.text) = [segment.token 1] := by
  have unspliced := unspliced_of_lineFeed_notMem (stands.lineFeed_notMem significant)
  have read := tokensFrom_lexeme stands significant 1
  rw [List.append_nil, tokensFrom_nil] at read
  rw [tokenize_ofList unspliced, read]

theorem significantFrom_lexeme (stands : segment.StandsBefore left)
    (significant : segment.kind.isBlank = false) (line : Nat) :
    significantFrom line (segment.text ++ left) = segment.token line :: significantFrom line left := by
  rw [significantFrom_append stands, significant, if_neg Bool.false_ne_true,
    List.count_eq_zero.mpr (stands.lineFeed_notMem significant), Nat.add_zero]

end Lexemes

theorem readSegment_blank {first : Char} (blank : isBlankChar first = true) {rest : List Char}
    (noLineEnd : ¬ (first = '\r' ∧ rest.head? = some '\n')) :
    readSegment first rest = ⟨⟨.verbatim .whitespace, first :: rest.takeWhile isBlankChar⟩,
      rest.dropWhile isBlankChar⟩ := by
  have noLineFeed : first ≠ '\n' := by
    rintro rfl
    cases blank
  rw [readSegment, if_neg noLineFeed, if_neg noLineEnd, if_pos blank]
  rfl

section Views

variable {α : Type} {view : List Token -> α}
  (skips : ∀ token rest, token.isBlank = true -> view (token :: rest) = view rest)
include skips

theorem view_tokensFrom_newline (line : Nat) (text : List Char) :
    view (tokensFrom line ('\n' :: text)) = view (tokensFrom (line + 1) text) := by
  rw [tokensFrom_lineFeed, skips _ _ rfl]

/-- What does not look at blanks in front of the others does not see those that a text begins
with, a CR before a line feed included. -/
theorem view_tokensFrom_dropWhile_blank (line : Nat) (text : List Char) :
    view (tokensFrom line (text.dropWhile isBlankChar)) = view (tokensFrom line text) := by
  cases text with
  | nil => rfl
  | cons first rest =>
      by_cases blank : isBlankChar first = true
      · rw [List.dropWhile_cons, if_pos blank]
        by_cases lineEnd : first = '\r' ∧ rest.head? = some '\n'
        · rcases lineEnd with ⟨rfl, head⟩
          rw [eq_cons_drop_of_head? head]
          have stands : Segment.StandsBefore ⟨.lineEnd, ['\r', '\n']⟩ (rest.drop 1) :=
            ⟨'\r', ['\n'], rfl, rfl⟩
          have read := congrArg view (tokensFrom_append stands line)
          rw [skips _ _ rfl] at read
          exact (view_tokensFrom_newline skips line _).trans read.symm
        · have read := readSegment_blank blank lineEnd
          have stands := readSegment_standsBefore first rest
          rw [read] at stands
          have noLineEnds : '\n' ∉ first :: rest.takeWhile isBlankChar := by
            intro member
            rcases List.mem_cons.mp member with rfl | taken
            · cases blank
            · cases List.mem_takeWhile_imp taken
          have skipped := congrArg view (tokensFrom_append stands line)
          rw [skips _ _ rfl, List.count_eq_zero.mpr noLineEnds, List.cons_append,
            List.takeWhile_append_dropWhile] at skipped
          exact skipped.symm
      · rw [List.dropWhile_cons, if_neg blank]

end Views

theorem significantFrom_newline (line : Nat) (text : List Char) :
    significantFrom line ('\n' :: text) = significantFrom (line + 1) text :=
  view_tokensFrom_newline (fun _ rest blank => significant_cons_of_isBlank blank rest) line text

theorem significantFrom_newlines (line count : Nat) (text : List Char) :
    significantFrom line (List.replicate count '\n' ++ text) =
      significantFrom (line + count) text := by
  induction count generalizing line with
  | zero => rfl
  | succ count ih =>
      rw [List.replicate_succ, List.cons_append, significantFrom_newline, ih, Nat.add_right_comm,
        Nat.add_assoc]

theorem significantFrom_dropWhile_blank (line : Nat) (text : List Char) :
    significantFrom line (text.dropWhile isBlankChar) = significantFrom line text :=
  view_tokensFrom_dropWhile_blank (fun _ rest blank => significant_cons_of_isBlank blank rest)
    line text

theorem significantFrom_space (line : Nat) (text : List Char) :
    significantFrom line (' ' :: text) = significantFrom line text := by
  rw [← significantFrom_dropWhile_blank line text, ← significantFrom_dropWhile_blank line (' ' :: text)]
  rfl

end Source
end ObjectWrapper
