import Mathlib.Data.List.Basic
import ObjectWrapper.Proofs.Source.Significant
import ObjectWrapper.Source.Segment

namespace ObjectWrapper
namespace Source

/-!
# Where a segment ends

Readers look one or two characters past the segment they take.  A segment that was
read before some text is therefore read as well before another one, provided that
the readers cannot tell the two texts apart: a blank, a line feed and the end of the
text end every segment that is not blank, and behind a quotation mark nobody looks.  A
literal with both its quotes is read before any text.
-/

/-- A segment is read off the text it begins when `left` follows it. -/
def Segment.StandsBefore (segment : Segment) (left : List Char) : Prop :=
  ∃ first others, segment.text = first :: others ∧
    readSegment first (others ++ left) = ⟨segment, left⟩

theorem readSegment_standsBefore (first : Char) (rest : List Char) :
    (readSegment first rest).segment.StandsBefore (readSegment first rest).left := by
  have whole := readSegment_whole first rest
  rcases List.exists_cons_of_ne_nil (readSegment_text_ne_nil first rest) with
    ⟨head, others, text⟩
  rw [Reading.whole, text, List.cons_append, List.cons.injEq] at whole
  rcases whole with ⟨rfl, after⟩
  refine ⟨head, others, text, ?_⟩
  rw [after]

theorem segments_of_standsBefore {segment : Segment} {left : List Char}
    (stands : segment.StandsBefore left) :
    segments (segment.text ++ left) = segment :: segments left := by
  rcases stands with ⟨first, others, text, read⟩
  rw [text, List.cons_append, segments, read]

/-! ## Texts that look the same -/

/-- The characters that end every segment that is not blank. -/
def isSeparator (character : Char) : Bool :=
  isBlankChar character || character == '\n'

/-- Nothing that is read up to the beginning of the first text would be read further
before the second one: that one ends, or goes on with one of the given characters, no
later than where the two begin to differ. -/
inductive AlikeUpTo (ends : Char -> Prop) : List Char -> List Char -> Prop where
  | apart (text : List Char) {more : List Char} (ended : ∀ character ∈ more.head?, ends character) :
      AlikeUpTo ends text more
  | quoted (text more : List Char) : AlikeUpTo ends ('"' :: text) ('"' :: more)
  | cons (character : Char) {text more : List Char} (same : AlikeUpTo ends text more) :
      AlikeUpTo ends (character :: text) (character :: more)

namespace AlikeUpTo

variable {ends : Char -> Prop} {text more : List Char}

theorem append (common : List Char) (alike : AlikeUpTo ends text more) :
    AlikeUpTo ends (common ++ text) (common ++ more) := by
  induction common with
  | nil => exact alike
  | cons character rest ih => exact .cons character ih

theorem head? (alike : AlikeUpTo ends text more) :
    (∀ character ∈ more.head?, ends character) ∨ more.head? = text.head? := by
  cases alike with
  | apart _ ended => exact .inl ended
  | quoted => exact .inr rfl
  | cons => exact .inr rfl

/-- A text without such characters and quotation marks begins the second one only if it
begins the first. -/
theorem isPrefix (alike : AlikeUpTo ends text more) {searched : List Char}
    (plain : ∀ character ∈ searched, ¬ ends character ∧ character ≠ '"')
    (found : searched <+: more) : searched <+: text := by
  induction alike generalizing searched with
  | apart text ended =>
      cases searched with
      | nil => exact List.nil_prefix
      | cons first others =>
          rcases found with ⟨after, rfl⟩
          exact absurd (ended first rfl) (plain first List.mem_cons_self).1
  | quoted text more =>
      rcases List.prefix_cons_iff.mp found with rfl | ⟨others, rfl, _⟩
      · exact List.nil_prefix
      · exact absurd rfl (plain '"' List.mem_cons_self).2
  | cons character same ih =>
      rcases List.prefix_cons_iff.mp found with rfl | ⟨others, rfl, after⟩
      · exact List.nil_prefix
      · rw [List.cons_prefix_cons]
        exact ⟨rfl, ih (fun other member => plain other (List.mem_cons_of_mem _ member)) after⟩

end AlikeUpTo

/-- Texts that are alike up to a space or to the end. -/
abbrev Alike : List Char -> List Char -> Prop :=
  AlikeUpTo (· = ' ')

/-! ## Separators -/

theorem isSeparator_of_eq_space : ∀ character, character = ' ' -> isSeparator character = true := by
  rintro _ rfl
  rfl

theorem isNameChar_of_isSeparator {character : Char} (separator : isSeparator character = true) :
    isNameChar character = false := by
  simp only [isSeparator, isBlankChar, Bool.or_eq_true, beq_iff_eq] at separator
  rcases separator with ((((rfl | rfl) | rfl) | rfl) | rfl) | rfl <;> rfl

theorem isAlphanum_of_isSeparator {character : Char} (separator : isSeparator character = true) :
    character.isAlphanum = false := by
  have outside := isNameChar_of_isSeparator separator
  simp only [isNameChar, isNameStart, Bool.or_eq_false_iff] at outside
  rw [Char.isAlphanum, outside.1.1.2, outside.2, Bool.or_false]

theorem isDigit_of_isSeparator {character : Char} (separator : isSeparator character = true) :
    character.isDigit = false := by
  have outside := isNameChar_of_isSeparator separator
  rw [isNameChar, Bool.or_eq_false_iff] at outside
  exact outside.2

theorem not_isQuote_of_isSeparator {character : Char} (separator : isSeparator character = true) :
    character ≠ '"' ∧ character ≠ '\'' := by
  constructor <;> rintro rfl <;> cases separator

theorem numberTail_of_isSeparator {character : Char} (separator : isSeparator character = true)
    (last : Char) (rest : List Char) :
    numberTail last (character :: rest) = ⟨[], character :: rest⟩ := by
  simp only [isSeparator, isBlankChar, Bool.or_eq_true, beq_iff_eq] at separator
  rw [numberTail.eq_def]
  rcases separator with ((((rfl | rfl) | rfl) | rfl) | rfl) | rfl <;> rfl

/-! ## One step of a number -/

/-- A number whose last character is `last` goes on with the character. -/
def continuesNumber (last character : Char) : Bool :=
  ((character == '+' || character == '-') && beginsExponent last) ||
    (character.isAlphanum || character == '_' || character == '.')

theorem continuesNumber_of_isPart {previous character : Char}
    (part : (character.isAlphanum || character == '_' || character == '.') = true) :
    continuesNumber previous character = true := by
  rw [continuesNumber, part, Bool.or_true]

theorem numberTail_cons_of_continues {previous character : Char}
    (continues : continuesNumber previous character = true) (rest : List Char) :
    numberTail previous (character :: rest) = (numberTail character rest).after [character] := by
  rw [numberTail.eq_def]
  dsimp only
  split
  · rfl
  rename_i noSign
  rw [continuesNumber, Bool.or_eq_true, or_iff_right noSign] at continues
  have noSeparator : character ≠ '\'' := by
    rintro rfl
    cases continues
  rw [if_neg noSeparator, if_pos continues]

theorem numberTail_cons_of_not_continues {previous character : Char}
    (ends : continuesNumber previous character = false) (noSeparator : character ≠ '\'')
    (rest : List Char) : numberTail previous (character :: rest) = ⟨[], character :: rest⟩ := by
  rw [continuesNumber, Bool.or_eq_false_iff] at ends
  rw [numberTail.eq_def]
  dsimp only
  rw [ends.1, if_neg Bool.false_ne_true, if_neg noSeparator, ends.2, if_neg Bool.false_ne_true]

theorem numberTail_separator {digit : Char} (isPart : digit.isAlphanum = true) (previous : Char)
    (rest : List Char) :
    numberTail previous ('\'' :: digit :: rest) = (numberTail digit rest).after ['\'', digit] := by
  have noSign : (('\'' == '+' || '\'' == '-') && beginsExponent previous) = false := rfl
  rw [numberTail.eq_def]
  dsimp only
  rw [noSign, if_neg Bool.false_ne_true, if_pos rfl, if_pos isPart]

/-! ## Readers before such texts -/

/-- A run of a class ends before a text that does not begin with the class. -/
theorem classTail_append {inClass : Char -> Bool} {run left : List Char}
    (inside : ∀ character ∈ run, inClass character = true)
    (outside : ∀ character ∈ left.head?, inClass character = false) :
    classTail inClass (run ++ left) = ⟨run, left⟩ := by
  have ends : left.takeWhile inClass = [] ∧ left.dropWhile inClass = left := by
    cases left with
    | nil => exact ⟨rfl, rfl⟩
    | cons character rest =>
        have stops := outside character rfl
        simp [stops]
  rw [classTail, List.takeWhile_append_of_pos inside, List.dropWhile_append_of_pos inside, ends.1,
    ends.2, List.append_nil]

theorem not_inClass_of_head?_dropWhile {inClass : Char -> Bool} {text : List Char} :
    ∀ character ∈ (text.dropWhile inClass).head?, inClass character = false := by
  intro character head
  have stops := List.head?_dropWhile_not inClass text
  rw [Option.mem_def.mp head] at stops
  exact stops

/-- A name is an identifier unless it is an encoding prefix directly before a quote. -/
theorem nameReading_eq_identifier_iff {name text : List Char} :
    nameReading name text = ⟨⟨.verbatim .identifier, name⟩, text⟩ ↔
      (isEncodingPrefix name = true -> ∀ character ∈ text.head?,
        character ≠ '"' ∧ character ≠ '\'') := by
  unfold nameReading
  split
  · split
    · rename_i isPrefix
      simp [isPrefix, Cut.reading]
    · rename_i noPrefix
      simp [noPrefix]
  · split
    · rename_i isPrefix
      simp [isPrefix, Cut.reading]
    · rename_i noPrefix
      simp [noPrefix]
  · rename_i noString noChar
    constructor
    · intro _ _ character head
      cases text with
      | nil => cases head
      | cons first rest =>
          cases head
          constructor
          · rintro rfl
            exact noString rest rfl
          · rintro rfl
            exact noChar rest rfl
    · intro _
      rfl

section Alike

variable {ends : Char -> Prop} (separates : ∀ character, ends character -> isSeparator character = true)
include separates

theorem AlikeUpTo.isPrefix_of_separates {text more : List Char} (alike : AlikeUpTo ends text more)
    {searched : List Char}
    (plain : ∀ character ∈ searched, isSeparator character = false ∧ character ≠ '"')
    (found : searched <+: more) : searched <+: text := by
  refine alike.isPrefix (fun character member => ?_) found
  refine ⟨fun ended => ?_, (plain character member).2⟩
  have differs := (plain character member).1
  rw [separates character ended] at differs
  cases differs

theorem nameReading_alike {name left more : List Char}
    (read : nameReading name left = ⟨⟨.verbatim .identifier, name⟩, left⟩)
    (alike : AlikeUpTo ends left more) :
    nameReading name more = ⟨⟨.verbatim .identifier, name⟩, more⟩ := by
  rw [nameReading_eq_identifier_iff] at read ⊢
  intro encoding character head
  rcases alike.head? with ended | same
  · exact not_isQuote_of_isSeparator (separates character (ended character head))
  · exact read encoding character (same ▸ head)

/-- Where a number ends after `last`, it also ends before a text that looks the same. -/
theorem numberTail_ends_alike {last : Char} {left more : List Char}
    (stops : numberTail last left = ⟨[], left⟩) (alike : AlikeUpTo ends left more) :
    numberTail last more = ⟨[], more⟩ := by
  cases alike with
  | apart _ ended =>
      cases more with
      | nil =>
          rw [numberTail.eq_def]
      | cons character rest =>
          exact numberTail_of_isSeparator (separates character (ended character rfl)) last rest
  | quoted =>
      rw [numberTail.eq_def]
      rfl
  | cons character same =>
      rw [numberTail.eq_def] at stops ⊢
      dsimp only at stops ⊢
      split at stops
      · simp [Cut.after] at stops
      · rename_i noSign
        rw [if_neg noSign]
        split at stops
        · rename_i separator
          rw [if_pos separator]
          cases same with
          | apart _ ended =>
              rename_i following
              cases following with
              | nil => rfl
              | cons digit rest =>
                  have noPart := isAlphanum_of_isSeparator (separates digit (ended digit rfl))
                  simp only [noPart, Bool.false_eq_true, if_false]
          | quoted => rfl
          | cons digit same =>
              simp only at stops ⊢
              split at stops
              · simp [Cut.after] at stops
              · rename_i noDigit
                rw [if_neg noDigit]
        · rename_i noSeparator
          rw [if_neg noSeparator]
          split at stops
          · simp [Cut.after] at stops
          · rename_i noPart
            rw [if_neg noPart]

/-- A number with the same text before its end is read as the same number. -/
theorem numberTail_alike (previous : Char) (text : List Char) {more : List Char}
    (alike : AlikeUpTo ends (numberTail previous text).left more) :
    numberTail previous ((numberTail previous text).taken ++ more) =
      ⟨(numberTail previous text).taken, more⟩ := by
  fun_induction numberTail previous text with
  | case1 => exact numberTail_ends_alike separates rfl alike
  | case2 previous character rest sign ih =>
      have continues : continuesNumber previous character = true := by simp [continuesNumber, sign]
      have continued := ih alike
      simp only [Cut.after, List.cons_append, List.nil_append] at continued ⊢
      rw [numberTail_cons_of_continues continues, continued]
      rfl
  | case3 previous digit after isDigit noSign ih =>
      have continued := ih alike
      simp only [Cut.after, List.cons_append, List.nil_append] at continued ⊢
      rw [numberTail_separator isDigit, continued]
      rfl
  | case4 previous digit after noDigit noSign =>
      have stops : numberTail previous ('\'' :: digit :: after) = ⟨[], '\'' :: digit :: after⟩ := by
        rw [numberTail.eq_def]
        dsimp only
        rw [if_neg noSign, if_pos rfl, if_neg noDigit]
      exact numberTail_ends_alike separates stops alike
  | case5 previous noSign =>
      have stops : numberTail previous ['\''] = ⟨[], ['\'']⟩ := by
        rw [numberTail.eq_def]
        dsimp only
        rw [if_neg noSign, if_pos rfl]
      exact numberTail_ends_alike separates stops alike
  | case6 previous character rest noSign noSeparator part ih =>
      have continued := ih alike
      simp only [Cut.after, List.cons_append, List.nil_append] at continued ⊢
      rw [numberTail_cons_of_continues (continuesNumber_of_isPart part), continued]
      rfl
  | case7 previous character rest noSign noSeparator noPart =>
      have stops : numberTail previous (character :: rest) = ⟨[], character :: rest⟩ := by
        rw [numberTail.eq_def]
        dsimp only
        rw [if_neg noSign, if_neg noSeparator, if_neg noPart]
      exact numberTail_ends_alike separates stops alike

/-- The punctuator at the beginning stays the longest one there. -/
theorem punctuatorAt_alike {text more : List Char} (alike : AlikeUpTo ends text more)
    (kept : ∀ punctuator ∈ punctuatorAt text, punctuator <+: more) :
    punctuatorAt more = punctuatorAt text := by
  have listed : ∀ punctuator ∈ punctuators.map String.toList,
      punctuator.all (fun character => ! isSeparator character && character != '"') = true := by
    decide
  have plain : ∀ punctuator ∈ punctuators.map String.toList, ∀ character ∈ punctuator,
      isSeparator character = false ∧ character ≠ '"' := by
    intro punctuator member character inside
    simpa using List.all_eq_true.mp (listed punctuator member) character inside
  have fewer : ∀ punctuator ∈ punctuators.map String.toList,
      punctuator.isPrefixOf more = true -> punctuator.isPrefixOf text = true := by
    intro punctuator member found
    rw [List.isPrefixOf_iff_prefix] at found ⊢
    exact alike.isPrefix_of_separates separates (plain punctuator member) found
  cases found : punctuatorAt text with
  | none =>
      unfold punctuatorAt at found ⊢
      rw [List.find?_eq_none] at found ⊢
      intro punctuator member isPrefix
      exact found punctuator member (fewer punctuator member isPrefix)
  | some punctuator =>
      have here := kept punctuator found
      unfold punctuatorAt at found ⊢
      rw [List.find?_eq_some_iff_append] at found ⊢
      rcases found with ⟨_, longer, shorter, split, absent⟩
      refine ⟨List.isPrefixOf_iff_prefix.mpr here, longer, shorter, split, ?_⟩
      intro other member
      have missing := absent other member
      have inList : other ∈ punctuators.map String.toList := by
        rw [split]
        exact List.mem_append_left _ member
      cases found : other.isPrefixOf more with
      | false => rfl
      | true => simp [fewer other inList found] at missing

end Alike

end Source
end ObjectWrapper
