import ObjectWrapper.Source.Token

namespace ObjectWrapper
namespace Source

/-!
# Segments of spliced text

Reading tokens means cutting the text, splices removed, into consecutive
pieces.  Each cut is made where the piece cannot be longer: identifiers, blank
runs and preprocessing numbers extend as far as their characters do, and of the
punctuators that match the longest is taken.  A literal ends at its closing
quote, or before the line end when it has none; a block comment without an end
runs to the end of the text.

Every reader below returns the characters it takes together with the ones it
leaves, so nothing is lost between two segments.
-/

/-- What a segment is, as far as it decides the kind and text of a token. -/
inductive Shape where
  /-- LF or CRLF. -/
  | lineEnd
  | comment
  /-- Text that stands for itself in a token of the given kind. -/
  | verbatim (kind : TokenKind)
deriving DecidableEq, Repr

/-- A piece of the text and what it is. -/
structure Segment where
  shape : Shape
  text : List Char
deriving DecidableEq, Repr

/-- The kind of the token a segment becomes. -/
def Segment.kind (segment : Segment) : TokenKind :=
  match segment.shape with
  | .lineEnd => .newline
  | .comment => .whitespace
  | .verbatim kind => kind

/-- The text of the token a segment becomes: line ends are all written alike,
and a comment counts as one space. -/
def Segment.lexeme (segment : Segment) : String :=
  match segment.shape with
  | .lineEnd => "\n"
  | .comment => " "
  | .verbatim _ => String.ofList segment.text

/-! ## Character classes -/

def isBlankChar (character : Char) : Bool :=
  character == ' ' || character == '\t' || character == '\r' || character == '\x0b' ||
    character == '\x0c'

/-- Characters beyond ASCII are bytes of some encoding and count as letters. -/
def isNameStart (character : Char) : Bool :=
  character == '_' || character == '$' || character.isAlpha || 128 ≤ character.toNat

def isNameChar (character : Char) : Bool :=
  isNameStart character || character.isDigit

/-- The identifiers that a quote after them turns into an encoding prefix. -/
def isEncodingPrefix (name : List Char) : Bool :=
  name == ['L'] || name == ['u'] || name == ['U'] || name == ['u', '8']

/-- Whether a sign may follow: the letters that begin an exponent. -/
def beginsExponent (character : Char) : Bool :=
  character == 'e' || character == 'E' || character == 'p' || character == 'P'

/-- The punctuators, longer ones first. -/
def punctuators : List String :=
  ["%:%:", "...", "<<=", ">>=", "->*", "<=>", "::", "->", "++", "--", "<<", ">>", "<=", ">=", "==",
    "!=", "&&", "||", "+=", "-=", "*=", "/=", "%=", "&=", "|=", "^=", "##", ".*", "\x7b", "\x7d",
    "[", "]", "(", ")", "#", ";", ":", ",", ".", "?", "~", "!", "+", "-", "*", "/", "%", "^", "&",
    "|", "=", "<", ">"]

/-- The longest punctuator a text begins with. -/
def punctuatorAt (text : List Char) : Option (List Char) :=
  (punctuators.map String.toList).find? fun punctuator => punctuator.isPrefixOf text

/-! ## Readers of one segment -/

/-- A text cut in two. -/
structure Cut where
  taken : List Char
  left : List Char
deriving DecidableEq, Repr

/-- The text that was cut. -/
def Cut.whole (cut : Cut) : List Char :=
  cut.taken ++ cut.left

/-- The cut of a text that begins with more characters, all of them taken. -/
def Cut.after (characters : List Char) (cut : Cut) : Cut :=
  ⟨characters ++ cut.taken, cut.left⟩

theorem Cut.whole_after (characters : List Char) (cut : Cut) :
    (cut.after characters).whole = characters ++ cut.whole := by
  simp [Cut.whole, Cut.after]

/-- Take the characters up to the first one outside the class. -/
def classTail (inClass : Char -> Bool) (text : List Char) : Cut :=
  ⟨text.takeWhile inClass, text.dropWhile inClass⟩

/-- Take the rest of a block comment, its end included. -/
def commentTail : List Char -> Cut
  | [] => ⟨[], []⟩
  | '*' :: '/' :: rest => ⟨['*', '/'], rest⟩
  | character :: rest => (commentTail rest).after [character]

/-- Take the rest of a literal, its closing quote included.  A backslash takes
the next character with it, unless that is a line end. -/
def literalTail (quote : Char) : List Char -> Cut
  | [] => ⟨[], []⟩
  | '\n' :: rest => ⟨[], '\n' :: rest⟩
  | '\\' :: escaped :: rest =>
    if escaped = '\n' then ⟨['\\'], '\n' :: rest⟩
    else (literalTail quote rest).after ['\\', escaped]
  | character :: rest =>
    if character = quote then ⟨[character], rest⟩
    else (literalTail quote rest).after [character]

/-- Take the rest of a preprocessing number whose last character so far is
`previous`: letters, digits, `_` and `.`, a sign after the letter of an
exponent, and a quote before a letter or digit. -/
def numberTail (previous : Char) : List Char -> Cut
  | [] => ⟨[], []⟩
  | character :: rest =>
    if (character == '+' || character == '-') && beginsExponent previous then
      (numberTail character rest).after [character]
    else if character = '\'' then
      match rest with
      | digit :: after =>
        if digit.isAlphanum then (numberTail digit after).after [character, digit]
        else ⟨[], character :: rest⟩
      | [] => ⟨[], [character]⟩
    else if character.isAlphanum || character == '_' || character == '.' then
      (numberTail character rest).after [character]
    else ⟨[], character :: rest⟩

/-! ## The first segment of a text -/

/-- A segment and the text that follows it. -/
structure Reading where
  segment : Segment
  left : List Char

/-- The text that was read. -/
def Reading.whole (reading : Reading) : List Char :=
  reading.segment.text ++ reading.left

/-- The segment of the given shape that consists of what a cut has taken. -/
def Cut.reading (cut : Cut) (shape : Shape) : Reading :=
  ⟨⟨shape, cut.taken⟩, cut.left⟩

theorem Cut.whole_reading (cut : Cut) (shape : Shape) :
    (cut.reading shape).whole = cut.whole :=
  rfl

/-- The literal with the encoding prefix `name`, or the identifier `name` where
the text goes on otherwise. -/
def nameReading (name text : List Char) : Reading :=
  match text with
  | '"' :: rest =>
    if isEncodingPrefix name then
      ((literalTail '"' rest).after (name ++ ['"'])).reading (.verbatim .stringLiteral)
    else ⟨⟨.verbatim .identifier, name⟩, text⟩
  | '\'' :: rest =>
    if isEncodingPrefix name then
      ((literalTail '\'' rest).after (name ++ ['\''])).reading (.verbatim .charLiteral)
    else ⟨⟨.verbatim .identifier, name⟩, text⟩
  | _ => ⟨⟨.verbatim .identifier, name⟩, text⟩

/-- A punctuator, or else a character that begins no other token. -/
def symbolReading (first : Char) (rest : List Char) : Reading :=
  match punctuatorAt (first :: rest) with
  | some punctuator =>
    ⟨⟨.verbatim .punctuator, punctuator⟩, (first :: rest).drop punctuator.length⟩
  | none => ⟨⟨.verbatim .other, [first]⟩, rest⟩

/-- The segment at the start of the text `first :: rest`. -/
def readSegment (first : Char) (rest : List Char) : Reading :=
  if first = '\n' then ⟨⟨.lineEnd, ['\n']⟩, rest⟩
  else if first = '\r' ∧ rest.head? = some '\n' then ⟨⟨.lineEnd, ['\r', '\n']⟩, rest.drop 1⟩
  else if isBlankChar first then
    ((classTail isBlankChar rest).after [first]).reading (.verbatim .whitespace)
  else if first = '/' ∧ rest.head? = some '/' then
    ((classTail (· != '\n') rest).after [first]).reading .comment
  else if first = '/' ∧ rest.head? = some '*' then
    ((commentTail (rest.drop 1)).after ['/', '*']).reading .comment
  else if isNameStart first then
    nameReading (first :: rest.takeWhile isNameChar) (rest.dropWhile isNameChar)
  else if first.isDigit || (first == '.' && rest.head?.any Char.isDigit) then
    ((numberTail first rest).after [first]).reading (.verbatim .number)
  else if first = '"' then
    ((literalTail '"' rest).after [first]).reading (.verbatim .stringLiteral)
  else if first = '\'' then
    ((literalTail '\'' rest).after [first]).reading (.verbatim .charLiteral)
  else symbolReading first rest

/-! ## Nothing is lost between two segments -/

theorem classTail_whole (inClass : Char -> Bool) (text : List Char) :
    (classTail inClass text).whole = text :=
  List.takeWhile_append_dropWhile

theorem commentTail_whole (text : List Char) : (commentTail text).whole = text := by
  fun_induction commentTail text with
  | case1 => rfl
  | case2 => rfl
  | case3 character rest _ ih => rw [Cut.whole_after, ih, List.singleton_append]

theorem literalTail_whole (quote : Char) (text : List Char) :
    (literalTail quote text).whole = text := by
  fun_induction literalTail quote text with
  | case1 => rfl
  | case2 => rfl
  | case3 => rfl
  | case4 escaped rest _ ih => rw [Cut.whole_after, ih]; rfl
  | case5 => rfl
  | case6 character rest _ _ _ ih => rw [Cut.whole_after, ih, List.singleton_append]

theorem numberTail_whole (previous : Char) (text : List Char) :
    (numberTail previous text).whole = text := by
  fun_induction numberTail previous text with
  | case1 => rfl
  | case2 previous character rest _ ih => rw [Cut.whole_after, ih, List.singleton_append]
  | case3 previous _ digit after _ ih => rw [Cut.whole_after, ih]; rfl
  | case4 => rfl
  | case5 => rfl
  | case6 previous character rest _ _ _ ih => rw [Cut.whole_after, ih, List.singleton_append]
  | case7 => rfl

theorem nameReading_whole (name text : List Char) :
    (nameReading name text).whole = name ++ text := by
  unfold nameReading
  split
  · split
    · rw [Cut.whole_reading, Cut.whole_after, literalTail_whole, List.append_assoc]
      rfl
    · rfl
  · split
    · rw [Cut.whole_reading, Cut.whole_after, literalTail_whole, List.append_assoc]
      rfl
    · rfl
  · rfl

theorem isPrefix_of_punctuatorAt {text punctuator : List Char}
    (found : punctuatorAt text = some punctuator) : punctuator <+: text := by
  unfold punctuatorAt at found
  exact List.isPrefixOf_iff_prefix.mp (by simpa using List.find?_some found)

theorem ne_nil_of_punctuatorAt {text punctuator : List Char}
    (found : punctuatorAt text = some punctuator) : punctuator ≠ [] := by
  have nonempty : ∀ listed ∈ punctuators.map String.toList, listed ≠ [] := by decide
  exact nonempty punctuator (List.mem_of_find?_eq_some found)

theorem symbolReading_whole (first : Char) (rest : List Char) :
    (symbolReading first rest).whole = first :: rest := by
  unfold symbolReading
  split
  · rename_i punctuator found
    obtain ⟨tail, equal⟩ := isPrefix_of_punctuatorAt found
    simp [Reading.whole, ← equal]
  · rfl

theorem eq_cons_drop_of_head? {text : List Char} {character : Char}
    (begins : text.head? = some character) : text = character :: text.drop 1 := by
  cases text with
  | nil => cases begins
  | cons first rest =>
    cases begins
    rfl

/-- A segment and the text left after it make up the text read. -/
theorem readSegment_whole (first : Char) (rest : List Char) :
    (readSegment first rest).whole = first :: rest := by
  unfold readSegment
  split
  · rename_i lineEnd
    rw [lineEnd]
    rfl
  split
  · rename_i lineEnd
    conv => rhs; rw [lineEnd.1, eq_cons_drop_of_head? lineEnd.2]
    rfl
  split
  · rw [Cut.whole_reading, Cut.whole_after, classTail_whole, List.singleton_append]
  split
  · rw [Cut.whole_reading, Cut.whole_after, classTail_whole, List.singleton_append]
  split
  · rename_i comment
    conv => rhs; rw [comment.1, eq_cons_drop_of_head? comment.2]
    rw [Cut.whole_reading, Cut.whole_after, commentTail_whole]
    rfl
  split
  · rw [nameReading_whole, List.cons_append, List.takeWhile_append_dropWhile]
  split
  · rw [Cut.whole_reading, Cut.whole_after, numberTail_whole, List.singleton_append]
  split
  · rw [Cut.whole_reading, Cut.whole_after, literalTail_whole, List.singleton_append]
  split
  · rw [Cut.whole_reading, Cut.whole_after, literalTail_whole, List.singleton_append]
  · exact symbolReading_whole first rest

/-! ## Every segment holds a character -/

theorem Cut.reading_after_text_ne_nil {characters : List Char} (nonempty : characters ≠ [])
    (cut : Cut) (shape : Shape) : ((cut.after characters).reading shape).segment.text ≠ [] := by
  intro empty
  exact nonempty (List.append_eq_nil_iff.mp empty).1

theorem nameReading_text_ne_nil {name : List Char} (nonempty : name ≠ []) (text : List Char) :
    (nameReading name text).segment.text ≠ [] := by
  unfold nameReading
  split
  · split
    · exact Cut.reading_after_text_ne_nil (List.append_ne_nil_of_left_ne_nil nonempty _) _ _
    · exact nonempty
  · split
    · exact Cut.reading_after_text_ne_nil (List.append_ne_nil_of_left_ne_nil nonempty _) _ _
    · exact nonempty
  · exact nonempty

theorem symbolReading_text_ne_nil (first : Char) (rest : List Char) :
    (symbolReading first rest).segment.text ≠ [] := by
  unfold symbolReading
  split
  · rename_i punctuator found
    exact ne_nil_of_punctuatorAt found
  · simp

/-- A segment holds at least the character it begins with. -/
theorem readSegment_text_ne_nil (first : Char) (rest : List Char) :
    (readSegment first rest).segment.text ≠ [] := by
  unfold readSegment
  split
  · exact List.cons_ne_nil _ _
  split
  · exact List.cons_ne_nil _ _
  split
  · exact Cut.reading_after_text_ne_nil (List.cons_ne_nil _ _) _ _
  split
  · exact Cut.reading_after_text_ne_nil (List.cons_ne_nil _ _) _ _
  split
  · exact Cut.reading_after_text_ne_nil (List.cons_ne_nil _ _) _ _
  split
  · exact nameReading_text_ne_nil (List.cons_ne_nil _ _) _
  split
  · exact Cut.reading_after_text_ne_nil (List.cons_ne_nil _ _) _ _
  split
  · exact Cut.reading_after_text_ne_nil (List.cons_ne_nil _ _) _ _
  split
  · exact Cut.reading_after_text_ne_nil (List.cons_ne_nil _ _) _ _
  · exact symbolReading_text_ne_nil first rest

/-- What is left after a segment is less than the text. -/
theorem readSegment_left_length (first : Char) (rest : List Char) :
    (readSegment first rest).left.length < (first :: rest).length := by
  have whole := congrArg List.length (readSegment_whole first rest)
  have nonempty := List.length_pos_iff.mpr (readSegment_text_ne_nil first rest)
  simp only [Reading.whole, List.length_append] at whole
  omega

/-! ## All segments of a text -/

/-- The consecutive segments of a text. -/
def segments : List Char -> List Segment
  | [] => []
  | first :: rest =>
    (readSegment first rest).segment :: segments (readSegment first rest).left
termination_by text => text.length
decreasing_by exact readSegment_left_length first rest

/-- The segments, put together again, are the text. -/
theorem flatMap_text_segments (text : List Char) :
    (segments text).flatMap Segment.text = text := by
  fun_induction segments text with
  | case1 => rfl
  | case2 first rest ih =>
    rw [List.flatMap_cons, ih]
    exact readSegment_whole first rest

end Source
end ObjectWrapper
