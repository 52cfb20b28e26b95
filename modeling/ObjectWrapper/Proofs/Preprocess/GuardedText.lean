import ObjectWrapper.Proofs.Except
import ObjectWrapper.Proofs.Macro.Rescan
import ObjectWrapper.Proofs.Preprocess.Concatenation
import ObjectWrapper.Proofs.Preprocess.Document
import ObjectWrapper.Proofs.Source.WholeLines
import ObjectWrapper.Proofs.Text.HeaderText

namespace ObjectWrapper
namespace Preprocess

open Source Directive

/-!
# A line of text that depends on a name

A header is written in Unicode and read byte by byte.  A name with characters beyond ASCII is
nevertheless read as one identifier, whichever bytes it takes, since every byte beyond ASCII
counts as a letter.  So a line of text between `#ifdef` and `#endif` counts if the table has
the name in the form of header text, and then it is expanded like any other text.

The line must be one.  It must not be a directive, and neither a backslash at its end nor a
comment may draw in the line behind it.
-/

/-! ## Names -/

/-- A text that can be the name of a macro: ASCII letters, digits, `_`, `$` and characters
beyond ASCII, of which the first is not a digit. -/
structure IsMacroName (name : String) : Prop where
  nonempty : name ≠ ""
  characters : ∀ character ∈ name.toList, character.isAlphanum = true ∨ character = '_' ∨
    character = '$' ∨ 128 ≤ character.toNat
  noDigit : ∀ character ∈ name.toList.head?, character.isDigit = false

instance : DecidablePred IsMacroName := fun name =>
  decidable_of_iff (name ≠ "" ∧
      name.toList.all (fun character => character.isAlphanum || character == '_' ||
        character == '$' || decide (128 ≤ character.toNat)) = true ∧
      name.toList.head?.all (! ·.isDigit) = true) <| by
    have written : (name.toList.all fun character => character.isAlphanum || character == '_' ||
        character == '$' || decide (128 ≤ character.toNat)) = true ↔
        ∀ character ∈ name.toList, character.isAlphanum = true ∨ character = '_' ∨
          character = '$' ∨ 128 ≤ character.toNat := by
      simp [or_assoc]
    have begins : name.toList.head?.all (! ·.isDigit) = true ↔
        ∀ character ∈ name.toList.head?, character.isDigit = false := by
      simp [Option.all_eq_true]
    rw [written, begins]
    exact ⟨fun ⟨nonempty, characters, noDigit⟩ => ⟨nonempty, characters, noDigit⟩,
      fun isName => ⟨isName.nonempty, isName.characters, isName.noDigit⟩⟩

theorem isNameStart_of_high {character : Char} (high : 128 ≤ character.toNat) :
    isNameStart character = true := by
  simp [isNameStart, high]

theorem isNameChar_of_isNameStart {character : Char} (start : isNameStart character = true) :
    isNameChar character = true := by
  rw [isNameChar, start, Bool.true_or]

namespace IsMacroName

variable {name : String}

theorem equals_notMem (isName : IsMacroName name) : '=' ∉ name.toList :=
  fun member => absurd (isName.characters '=' member) (by decide)

theorem isNameChar (isName : IsMacroName name) :
    ∀ character ∈ (ByteText.ofUnicode name).toList, isNameChar character = true := by
  intro character member
  rcases ByteText.mem_or_high_of_mem_ofUnicode member with inName | high
  · have kind := isName.characters character inName
    simp only [Source.isNameChar, isNameStart, Char.isAlphanum] at kind ⊢
    rcases kind with letter | rfl | rfl | high
    · rcases Bool.or_eq_true _ _ |>.mp letter with alpha | digit
      · simp [alpha]
      · simp [digit]
    · rfl
    · rfl
    · simp [high]
  · exact isNameChar_of_isNameStart (isNameStart_of_high high)

/-- In the form of header text, the name is one that is read as an identifier. -/
theorem exists_toList_ofUnicode (isName : IsMacroName name) :
    ∃ first others, (ByteText.ofUnicode name).toList = first :: others ∧
      isNameStart first = true ∧ ∀ character ∈ others, Source.isNameChar character = true := by
  have inName := isName.isNameChar
  cases written : name.toList with
  | nil => exact absurd (String.toList_eq_nil_iff.mp written) isName.nonempty
  | cons first rest =>
      have shape := ByteText.toList_ofUnicode name
      rw [written, List.flatMap_cons] at shape
      by_cases ascii : first.toNat < 128
      · rw [ByteText.characters_of_ascii ascii, List.singleton_append] at shape
        rw [shape] at inName ⊢
        rcases List.forall_mem_cons.mp inName with ⟨firstIs, othersAre⟩
        have noDigit := isName.noDigit first (by rw [written]; rfl)
        rw [Source.isNameChar, noDigit, Bool.or_false] at firstIs
        exact ⟨first, _, rfl, firstIs, othersAre⟩
      · rcases List.exists_cons_of_ne_nil (ByteText.characters_ne_nil first) with
          ⟨head, others, shapeFirst⟩
        have high : 128 ≤ head.toNat :=
          ByteText.high_of_mem_characters (Nat.le_of_not_lt ascii)
            (shapeFirst ▸ List.mem_cons_self)
        rw [shapeFirst, List.cons_append] at shape
        rw [shape] at inName ⊢
        exact ⟨head, _, rfl, isNameStart_of_high high, (List.forall_mem_cons.mp inName).2⟩

end IsMacroName

/-! ## The tokens of a header with a guarded line -/

/-- A header in which one line of text depends on a name.  Its last line may be ended or not. -/
def guarded (name text : String) (isEnded : Bool) : String :=
  "#ifdef " ++ name ++ "\n" ++ text ++ "\n#endif" ++ if isEnded then "\n" else ""

/-- The tokens between the two directives, from the line end in front of the text to the one
behind it. -/
def between (text : String) : List Token :=
  tokenize (ByteText.ofUnicode ("\n" ++ text ++ "\n"))

/-- The characters of these tokens. -/
def lineCharacters (text : String) : List Char :=
  '\n' :: ((ByteText.ofUnicode text).toList ++ ['\n'])

/-- What follows the second directive. -/
def closing (isEnded : Bool) : List Token :=
  if isEnded then [⟨.newline, 3, "\n"⟩] else []

def endifCharacters (isEnded : Bool) : List Char :=
  "#endif".toList ++ if isEnded then ['\n'] else []

/-- The text is one line of text. -/
structure IsTextLine (text : String) : Prop where
  oneLine : '\n' ∉ text.toList
  /-- No backslash at its end joins it to the next line. -/
  unjoined : Unspliced (ByteText.ofUnicode (text ++ "\n")).toList
  /-- No comment goes on behind it. -/
  closed : EndsWithNewline (between text)
  /-- It is no directive. -/
  plain : heading? (between text).tail = none

/-- The tokens with which the first directive asks for a name. -/
def askedName (name : String) : List Token :=
  [⟨.whitespace, 1, " "⟩, ⟨.identifier, 1, name⟩]

def ifdefLine (name : String) : List Token :=
  ⟨.punctuator, 1, "#"⟩ :: ⟨.identifier, 1, "ifdef"⟩ :: askedName name

def endifLine : List Token :=
  [⟨.punctuator, 3, "#"⟩, ⟨.identifier, 3, "endif"⟩]

theorem tokensFrom_ifdef {first : Char} {others : List Char} (start : isNameStart first = true)
    (inside : ∀ character ∈ others, isNameChar character = true) (rest : List Char) :
    tokensFrom 1 ("#ifdef ".toList ++ (first :: others ++ '\n' :: rest)) =
      ifdefLine (String.ofList (first :: others)) ++ tokensFrom 1 ('\n' :: rest) := by
  have noBlank : isBlankChar first = false := (BeginsLexeme.of_isNameStart start []).noBlank
  have hash : Segment.StandsBefore ⟨.verbatim .punctuator, ['#']⟩
      ("ifdef ".toList ++ (first :: others ++ '\n' :: rest)) := ⟨'#', [], rfl, rfl⟩
  have word : Segment.StandsBefore ⟨.verbatim .identifier, "ifdef".toList⟩
      (" ".toList ++ (first :: others ++ '\n' :: rest)) := ⟨'i', "fdef".toList, rfl, rfl⟩
  have space : Segment.StandsBefore ⟨.verbatim .whitespace, [' ']⟩
      (first :: others ++ '\n' :: rest) := by
    refine ⟨' ', [], rfl, ?_⟩
    rw [List.nil_append, readSegment_blank rfl fun both => absurd both.1 (by decide),
      List.cons_append, List.takeWhile_cons, List.dropWhile_cons, noBlank]
    rfl
  have named : Segment.StandsBefore ⟨.verbatim .identifier, first :: others⟩ ('\n' :: rest) := by
    refine ⟨first, others, rfl, ?_⟩
    rw [readSegment_name start inside (by simp [isNameChar, isNameStart])]
    rfl
  have atHash := tokensFrom_lexeme hash rfl 1
  have atWord := tokensFrom_lexeme word rfl 1
  have atSpace := tokensFrom_append space 1
  have atName := tokensFrom_lexeme named rfl 1
  exact atHash.trans (congrArg (_ :: ·)
    (atWord.trans (congrArg (_ :: ·) (atSpace.trans (congrArg (_ :: ·) atName)))))

theorem tokensFrom_endif (isEnded : Bool) :
    tokensFrom 3 (endifCharacters isEnded) = endifLine ++ closing isEnded := by
  cases isEnded <;> decide +kernel

section Reading

variable {name text : String}

theorem tokenize_of_unspliced (unspliced : Unspliced text.toList) :
    tokenize text = tokensFrom 1 text.toList := by
  have read := tokenize_ofList unspliced
  rwa [String.ofList_toList] at read

theorem ofUnicode_lineFeed : ByteText.ofUnicode "\n" = "\n" :=
  ByteText.ofUnicode_of_ascii (by decide)

theorem toList_between (text : String) :
    (ByteText.ofUnicode ("\n" ++ text ++ "\n")).toList = lineCharacters text := by
  rw [ByteText.ofUnicode_append, ByteText.ofUnicode_append, ofUnicode_lineFeed,
    String.toList_append, String.toList_append]
  rfl

theorem toList_guarded (name text : String) (isEnded : Bool) :
    (ByteText.ofUnicode (guarded name text isEnded)).toList =
      "#ifdef ".toList ++ ((ByteText.ofUnicode name).toList ++
        (lineCharacters text ++ endifCharacters isEnded)) := by
  have ifdef : ByteText.ofUnicode "#ifdef " = "#ifdef " :=
    ByteText.ofUnicode_of_ascii (by decide)
  have endif : ByteText.ofUnicode "\n#endif" = "\n#endif" :=
    ByteText.ofUnicode_of_ascii (by decide)
  have ending : ByteText.ofUnicode (if isEnded then "\n" else "") = if isEnded then "\n" else "" :=
    ByteText.ofUnicode_of_ascii (by cases isEnded <;> decide)
  have lineFeed : "\n".toList = ['\n'] := rfl
  have inEndif : "\n#endif".toList = '\n' :: "#endif".toList := rfl
  have inEnding : (if isEnded then "\n" else "").toList = if isEnded then ['\n'] else [] := by
    cases isEnded <;> rfl
  -- Stated for any lists, since the literals are slow to compare.
  have shape : ∀ front named line back ending : List Char,
      front ++ named ++ ['\n'] ++ line ++ '\n' :: back ++ ending =
        front ++ (named ++ ('\n' :: (line ++ ['\n']) ++ (back ++ ending))) := by
    simp
  simp only [guarded, ByteText.ofUnicode_append, ifdef, ofUnicode_lineFeed, endif, ending,
    String.toList_append]
  rw [lineFeed, inEndif, inEnding, shape]
  rfl

theorem IsTextLine.unspliced (isLine : IsTextLine text) : Unspliced (lineCharacters text) := by
  have unjoined := isLine.unjoined
  rw [ByteText.ofUnicode_append, ofUnicode_lineFeed, String.toList_append] at unjoined
  exact unjoined.cons (by decide)

/-- Between the directives, everything stands where it is written. -/
theorem IsTextLine.between_eq (isLine : IsTextLine text) :
    between text = tokensFrom 1 (lineCharacters text) := by
  have unspliced := isLine.unspliced
  rw [← toList_between] at unspliced ⊢
  exact tokenize_of_unspliced unspliced

theorem IsTextLine.count_lineFeed (isLine : IsTextLine text) :
    (lineCharacters text).count '\n' = 2 := by
  have oneLine : '\n' ∉ (ByteText.ofUnicode text).toList := by
    intro member
    rcases ByteText.mem_or_high_of_mem_ofUnicode member with inText | high
    · exact isLine.oneLine inText
    · exact absurd high (by decide)
  rw [lineCharacters, List.count_cons_self, List.count_append, List.count_eq_zero.mpr oneLine]
  rfl

theorem getLast?_lineCharacters (text : String) : (lineCharacters text).getLast? = some '\n' := by
  rw [lineCharacters, ← List.cons_append, List.getLast?_concat]

/-- Nothing in the header joins two of its lines. -/
theorem unspliced_guarded (isName : IsMacroName name) (isLine : IsTextLine text)
    (isEnded : Bool) : Unspliced (ByteText.ofUnicode (guarded name text isEnded)).toList := by
  have noBackslash : '\\' ∉ (ByteText.ofUnicode name).toList :=
    fun member => Bool.false_ne_true (isName.isNameChar _ member)
  have ends : Unspliced (endifCharacters isEnded) := by cases isEnded <;> decide +kernel
  have behind : Unspliced (lineCharacters text ++ endifCharacters isEnded) :=
    @Unspliced.append_lineFeed ('\n' :: (ByteText.ofUnicode text).toList) _ isLine.unspliced ends
  rw [toList_guarded]
  exact .append_of_backslash_notMem (by decide +kernel)
    (behind.append_of_backslash_notMem noBackslash)

theorem tokenize_guarded (isName : IsMacroName name) (isLine : IsTextLine text) (isEnded : Bool) :
    tokenize (ByteText.ofUnicode (guarded name text isEnded)) =
      ifdefLine (ByteText.ofUnicode name) ++
        (between text ++ (endifLine ++ closing isEnded)) := by
  have feeds : ∀ character ∈ (lineCharacters text).getLast?, character = '\n' := by
    rw [getLast?_lineCharacters]
    exact fun _ same => (Option.some.inj same).symm
  have apart := tokensFrom_append_of_isNewline feeds 1 (isLine.between_eq ▸ isLine.closed)
    (endifCharacters isEnded)
  rw [isLine.count_lineFeed, tokensFrom_endif, ← isLine.between_eq] at apart
  rcases isName.exists_toList_ofUnicode with ⟨first, others, written, start, inside⟩
  have named : ByteText.ofUnicode name = String.ofList (first :: others) := by
    rw [← written, String.ofList_toList]
  have atStart := tokensFrom_ifdef start inside
    ((ByteText.ofUnicode text).toList ++ ['\n'] ++ endifCharacters isEnded)
  rw [tokenize_of_unspliced (unspliced_guarded isName isLine isEnded), toList_guarded, written,
    named, ← apart]
  exact atStart

end Reading

/-! ## What a guarded line comes to -/

theorem clausesFrom_of_heading?_eq_none {tokens : List Token} (absent : heading? tokens = none)
    (lineStart : Bool) (pending : List Token) :
    clausesFrom lineStart pending tokens = clausesFrom false pending tokens := by
  cases tokens with
  | nil => rw [clausesFrom, clausesFrom]
  | cons token rest =>
      have nowhere : (if lineStart then heading? (token :: rest) else none) = none := by
        rw [absent, ite_self]
      rw [clausesFrom, clausesFrom]
      split
      · rename_i found
        cases nowhere.symm.trans found
      · rfl

/-- Behind the start of a line, all that is on it is text. -/
theorem clausesFrom_false_of_line (pending : List Token) {tokens : List Token}
    (inLine : ∀ token ∈ tokens.dropLast, token.isNewline = false) :
    clausesFrom false pending tokens = flush (pending ++ tokens) := by
  induction tokens generalizing pending with
  | nil => rw [clausesFrom, List.append_nil]
  | cons token rest ih =>
      have step : clausesFrom false pending (token :: rest) =
          clausesFrom token.isNewline (pending ++ [token]) rest := by
        rw [clausesFrom]
        rfl
      rw [step]
      cases rest with
      | nil => rw [clausesFrom]
      | cons next others =>
          rw [List.dropLast_cons_cons] at inLine
          rcases List.forall_mem_cons.mp inLine with ⟨goesOn, later⟩
          rw [goesOn, ih _ later, List.append_assoc, List.singleton_append]

section Processing

variable {name text : String}

theorem IsTextLine.exists_between_eq (isLine : IsTextLine text) :
    ∃ line, between text = ⟨.newline, 1, "\n"⟩ :: line ∧ heading? line = none ∧
      ∀ token ∈ line.dropLast, token.isNewline = false := by
  have shape := isLine.between_eq
  rw [lineCharacters, tokensFrom_lineFeed] at shape
  have plain := isLine.plain
  rw [shape, List.tail_cons] at plain
  have single := isLine.count_lineFeed
  rw [lineCharacters, List.count_cons_self] at single
  exact ⟨_, shape, plain, isNewline_of_mem_dropLast List.getLast?_concat (by omega) _⟩

theorem clauses_between (isLine : IsTextLine text) :
    clauses (between text) = [.text (between text)] := by
  rcases isLine.exists_between_eq with ⟨line, shape, absent, inLine⟩
  rw [shape]
  have begins : heading? (⟨.newline, 1, "\n"⟩ :: line) = none := rfl
  rw [clauses, clausesFrom_of_heading?_eq_none begins]
  have step : clausesFrom false [] (⟨.newline, 1, "\n"⟩ :: line) =
      clausesFrom true [⟨.newline, 1, "\n"⟩] line := by
    rw [clausesFrom]
    rfl
  rw [step, clausesFrom_of_heading?_eq_none absent, clausesFrom_false_of_line _ inLine]
  rfl

theorem heading?_ifdefLine (name : String) :
    heading? (ifdefLine name) = some ⟨1, .ifDefined true (askedName name), []⟩ := by
  have begins : heading? (ifdefLine name) = some ⟨1, .ofName "ifdef" (askedName name), []⟩ := rfl
  exact begins

theorem heading?_endifLine : heading? endifLine = some ⟨3, .endif, []⟩ := by
  have begins : heading? endifLine = some ⟨3, .ofName "endif" [], []⟩ := rfl
  exact begins

/-- The header as a document: a group with one branch, and what follows it. -/
def guardedGroup (name text : String) : Part :=
  .group 1 (.isDefined true (askedName (ByteText.ofUnicode name)))
    (.cons (.text (between text)) .empty) (.close 3)

def guardedDocument (name text : String) (isEnded : Bool) : Document :=
  .cons (guardedGroup name text)
    (if isEnded then .cons (.text (closing isEnded)) .empty else .empty)

theorem clauses_guarded (isName : IsMacroName name) (isLine : IsTextLine text) (isEnded : Bool) :
    clauses (tokenize (ByteText.ofUnicode (guarded name text isEnded))) =
      (guardedDocument name text isEnded).clauses := by
  have nothing : EndsWithNewline [] := fun _ never => nomatch never
  have beginsClosing : BeginsWithNewline (closing isEnded) := by cases isEnded <;> decide
  have begins : BeginsWithNewline (between text ++ (endifLine ++ closing isEnded)) := by
    rcases isLine.exists_between_eq with ⟨line, shape, _, _⟩
    rw [shape]
    exact beginsWithNewline_cons.mpr rfl
  have atStart : clauses [] = [] := by decide +kernel
  have atEnd : clauses (closing isEnded) = flush (closing isEnded) := by
    cases isEnded <;> decide +kernel
  have whole := clauses_append_heading nothing (heading?_ifdefLine (ByteText.ofUnicode name)) begins
  rw [List.nil_append, atStart,
    clauses_append_heading isLine.closed heading?_endifLine beginsClosing, atEnd,
    clauses_between isLine] at whole
  rw [tokenize_guarded isName isLine, whole]
  cases isEnded <;> rfl

theorem meaning_guardedGroup (file : String) (state : State) :
    (guardedGroup name text).meaning file state =
      .ok (if state.macros.contains (ByteText.ofUnicode name) then
        Macro.expand state.macros (between text) else []) state := by
  have asked : (Test.isDefined true (askedName (ByteText.ofUnicode name))).passes file 1 state =
      .ok (state.macros.contains (ByteText.ofUnicode name) == true) state := rfl
  rw [guardedGroup, Part.meaning, bind_of_ok asked]
  cases state.macros.contains (ByteText.ofUnicode name) with
  | false => rfl
  | true => exact congrArg (EStateM.Result.ok · state) (List.append_nil _)

theorem meaning_guardedDocument (file : String) (isEnded : Bool) (state : State) :
    (guardedDocument name text isEnded).meaning file state =
      .ok ((if state.macros.contains (ByteText.ofUnicode name) then
          Macro.expand state.macros (between text) else []) ++ closing isEnded) state := by
  rw [guardedDocument, Document.meaning, bind_of_ok (meaning_guardedGroup file state)]
  cases isEnded with
  | false => rfl
  | true =>
      have lineEnd : Macro.expand state.macros (closing true) = closing true :=
        Macro.expand_eq_self (by simp [closing, Token.isIdentifier])
      have behind : (Document.cons (.text (closing true)) .empty).meaning file state =
          .ok (Macro.expand state.macros (closing true) ++ []) state := rfl
      rw [if_pos rfl, bind_of_ok behind, lineEnd, List.append_nil]
      rfl

/-- The text between the directives counts if the table has the name in the form of header
text. -/
theorem preprocess_guarded (setup : Setup) (file : String) (state : State)
    (isName : IsMacroName name) (isLine : IsTextLine text) (isEnded : Bool) :
    preprocess setup file (Unicode.encode (guarded name text isEnded)) state =
      .ok ((if state.macros.contains (ByteText.ofUnicode name) then
          Macro.expand state.macros (between text) else []) ++ closing isEnded) state := by
  have read : ByteText.ofBytes (Unicode.encode (guarded name text isEnded)) =
      ByteText.ofUnicode (guarded name text isEnded) := rfl
  rw [preprocess, read, processNested_eq_processFile, processFile_eq_processClauses,
    clauses_guarded isName isLine, processClauses_document, meaning_guardedDocument]

end Processing

end Preprocess
end ObjectWrapper
