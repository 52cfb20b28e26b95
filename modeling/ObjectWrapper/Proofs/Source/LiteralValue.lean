import ObjectWrapper.Condition.Literal
import ObjectWrapper.Proofs.Source.Significant
import ObjectWrapper.Source.Segment

namespace ObjectWrapper
namespace Source
namespace Literal

/-!
# Values of string literals

What stands between the quotes of a string literal is read in pieces: a character, or an
escape with all the characters that belong to it.  An octal escape takes up to three
digits, and a hexadecimal one as many as there are.  An escape of another kind is left as
it is written.

Contents that are put one behind the other are read piece by piece as before, unless a
piece at the end of one goes on with digits of the next.  Then those digits lose their own
codes, and the value gets shorter.  That makes the condition necessary, too.
-/

/-! ## Pieces -/

/-- A character that stands for itself, a backslash and one character, or a number with
the room there is for further digits. -/
inductive Piece where
  | plain (character : Char)
  | escaped (character : Char)
  | number (base : Nat) (room? : Option Nat) (digits : List Char)
deriving DecidableEq, Repr

/-- The character that a backslash and another one stand for. -/
def simpleEscape? : Char -> Option Char
  | 'n' => some '\n'
  | 't' => some '\t'
  | 'r' => some '\r'
  | 'a' => some '\x07'
  | 'b' => some '\x08'
  | 'f' => some '\x0c'
  | 'v' => some '\x0b'
  | '\\' => some '\\'
  | '\'' => some '\''
  | '"' => some '"'
  | '?' => some '?'
  | _ => none

def isDigitOf (base : Nat) (character : Char) : Bool :=
  (Condition.digit? base character).isSome

namespace Piece

/-- The codes that a piece has in the value of a literal. -/
def codes : Piece -> List Nat
  | plain character => [character.toNat]
  | escaped character =>
    match simpleEscape? character with
    | some meant => [meant.toNat]
    | none => ['\\'.toNat, character.toNat]
  | number _ _ [] => ['\\'.toNat, 'x'.toNat]
  | number base _ digits => [(Condition.digits? base 0 digits).getD 0]

/-- Whether a character behind the piece would be part of it. -/
def absorbs : Piece -> Char -> Bool
  | number base room? _, character => room? != some 0 && isDigitOf base character
  | _, _ => false

end Piece

/-- The digits that a text begins with, as far as there is room for them. -/
def digitTail (base : Nat) (room? : Option Nat) : List Char -> Cut
  | [] => ⟨[], []⟩
  | character :: rest =>
    if room? != some 0 && isDigitOf base character then
      (digitTail base (room?.map (· - 1)) rest).after [character]
    else ⟨[], character :: rest⟩

/-- The first piece of the text `first :: rest` and what is left after it. -/
def readPiece (first : Char) (rest : List Char) : Piece × List Char :=
  match first, rest with
  | '\\', 'x' :: more =>
    (.number 16 none (digitTail 16 none more).taken, (digitTail 16 none more).left)
  | '\\', character :: more =>
    if isDigitOf 8 character then
      (.number 8 (some (2 - (digitTail 8 (some 2) more).taken.length))
        (character :: (digitTail 8 (some 2) more).taken), (digitTail 8 (some 2) more).left)
    else (.escaped character, more)
  | character, _ => (.plain character, rest)

theorem digitTail_whole (base : Nat) (room? : Option Nat) (text : List Char) :
    (digitTail base room? text).whole = text := by
  induction text generalizing room? with
  | nil => rfl
  | cons character rest ih =>
      rw [digitTail]
      split
      · rw [Cut.whole_after, ih, List.singleton_append]
      · rfl

theorem digitTail_left_length (base : Nat) (room? : Option Nat) (text : List Char) :
    (digitTail base room? text).left.length ≤ text.length := by
  have whole := congrArg List.length (digitTail_whole base room? text)
  rw [Cut.whole, List.length_append] at whole
  omega

theorem readPiece_left_length (first : Char) (rest : List Char) :
    (readPiece first rest).2.length < (first :: rest).length := by
  unfold readPiece
  split
  · rename_i more
    have left := digitTail_left_length 16 none more
    simp only [List.length_cons]
    omega
  · rename_i character more _
    have left := digitTail_left_length 8 (some 2) more
    split
    · simp only [List.length_cons]
      omega
    · simp only [List.length_cons]
      omega
  · exact Nat.lt_succ_self _

/-- The pieces of the content of a literal. -/
def pieces : List Char -> List Piece
  | [] => []
  | first :: rest => (readPiece first rest).1 :: pieces (readPiece first rest).2
termination_by text => text.length
decreasing_by exact readPiece_left_length first rest

/-- The value of a literal with the given content. -/
def value (content : List Char) : List Nat :=
  (pieces content).flatMap Piece.codes

/-- The last piece of a content goes on with the first character of what comes next. -/
def Fuses (content next : List Char) : Prop :=
  ∃ piece ∈ (pieces content).getLast?, ∃ character ∈ next.head?, piece.absorbs character = true

instance (content next : List Char) : Decidable (Fuses content next) :=
  decidable_of_iff
    (((pieces content).getLast?.any fun piece => next.head?.any piece.absorbs) = true)
    (by simp [Fuses, Option.any_eq_true])

/-! ## Digits in front of more text -/

theorem isDigitOf_of_mem_taken {base : Nat} {room? : Option Nat} {text : List Char}
    {character : Char} (member : character ∈ (digitTail base room? text).taken) :
    isDigitOf base character = true := by
  induction text generalizing room? with
  | nil => cases member
  | cons first rest ih =>
      rw [digitTail] at member
      split at member
      · rename_i isDigit
        rw [Bool.and_eq_true] at isDigit
        rcases List.mem_cons.mp member with rfl | later
        · exact isDigit.2
        · exact ih later
      · cases member

theorem digitTail_taken_of_left_eq_nil {base : Nat} {room? : Option Nat} {text : List Char}
    (allTaken : (digitTail base room? text).left = []) :
    (digitTail base room? text).taken = text := by
  have whole := digitTail_whole base room? text
  rwa [Cut.whole, allTaken, List.append_nil] at whole

/-- Digits that end before the text does end there, whatever follows the text. -/
theorem digitTail_append_of_left_ne_nil {base : Nat} {room? : Option Nat} {text : List Char}
    (ends : (digitTail base room? text).left ≠ []) (more : List Char) :
    digitTail base room? (text ++ more) =
      ⟨(digitTail base room? text).taken, (digitTail base room? text).left ++ more⟩ := by
  induction text generalizing room? with
  | nil => exact absurd rfl ends
  | cons character rest ih =>
      rw [digitTail] at ends
      rw [List.cons_append, digitTail, digitTail]
      split
      · rename_i isDigit
        rw [if_pos isDigit] at ends
        rw [ih ends]
        rfl
      · rfl

/-- Where all of a text are digits, they go on behind it as far as there is room. -/
theorem digitTail_append_of_left_eq_nil {base : Nat} {room? : Option Nat} {text : List Char}
    (allTaken : (digitTail base room? text).left = []) (more : List Char) :
    digitTail base room? (text ++ more) =
      (digitTail base (room?.map (· - text.length)) more).after text := by
  induction text generalizing room? with
  | nil => cases room? <;> rfl
  | cons character rest ih =>
      rw [digitTail] at allTaken
      rw [List.cons_append, digitTail]
      split
      · rename_i isDigit
        rw [if_pos isDigit] at allTaken
        have room : (room?.map (· - 1)).map (· - rest.length) =
            room?.map (· - (character :: rest).length) := by
          rw [Option.map_map]
          congr 1
          funext room
          simp only [Function.comp_apply, List.length_cons]
          omega
        rw [ih allTaken, room]
        rfl
      · rename_i noDigit
        rw [if_neg noDigit] at allTaken
        cases allTaken

theorem digitTail_of_not_head {base : Nat} {room? : Option Nat} {text : List Char}
    (apart : ∀ character ∈ text.head?, (room? != some 0 && isDigitOf base character) = false) :
    digitTail base room? text = ⟨[], text⟩ := by
  cases text with
  | nil => rfl
  | cons character rest => rw [digitTail, apart character rfl, if_neg Bool.false_ne_true]

/-! ## Pieces in front of more text -/

theorem readPiece_of_ne {first : Char} (noBackslash : first ≠ '\\') (rest : List Char) :
    readPiece first rest = (.plain first, rest) := by
  unfold readPiece
  split
  · exact absurd rfl noBackslash
  · exact absurd rfl noBackslash
  · rfl

theorem readPiece_number (more : List Char) :
    readPiece '\\' ('x' :: more) =
      (.number 16 none (digitTail 16 none more).taken, (digitTail 16 none more).left) :=
  rfl

theorem readPiece_escape {character : Char} (noNumber : character ≠ 'x') (more : List Char) :
    readPiece '\\' (character :: more) =
      if isDigitOf 8 character then
        (.number 8 (some (2 - (digitTail 8 (some 2) more).taken.length))
          (character :: (digitTail 8 (some 2) more).taken), (digitTail 8 (some 2) more).left)
      else (.escaped character, more) := by
  rw [readPiece.eq_def]
  split
  · rename_i equal
    exact absurd (List.cons.inj equal).1 noNumber
  · rename_i other rest _ equal
    cases equal
    rfl
  · rename_i notEscape
    exact absurd rfl (notEscape character more rfl)

/-- A piece that does not go on with what follows the text is read as before. -/
theorem readPiece_append {first : Char} {rest more : List Char}
    (filled : fillsQuotes '"' (first :: rest) = true)
    (apart : (readPiece first rest).2 = [] -> ∀ character ∈ more.head?,
      (readPiece first rest).1.absorbs character = false) :
    readPiece first (rest ++ more) =
      ((readPiece first rest).1, (readPiece first rest).2 ++ more) := by
  have digits : ∀ base room? text,
      ((digitTail base room? text).left = [] -> ∀ character ∈ more.head?,
        (room?.map (· - text.length) != some 0 && isDigitOf base character) = false) ->
      digitTail base room? (text ++ more) =
        ⟨(digitTail base room? text).taken, (digitTail base room? text).left ++ more⟩ := by
    intro base room? text ends
    by_cases allTaken : (digitTail base room? text).left = []
    · rw [digitTail_append_of_left_eq_nil allTaken, digitTail_of_not_head (ends allTaken),
        digitTail_taken_of_left_eq_nil allTaken, allTaken]
      simp [Cut.after]
    · exact digitTail_append_of_left_ne_nil allTaken more
  by_cases backslash : first = '\\'
  · subst first
    cases rest with
    | nil => cases filled
    | cons character rest =>
        by_cases numeric : character = 'x'
        · subst character
          rw [readPiece_number] at apart ⊢
          rw [List.cons_append, readPiece_number, digits 16 none rest apart]
        · rw [readPiece_escape numeric] at apart ⊢
          rw [List.cons_append, readPiece_escape numeric]
          split
          · rename_i octal
            rw [if_pos octal] at apart
            rw [digits 8 (some 2) rest ?_]
            intro allTaken other head
            have kept := apart allTaken other head
            rwa [Piece.absorbs, digitTail_taken_of_left_eq_nil allTaken] at kept
          · rfl
  · rw [readPiece_of_ne backslash, readPiece_of_ne backslash]

theorem not_isDigitOf_backslash (base : Nat) : isDigitOf base '\\' = false :=
  rfl

theorem exists_digitTail_append_of_absorbs {base : Nat} {room? : Option Nat} {text : List Char}
    (allTaken : (digitTail base room? text).left = []) {character : Char}
    (absorbs : (room?.map (· - text.length) != some 0 && isDigitOf base character) = true)
    (behind : List Char) :
    ∃ digits left, digitTail base room? (text ++ character :: behind) = ⟨text ++ digits, left⟩ ∧
      character :: behind = digits ++ left ∧ digits ≠ [] ∧ '\\' ∉ digits := by
  have onward := digitTail_append_of_left_eq_nil allTaken (character :: behind)
  generalize further : digitTail base (room?.map (· - text.length)) (character :: behind) = cut
    at onward
  refine ⟨cut.taken, cut.left, onward, ?_, ?_, ?_⟩
  · rw [← further]
    exact (digitTail_whole _ _ _).symm
  · rw [← further, digitTail, if_pos absorbs]
    exact List.cons_ne_nil _ _
  · intro member
    rw [← further] at member
    have digit := isDigitOf_of_mem_taken member
    rw [not_isDigitOf_backslash] at digit
    cases digit

/-- A piece that goes on with what follows the text takes digits away from there. -/
theorem exists_readPiece_append_of_absorbs {first : Char} {rest : List Char}
    (ends : (readPiece first rest).2 = []) {character : Char}
    (absorbs : (readPiece first rest).1.absorbs character = true) (behind : List Char) :
    ∃ piece digits left, readPiece first (rest ++ character :: behind) = (piece, left) ∧
      piece.codes.length = 1 ∧ character :: behind = digits ++ left ∧ digits ≠ [] ∧
      '\\' ∉ digits := by
  by_cases backslash : first = '\\'
  · subst first
    cases rest with
    | nil => cases absorbs
    | cons letter rest =>
        by_cases numeric : letter = 'x'
        · subst letter
          rw [readPiece_number] at ends absorbs
          rcases exists_digitTail_append_of_absorbs ends absorbs behind with
            ⟨digits, left, taken, parts, nonempty, plain⟩
          refine ⟨.number 16 none (rest ++ digits), digits, left, ?_, ?_, parts, nonempty, plain⟩
          · rw [List.cons_append, readPiece_number, taken]
          · rw [Piece.codes]
            · rfl
            · intro none
              exact nonempty (List.append_eq_nil_iff.mp none).2
        · rw [readPiece_escape numeric] at ends absorbs
          split at absorbs
          · rename_i octal
            rw [if_pos octal] at ends
            rw [Piece.absorbs, digitTail_taken_of_left_eq_nil ends] at absorbs
            rcases exists_digitTail_append_of_absorbs ends absorbs behind with
              ⟨digits, left, taken, parts, nonempty, plain⟩
            refine ⟨.number 8 (some (2 - (rest ++ digits).length)) (letter :: (rest ++ digits)),
              digits, left, ?_, rfl, parts, nonempty, plain⟩
            rw [List.cons_append, readPiece_escape numeric, if_pos octal, taken]
          · cases absorbs
  · rw [readPiece_of_ne backslash] at absorbs
    cases absorbs

/-! ## Values of contents put together -/

theorem value_nil : value [] = [] := by
  rw [value, pieces]
  rfl

theorem value_cons (first : Char) (rest : List Char) :
    value (first :: rest) = (readPiece first rest).1.codes ++ value (readPiece first rest).2 := by
  rw [value, pieces, List.flatMap_cons]
  rfl

theorem Piece.codes_ne_nil (piece : Piece) : piece.codes ≠ [] := by
  cases piece with
  | plain character => exact List.cons_ne_nil _ _
  | escaped character =>
      rw [codes]
      split <;> exact List.cons_ne_nil _ _
  | number base room? digits => cases digits <;> exact List.cons_ne_nil _ _

theorem value_append_of_plain {digits : List Char} (plain : '\\' ∉ digits) (left : List Char) :
    value (digits ++ left) = digits.map Char.toNat ++ value left := by
  induction digits with
  | nil => rfl
  | cons first rest ih =>
      rw [List.mem_cons, not_or] at plain
      rw [List.cons_append, value_cons, readPiece_of_ne (Ne.symm plain.1), ih plain.2]
      rfl

/-- The last piece is the first one where nothing is left behind that. -/
theorem fuses_cons_iff (first : Char) (rest next : List Char) :
    Fuses (first :: rest) next ↔
      if (readPiece first rest).2 = [] then
        ∃ character ∈ next.head?, (readPiece first rest).1.absorbs character = true
      else Fuses (readPiece first rest).2 next := by
  rw [Fuses, pieces]
  cases behind : (readPiece first rest).2 with
  | nil =>
      rw [pieces, if_pos rfl]
      simp
  | cons other more =>
      rw [if_neg (List.cons_ne_nil _ _), Fuses, pieces, List.getLast?_cons_cons]

theorem fillsQuotes_left_digitTail {base : Nat} {room? : Option Nat} {text : List Char}
    (filled : fillsQuotes '"' text = true) :
    fillsQuotes '"' (digitTail base room? text).left = true := by
  induction text generalizing room? with
  | nil => rfl
  | cons character rest ih =>
      rw [digitTail]
      split
      · rename_i isDigit
        have noBackslash : character ≠ '\\' := by
          rintro rfl
          rw [not_isDigitOf_backslash, Bool.and_false] at isDigit
          cases isDigit
        rw [fillsQuotes, Bool.and_eq_true] at filled
        · exact ih filled.2
        · intro escaped more backslash
          exact absurd backslash noBackslash
      · exact filled

theorem fillsQuotes_left_readPiece {first : Char} {rest : List Char}
    (filled : fillsQuotes '"' (first :: rest) = true) :
    fillsQuotes '"' (readPiece first rest).2 = true := by
  by_cases backslash : first = '\\'
  · subst first
    cases rest with
    | nil => cases filled
    | cons character rest =>
        rw [fillsQuotes, Bool.and_eq_true] at filled
        by_cases numeric : character = 'x'
        · subst character
          exact fillsQuotes_left_digitTail filled.2
        · rw [readPiece_escape numeric]
          split
          · exact fillsQuotes_left_digitTail filled.2
          · exact filled.2
  · rw [fillsQuotes, Bool.and_eq_true] at filled
    · rw [readPiece_of_ne backslash]
      exact filled.2
    · intro escaped more equal
      exact absurd equal backslash

/-- Contents that do not fuse keep their values. -/
theorem value_append_of_not_fuses {content : List Char} (filled : fillsQuotes '"' content = true)
    {next : List Char} (apart : ¬ Fuses content next) :
    value (content ++ next) = value content ++ value next := by
  fun_induction pieces content with
  | case1 => rw [value_nil, List.nil_append, List.nil_append]
  | case2 first rest ih =>
      rw [fuses_cons_iff] at apart
      have kept : readPiece first (rest ++ next) =
          ((readPiece first rest).1, (readPiece first rest).2 ++ next) := by
        apply readPiece_append filled
        intro ends character head
        rw [if_pos ends] at apart
        exact Bool.eq_false_iff.mpr fun absorbs => apart ⟨character, head, absorbs⟩
      have later : value ((readPiece first rest).2 ++ next) =
          value (readPiece first rest).2 ++ value next := by
        by_cases ends : (readPiece first rest).2 = []
        · rw [ends, value_nil, List.nil_append, List.nil_append]
        · rw [if_neg ends] at apart
          exact ih (fillsQuotes_left_readPiece filled) apart
      rw [List.cons_append, value_cons, value_cons, kept, later, List.append_assoc]

/-- Where contents fuse, the value is shorter than both values together. -/
theorem length_value_append_lt {content : List Char} (filled : fillsQuotes '"' content = true)
    {next : List Char} (fuses : Fuses content next) :
    (value (content ++ next)).length < (value content).length + (value next).length := by
  fun_induction pieces content with
  | case1 =>
      rcases fuses with ⟨piece, last, _⟩
      rw [pieces] at last
      cases last
  | case2 first rest ih =>
      rw [fuses_cons_iff] at fuses
      rw [List.cons_append, value_cons, value_cons]
      by_cases ends : (readPiece first rest).2 = []
      · rw [if_pos ends] at fuses
        rcases fuses with ⟨character, head, absorbs⟩
        rcases List.head?_eq_some_iff.mp head with ⟨behind, rfl⟩
        rcases exists_readPiece_append_of_absorbs ends absorbs behind with
          ⟨piece, digits, left, read, single, parts, nonempty, plain⟩
        have codes := List.length_pos_iff.mpr (readPiece first rest).1.codes_ne_nil
        have lost := List.length_pos_iff.mpr nonempty
        rw [read, parts, value_append_of_plain plain]
        simp only [List.length_append, List.length_map, single]
        omega
      · rw [if_neg ends] at fuses
        have kept : readPiece first (rest ++ next) =
            ((readPiece first rest).1, (readPiece first rest).2 ++ next) :=
          readPiece_append filled fun none => absurd none ends
        have shorter := ih (fillsQuotes_left_readPiece filled) fuses
        rw [kept]
        simp only [List.length_append]
        omega

/-! ## Many contents -/

/-- Each content is followed by something that it does not go on with. -/
def SeamsHold : List (List Char) -> Prop
  | [] => True
  | content :: rest => ¬ Fuses content rest.flatten ∧ SeamsHold rest

def SeamsHold.decide : (contents : List (List Char)) -> Decidable (SeamsHold contents)
  | [] => isTrue trivial
  | content :: rest =>
    have := SeamsHold.decide rest
    inferInstanceAs (Decidable (¬ Fuses content rest.flatten ∧ SeamsHold rest))

instance : DecidablePred SeamsHold :=
  SeamsHold.decide

theorem length_value_flatten_le {contents : List (List Char)}
    (filled : ∀ content ∈ contents, fillsQuotes '"' content = true) :
    (value contents.flatten).length ≤ (contents.flatMap value).length := by
  induction contents with
  | nil =>
      rw [List.flatten_nil, value_nil]
      exact Nat.zero_le _
  | cons content rest ih =>
      rcases List.forall_mem_cons.mp filled with ⟨here, later⟩
      have shorter := ih later
      rw [List.flatten_cons, List.flatMap_cons, List.length_append]
      by_cases fuses : Fuses content rest.flatten
      · have lost := length_value_append_lt here fuses
        omega
      · rw [value_append_of_not_fuses here fuses, List.length_append]
        omega

/-- The values of contents are the value of all of them together exactly if no content
goes on with the next. -/
theorem value_flatten_eq_flatMap_iff {contents : List (List Char)}
    (filled : ∀ content ∈ contents, fillsQuotes '"' content = true) :
    value contents.flatten = contents.flatMap value ↔ SeamsHold contents := by
  induction contents with
  | nil =>
      rw [List.flatten_nil, value_nil, List.flatMap_nil]
      exact iff_of_true rfl trivial
  | cons content rest ih =>
      rcases List.forall_mem_cons.mp filled with ⟨here, later⟩
      rw [List.flatten_cons, List.flatMap_cons, SeamsHold, ← ih later]
      by_cases fuses : Fuses content rest.flatten
      · refine iff_of_false ?_ (fun both => both.1 fuses)
        intro same
        have lost := length_value_append_lt here fuses
        have shorter := length_value_flatten_le later
        rw [same, List.length_append] at lost
        omega
      · rw [value_append_of_not_fuses here fuses, List.append_cancel_left_eq]
        exact (and_iff_right fuses).symm

end Literal
end Source
end ObjectWrapper
