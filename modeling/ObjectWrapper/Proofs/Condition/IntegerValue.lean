import ObjectWrapper.Proofs.Condition.Derivation
import ObjectWrapper.Proofs.Source.Neighbours

namespace ObjectWrapper
namespace Condition

open Source

/-!
# Values of integers

An integer is written in one of four bases, with quotes between its digits and letters
behind them.  What is written is described here from the number outwards: each digit makes
the number greater, and a quote only goes with the digit after it.

Such a text is one token, and its value is the number, as long as 64 bits can hold it.  The
reader is given nothing but the text, so the base, the quotes and the suffix have to be
found again.  The second character tells the base, since no digit up to nine is the mark of
one, and the last digit ends the suffix, since no digit is a letter of one.
-/

/-! ## Digits and numerals -/

/-- The digits of all bases, by their values. -/
def lowerDigits : List Char :=
  ['0', '1', '2', '3', '4', '5', '6', '7', '8', '9', 'a', 'b', 'c', 'd', 'e', 'f']

/-- The same digits with capital letters. -/
def capitalDigits : List Char :=
  ['0', '1', '2', '3', '4', '5', '6', '7', '8', '9', 'A', 'B', 'C', 'D', 'E', 'F']

/-- The character is the digit of the given value. -/
structure IsDigit (base value : Nat) (character : Char) : Prop where
  below : value < base
  written : character ∈ lowerDigits[value]? ∨ character ∈ capitalDigits[value]?

/-- The text consists of the digits of the number, with at most one quote between any two
of them. -/
inductive Numeral (base : Nat) : Nat -> List Char -> Prop where
  | digit {value : Nat} {character : Char} :
    IsDigit base value character -> Numeral base value [character]
  | next {number value : Nat} {text : List Char} {character : Char} :
    Numeral base number text -> IsDigit base value character ->
      Numeral base (number * base + value) (text ++ [character])
  | separated {number value : Nat} {text : List Char} {character : Char} :
    Numeral base number text -> IsDigit base value character ->
      Numeral base (number * base + value) (text ++ ['\'', character])

/-- The text is the integer without a suffix.  In decimal no zero stands in front; the other
bases allow any number of them. -/
inductive WritesInteger (number : Nat) : List Char -> Prop where
  | decimal {text : List Char} :
    Numeral 10 number text -> (text.head? = some '0' -> text = ['0']) -> WritesInteger number text
  | hexadecimal {mark : Char} {text : List Char} :
    mark ∈ ['x', 'X'] -> Numeral 16 number text -> WritesInteger number ('0' :: mark :: text)
  | octal {text : List Char} :
    Numeral 8 number ('0' :: text) -> WritesInteger number ('0' :: text)
  | binary {mark : Char} {text : List Char} :
    mark ∈ ['b', 'B'] -> Numeral 2 number text -> WritesInteger number ('0' :: mark :: text)

/-! ## Digits -/

section Digits

variable {base value : Nat} {character : Char}

/-- A fact about every digit is one about the listed characters. -/
theorem IsDigit.of_listed (fact : Nat -> Char -> Bool) (isDigit : IsDigit base value character)
    (listed : ∀ value < base, lowerDigits[value]?.all (fact value) = true ∧
      capitalDigits[value]?.all (fact value) = true) : fact value character = true :=
  isDigit.written.elim ((Option.all_eq_true _ _).mp (listed value isDigit.below).1 character)
    ((Option.all_eq_true _ _).mp (listed value isDigit.below).2 character)

theorem IsDigit.mono {larger : Nat} (isDigit : IsDigit base value character)
    (le : base ≤ larger) : IsDigit larger value character :=
  ⟨Nat.lt_of_lt_of_le isDigit.below le, isDigit.written⟩

/-- A digit belongs to a number and is neither a sign nor a quote nor part of a suffix. -/
theorem IsDigit.plain (isDigit : IsDigit base value character) (atMost : base ≤ 16) :
    character.isAlphanum = true ∧ character ≠ '+' ∧ character ≠ '\'' ∧
      isIntegerSuffix character = false :=
  of_decide_eq_true ((isDigit.mono atMost).of_listed
    (fun _ character => decide (character.isAlphanum = true ∧ character ≠ '+' ∧
      character ≠ '\'' ∧ isIntegerSuffix character = false))
    (by decide))

/-- Up to ten, the digits are no letters, and so none of them is the mark of a base. -/
theorem IsDigit.isDigit (isDigit : IsDigit base value character) (atMost : base ≤ 10) :
    character.isDigit = true :=
  (isDigit.mono atMost).of_listed (fun _ character => character.isDigit) (by decide)

theorem IsDigit.digit?_eq (isDigit : IsDigit base value character) (atMost : base ≤ 16) :
    digit? base character = some value := by
  have widest : digit? 16 character = some value :=
    of_decide_eq_true ((isDigit.mono atMost).of_listed
      (fun value character => decide (digit? 16 character = some value)) (by decide))
  rw [digit?, Option.filter_eq_some_iff] at widest ⊢
  exact ⟨widest.1, decide_eq_true isDigit.below⟩

end Digits

/-! ## Numerals -/

theorem digits?_concat (base value : Nat) (text : List Char) (character : Char) :
    digits? base value (text ++ [character]) =
      (digits? base value text).bind fun number =>
        (digit? base character).map (number * base + ·) := by
  induction text generalizing value with
  | nil =>
      rw [List.nil_append, digits?, digits?, Option.bind_some]
      cases digit? base character <;> rfl
  | cons first rest ih =>
      rw [List.cons_append, digits?, digits?]
      cases digit? base first with
      | none => rfl
      | some digit => exact ih _

theorem numeral?_of_ne_plus {first : Char} (noSign : first ≠ '+') (base : Nat) (rest : List Char) :
    numeral? base (first :: rest) = digits? base 0 (first :: rest) := by
  simp [numeral?, noSign]

theorem continuesNumber_of_isAlphanum {previous character : Char}
    (isPart : character.isAlphanum = true) : continuesNumber previous character = true := by
  apply continuesNumber_of_isPart
  rw [isPart, Bool.true_or, Bool.true_or]

theorem numberTail_of_isAlphanum {text : List Char}
    (parts : ∀ character ∈ text, character.isAlphanum = true) (previous : Char) :
    numberTail previous text = ⟨text, []⟩ := by
  induction text generalizing previous with
  | nil => rfl
  | cons character rest ih =>
      rcases List.forall_mem_cons.mp parts with ⟨isPart, later⟩
      rw [numberTail_cons_of_continues (continuesNumber_of_isAlphanum isPart), ih later]
      rfl

section Numerals

variable {base number : Nat} {text : List Char}

/-- The value of the digits is the number, wherever the quotes are. -/
theorem Numeral.digits?_filter (numeral : Numeral base number text) (atMost : base ≤ 16) :
    digits? base 0 (text.filter (· != '\'')) = some number := by
  have alone : ∀ {value character}, IsDigit base value character ->
      [character].filter (· != '\'') = [character] := by
    intro value character isDigit
    exact List.filter_eq_self.mpr (by simpa using (isDigit.plain atMost).2.2.1)
  induction numeral with
  | digit isDigit =>
      rw [alone isDigit, digits?, isDigit.digit?_eq atMost]
      simp [digits?]
  | next front isDigit ih =>
      rw [List.filter_append, alone isDigit, digits?_concat, ih, isDigit.digit?_eq atMost]
      rfl
  | separated front isDigit ih =>
      rw [List.filter_append, List.filter_cons_of_neg (by decide), alone isDigit, digits?_concat,
        ih, isDigit.digit?_eq atMost]
      rfl

/-- A numeral is read to its end as part of a number. -/
theorem Numeral.numberTail_eq (numeral : Numeral base number text) (atMost : base ≤ 16)
    (previous : Char) : numberTail previous text = ⟨text, []⟩ := by
  induction numeral with
  | digit isDigit =>
      exact numberTail_of_isAlphanum (by simpa using (isDigit.plain atMost).1) previous
  | next front isDigit ih =>
      rw [numberTail_append ih, numberTail_of_isAlphanum (by simpa using (isDigit.plain atMost).1)]
      rfl
  | separated front isDigit ih =>
      rw [numberTail_append ih, numberTail_separator (isDigit.plain atMost).1]
      rfl

theorem Numeral.exists_cons (numeral : Numeral base number text) :
    ∃ value first others, text = first :: others ∧ IsDigit base value first := by
  induction numeral with
  | digit isDigit => exact ⟨_, _, [], rfl, isDigit⟩
  | next front isDigit ih =>
      rcases ih with ⟨value, first, others, rfl, leading⟩
      exact ⟨value, first, others ++ _, rfl, leading⟩
  | separated front isDigit ih =>
      rcases ih with ⟨value, first, others, rfl, leading⟩
      exact ⟨value, first, others ++ _, rfl, leading⟩

theorem Numeral.exists_concat (numeral : Numeral base number text) :
    ∃ value front last, text = front ++ [last] ∧ IsDigit base value last := by
  cases numeral with
  | digit isDigit => exact ⟨_, [], _, rfl, isDigit⟩
  | next front isDigit => exact ⟨_, _, _, rfl, isDigit⟩
  | separated front isDigit => exact ⟨_, _, _, (List.append_assoc _ ['\''] [_]).symm, isDigit⟩

theorem Numeral.isDigit_of_mem (numeral : Numeral base number text) {character : Char}
    (member : character ∈ text) (noQuote : character ≠ '\'') :
    ∃ value, IsDigit base value character := by
  induction numeral with
  | digit isDigit => exact ⟨_, List.mem_singleton.mp member ▸ isDigit⟩
  | next front isDigit ih =>
      rcases List.mem_append.mp member with before | last
      · exact ih before
      · exact ⟨_, List.mem_singleton.mp last ▸ isDigit⟩
  | separated front isDigit ih =>
      rcases List.mem_append.mp member with before | last
      · exact ih before
      · rcases List.mem_cons.mp last with quote | last
        · exact absurd quote noQuote
        · exact ⟨_, List.mem_singleton.mp last ▸ isDigit⟩

/-- Where nothing but the numeral is left, its value is the number. -/
theorem Numeral.numeral?_filter (numeral : Numeral base number text) (atMost : base ≤ 16) :
    numeral? base (text.filter (· != '\'')) = some number := by
  have value := numeral.digits?_filter atMost
  rcases numeral.exists_cons with ⟨_, first, others, rfl, leading⟩
  rcases leading.plain atMost with ⟨_, noSign, noQuote, _⟩
  rw [List.filter_cons, if_pos (bne_iff_ne.mpr noQuote)] at value ⊢
  rw [numeral?_of_ne_plus noSign]
  exact value

/-- Behind the first digit of a numeral the rest of it is read. -/
theorem Numeral.numberTail_others {first : Char} {others : List Char}
    (numeral : Numeral base number (first :: others)) (atMost : base ≤ 16) :
    numberTail first others = ⟨others, []⟩ := by
  have whole := numeral.numberTail_eq atMost ' '
  rcases numeral.exists_cons with ⟨_, _, _, same, leading⟩
  cases same
  have isPart := (leading.plain atMost).1
  rw [numberTail_cons_of_continues (continuesNumber_of_isAlphanum isPart)] at whole
  exact Cut.after_eq_iff.mp whole

end Numerals

/-! ## Integers without their suffixes -/

/-- What is cut off at the end of a text ends before the last character of another class. -/
theorem reverse_dropWhile_append {cutOff : Char -> Bool} {front suffix : List Char} {last : Char}
    (ends : cutOff last = false) (inside : ∀ character ∈ suffix, cutOff character = true) :
    ((front ++ [last] ++ suffix).reverse.dropWhile cutOff).reverse = front ++ [last] := by
  have reversed : ∀ character ∈ suffix.reverse, cutOff character = true :=
    fun character member => inside character (List.mem_reverse.mp member)
  rw [List.reverse_append, List.dropWhile_append_of_pos reversed, List.reverse_concat,
    List.dropWhile_cons_of_neg (by simp [ends]), List.reverse_cons, List.reverse_reverse]

section Written

variable {number : Nat} {text : List Char}

/-- An integer begins with a decimal digit and is read to its end as a number. -/
theorem WritesInteger.exists_numberTail (written : WritesInteger number text) :
    ∃ value first others, text = first :: others ∧ IsDigit 10 value first ∧
      numberTail first others = ⟨others, []⟩ := by
  have zero : IsDigit 10 0 '0' := ⟨by decide, by decide⟩
  have marked : ∀ {marks : List Char} {mark text}, mark ∈ marks ->
      marks.all Char.isAlphanum = true -> numberTail mark text = ⟨text, []⟩ ->
        numberTail '0' (mark :: text) = ⟨mark :: text, []⟩ := by
    intro marks mark text isMark areParts read
    have isPart := List.all_eq_true.mp areParts mark isMark
    rw [numberTail_cons_of_continues (continuesNumber_of_isAlphanum isPart), read]
    rfl
  cases written with
  | decimal numeral =>
      rcases numeral.exists_cons with ⟨value, first, others, rfl, leading⟩
      exact ⟨value, first, others, rfl, leading, numeral.numberTail_others (by decide)⟩
  | hexadecimal isMark numeral =>
      refine ⟨0, '0', _, rfl, zero, marked isMark (by decide) ?_⟩
      exact numeral.numberTail_eq (by decide) _
  | octal numeral => exact ⟨0, '0', _, rfl, zero, numeral.numberTail_others (by decide)⟩
  | binary isMark numeral =>
      refine ⟨0, '0', _, rfl, zero, marked isMark (by decide) ?_⟩
      exact numeral.numberTail_eq (by decide) _

/-- Its last character is no part of a suffix. -/
theorem WritesInteger.exists_concat (written : WritesInteger number text) :
    ∃ front last, text = front ++ [last] ∧ isIntegerSuffix last = false := by
  have ends : ∀ {base text}, Numeral base number text -> base ≤ 16 -> ∀ before,
      ∃ front last, before ++ text = front ++ [last] ∧ isIntegerSuffix last = false := by
    intro base text numeral atMost before
    rcases numeral.exists_concat with ⟨_, front, last, rfl, isDigit⟩
    exact ⟨before ++ front, last, (List.append_assoc ..).symm, (isDigit.plain atMost).2.2.2⟩
  cases written with
  | decimal numeral => exact ends numeral (by decide) []
  | hexadecimal _ numeral => exact ends numeral (by decide) ['0', _]
  | octal numeral => exact ends numeral (by decide) []
  | binary _ numeral => exact ends numeral (by decide) ['0', _]

theorem WritesInteger.unsuffixed {suffix : List Char} (written : WritesInteger number text)
    (letters : ∀ character ∈ suffix, isIntegerSuffix character = true) :
    ((text ++ suffix).reverse.dropWhile isIntegerSuffix).reverse = text := by
  rcases written.exists_concat with ⟨front, last, rfl, noLetter⟩
  exact reverse_dropWhile_append noLetter letters

/-- The base is found again by the first two characters, and the number by the digits. -/
theorem WritesInteger.natural?_eq {suffix : List Char} (written : WritesInteger number text)
    (letters : ∀ character ∈ suffix, isIntegerSuffix character = true) :
    natural? (text ++ suffix) = some number := by
  rw [natural?, written.unsuffixed letters]
  cases written with
  | decimal numeral noZero =>
      have value := numeral.numeral?_filter (by decide)
      rcases numeral.exists_cons with ⟨_, first, others, rfl, leading⟩
      rw [List.filter_cons, if_pos (bne_iff_ne.mpr (leading.plain (by decide)).2.2.1)] at value ⊢
      by_cases zero : first = '0'
      · cases noZero (congrArg some zero)
        exact value
      · -- Every other pattern begins with a zero.
        split
        case h_6 => exact value
        all_goals
          rename_i same
          exact absurd (List.cons.inj same).1 zero
  | hexadecimal isMark numeral =>
      have value := numeral.numeral?_filter (by decide)
      rcases List.mem_pair.mp isMark with rfl | rfl
      · exact value
      · exact value
  | @octal others numeral =>
      have value := numeral.digits?_filter (by decide)
      rw [List.filter_cons, if_pos (by decide)] at value ⊢
      cases plain : others.filter (· != '\'') with
      | nil =>
          rw [plain] at value
          exact value
      | cons second rest =>
          have among : second ∈ others.filter (· != '\'') := plain ▸ List.mem_cons_self
          rcases List.mem_filter.mp among with ⟨member, noQuote⟩
          rcases numeral.isDigit_of_mem (List.mem_cons_of_mem _ member) (bne_iff_ne.mp noQuote) with
            ⟨_, isDigit⟩
          have noMark := isDigit.isDigit (by decide)
          rw [plain] at value
          split
          case h_5 same =>
            cases same
            rw [numeral?_of_ne_plus (isDigit.plain (by decide)).2.1]
            exact value
          case h_6 other => exact absurd rfl (other second rest)
          all_goals
            rename_i same
            cases same
            cases noMark
  | binary isMark numeral =>
      have value := numeral.numeral?_filter (by decide)
      rcases List.mem_pair.mp isMark with rfl | rfl
      · exact value
      · exact value

end Written

/-! ## Integer literals -/

theorem integer_of_natural? {literal : List Char} {number : Nat}
    (value : natural? literal = some number) :
    integer (String.ofList literal) =
      if number < 2 ^ 64 then .ok (Int64.ofNat number)
      else .error (.invalidInteger (String.ofList literal)) := by
  rw [integer, String.toList_ofList, value]
  rfl

/-- A number that begins with a digit and is read to its end stands alone. -/
theorem number_standsBefore_nil {value : Nat} {first : Char} {others : List Char}
    (isDigit : IsDigit 10 value first) (read : numberTail first others = ⟨others, []⟩) :
    Segment.StandsBefore ⟨.verbatim .number, first :: others⟩ [] := by
  have opens : (first ≠ '\n' ∧ isBlankChar first = false ∧ first ≠ '/') ∧
      isNameStart first = false :=
    of_decide_eq_true (isDigit.of_listed
      (fun _ first => decide ((first ≠ '\n' ∧ isBlankChar first = false ∧ first ≠ '/') ∧
        isNameStart first = false))
      (by decide))
  rcases opens with ⟨⟨noLineEnd, noBlank, noSlash⟩, noName⟩
  have begins : BeginsLexeme first others := .of_ne_slash noLineEnd noBlank noSlash others
  refine ⟨first, others, rfl, ?_⟩
  rw [List.append_nil, begins.readSegment_eq, lexemeReading, noName, if_neg Bool.false_ne_true,
    isDigit.isDigit (le_refl 10), Bool.true_or, if_pos rfl, read]
  rfl

/-- An integer is read as one token under any macros, and it has its value if 64 bits can
hold the number, where the upper half of the numbers is taken as negative.  A greater number
is refused. -/
theorem evaluate_integerLiteral {number : Nat} {digits suffix : List Char}
    (written : WritesInteger number digits)
    (letters : ∀ character ∈ suffix, character ∈ ['u', 'U', 'l', 'L']) (table : Macro.Table) :
    tokenize (String.ofList (digits ++ suffix)) =
        [⟨.number, 1, String.ofList (digits ++ suffix)⟩] ∧
      (number < 2 ^ 64 ->
        ∃ word, evaluate table (tokenize (String.ofList (digits ++ suffix))) = .ok word ∧
          word.toInt = wrap number) ∧
      (2 ^ 64 ≤ number ->
        evaluate table (tokenize (String.ofList (digits ++ suffix))) =
          .error (.invalidInteger (String.ofList (digits ++ suffix)))) := by
  have areLetters : ∀ character ∈ suffix, isIntegerSuffix character = true := by
    intro character member
    simpa [isIntegerSuffix, or_assoc] using letters character member
  have areParts : ∀ character ∈ suffix, character.isAlphanum = true := by
    have listed : ['u', 'U', 'l', 'L'].all Char.isAlphanum = true := by decide
    exact fun character member => List.all_eq_true.mp listed character (letters character member)
  have read : tokenize (String.ofList (digits ++ suffix)) =
      [⟨.number, 1, String.ofList (digits ++ suffix)⟩] := by
    rcases written.exists_numberTail with ⟨_, first, others, rfl, isDigit, taken⟩
    have whole : numberTail first (others ++ suffix) = ⟨others ++ suffix, []⟩ := by
      rw [numberTail_append taken, numberTail_of_isAlphanum areParts]
      rfl
    have alone := tokenize_lexeme (number_standsBefore_nil isDigit whole) rfl
    exact alone
  have value : evaluate table (tokenize (String.ofList (digits ++ suffix))) =
      integer (String.ofList (digits ++ suffix)) := by
    rw [read, evaluate_literal (.inl rfl)]
    rfl
  rw [value, integer_of_natural? (written.natural?_eq areLetters)]
  refine ⟨read, fun fits => ?_, fun exceeds => if_neg (Nat.not_lt.mpr exceeds)⟩
  exact ⟨Int64.ofNat number, if_pos fits, Int64.toInt_ofNat'⟩

example : (evaluate .empty (tokenize "0xF'fuL")).toOption = some 255 := by decide +kernel

/-! ### Powers of two -/

/-- A power of two in binary. -/
def powerOfTwo (exponent : Nat) : List Char :=
  '0' :: 'b' :: '1' :: List.replicate exponent '0'

theorem writesInteger_powerOfTwo (exponent : Nat) :
    WritesInteger (2 ^ exponent) (powerOfTwo exponent) := by
  have zero : IsDigit 2 0 '0' := ⟨by decide, by decide⟩
  have numeral : Numeral 2 (2 ^ exponent) ('1' :: List.replicate exponent '0') := by
    induction exponent with
    | zero => exact .digit ⟨by decide, by decide⟩
    | succ exponent ih =>
        rw [List.replicate_succ', ← List.cons_append]
        exact ih.next zero
  exact .binary (by decide) numeral

/-- With 63 zeros it is the least integer, with 64 there is no room for it. -/
theorem evaluate_integerLiteral_powerOfTwo :
    (WritesInteger (2 ^ 63) (powerOfTwo 63) ∧
      ∃ word,
        evaluate .builtins (tokenize (String.ofList (powerOfTwo 63 ++ ['u', 'L']))) = .ok word ∧
          word.toInt = -2 ^ 63) ∧
    WritesInteger (2 ^ 64) (powerOfTwo 64) ∧
      evaluate .builtins (tokenize (String.ofList (powerOfTwo 64 ++ ['u', 'L']))) =
        .error (.invalidInteger (String.ofList (powerOfTwo 64 ++ ['u', 'L']))) := by
  have letters : ∀ character ∈ ['u', 'L'], character ∈ ['u', 'U', 'l', 'L'] := by simp
  have least := writesInteger_powerOfTwo 63
  have greater := writesInteger_powerOfTwo 64
  rcases (evaluate_integerLiteral least letters .builtins).2.1 (by decide) with
    ⟨word, evaluated, value⟩
  exact ⟨⟨least, word, evaluated, value⟩, greater,
    (evaluate_integerLiteral greater letters .builtins).2.2 (le_refl _)⟩

end Condition
end ObjectWrapper
