import ObjectWrapper.Proofs.Condition.IntegerValue
import ObjectWrapper.Proofs.Source.LiteralValue

namespace ObjectWrapper
namespace Condition

open Source

/-!
# Values of characters

A character is written between quotes as it is, or as a backslash with a letter or with
digits behind it.  A condition looks at no more than the first character and, where that is
a backslash, the second one.  So among the letters the table of escapes has to decide, and
of digits only the first counts.

Besides, all quotes at the end are taken for closing ones.  An escaped quote is lost
together with the one that closes the literal, and the backslash is left.

Which characters come out right nevertheless can be said exactly: every plain one, six of
the letters, zero, and two codes that by chance are those of a character in their spelling.
-/

/-! ## Spellings of one character -/

/-- How one character is written between the quotes of a literal. -/
inductive CharacterSpelling where
  | plain (character : Char)
  | simple (letter : Char)
  | octal (digits : List Char)
  | hexadecimal (digits : List Char)
deriving DecidableEq, Repr

namespace CharacterSpelling

def text : CharacterSpelling -> List Char
  | plain character => [character]
  | simple letter => ['\\', letter]
  | octal digits => '\\' :: digits
  | hexadecimal digits => '\\' :: 'x' :: digits

/-- The code of the character, where it may be written like that. -/
def code? : CharacterSpelling -> Option Nat
  | plain character => if character ∈ ['\'', '\\', '\n'] then none else some character.toNat
  | simple letter => (Literal.simpleEscape? letter).map Char.toNat
  | octal digits => if digits = [] ∨ 3 < digits.length then none else digits? 8 0 digits
  | hexadecimal digits => if digits = [] then none else digits? 16 0 digits

/-- The literal with the given encoding prefix. -/
def literal (name : List Char) (spelling : CharacterSpelling) : String :=
  String.ofList (name ++ '\'' :: (spelling.text ++ ['\'']))

/-- The value that a condition gives to the literal. -/
def taken : CharacterSpelling -> Int64
  | plain character => codeOf character
  | simple letter => if letter = '\'' then codeOf '\\' else escapedCode letter
  | octal digits => escapedCode (digits.headD '0')
  | hexadecimal _ => escapedCode 'x'

/-- The value is the code of the character.  Of octal codes this holds for zero and for
`\66`, the code of the digit six, of hexadecimal ones for that of the letter `x`. -/
def IsTakenRightly : CharacterSpelling -> Prop
  | plain _ => True
  | simple letter => letter ∉ ['\'', 'a', 'b', 'f', 'v']
  | octal digits => (∀ digit ∈ digits, digit = '0') ∨ digits = ['6', '6']
  | hexadecimal digits => digits? 16 0 digits = some 'x'.toNat

instance : DecidablePred IsTakenRightly
  | plain _ => inferInstanceAs (Decidable True)
  | simple letter => inferInstanceAs (Decidable (letter ∉ ['\'', 'a', 'b', 'f', 'v']))
  | octal digits =>
    @instDecidableOr _ _ (List.decidableBAll (· = '0') digits) inferInstance
  | hexadecimal digits => inferInstanceAs (Decidable (digits? 16 0 digits = some 'x'.toNat))

end CharacterSpelling

/-! ## Reading the literal -/

theorem ne_mark_of_digit? {base value : Nat} {character : Char}
    (read : digit? base character = some value) :
    character ≠ '\'' ∧ character ≠ '\\' ∧ character ≠ '\n' := by
  refine ⟨?_, ?_, ?_⟩ <;> rintro rfl <;> cases read

theorem exists_digit?_of_digits? {base value number : Nat} {first : Char} {rest : List Char}
    (read : digits? base value (first :: rest) = some number) :
    ∃ digit, digit? base first = some digit ∧
      digits? base (value * base + digit) rest = some number := by
  rw [digits?] at read
  cases leading : digit? base first with
  | none =>
      rw [leading] at read
      cases read
  | some digit =>
      rw [leading] at read
      exact ⟨digit, rfl, read⟩

theorem digits_plain {base value number : Nat} {digits : List Char}
    (read : digits? base value digits = some number) :
    ∀ character ∈ digits, character ≠ '\'' ∧ character ≠ '\\' ∧ character ≠ '\n' := by
  induction digits generalizing value with
  | nil => simp
  | cons first rest ih =>
      rcases exists_digit?_of_digits? read with ⟨digit, leading, later⟩
      exact List.forall_mem_cons.mpr ⟨ne_mark_of_digit? leading, ih later⟩

section Spelled

variable {name : List Char} {spelling : CharacterSpelling} {code : Nat}

theorem CharacterSpelling.fillsQuotes_text (written : spelling.code? = some code) :
    fillsQuotes '\'' spelling.text = true := by
  cases spelling with
  | plain character =>
      rw [code?, Option.ite_none_left_eq_some] at written
      exact fillsQuotes_of_plain (by simpa [text] using written.1)
  | simple letter =>
      have noLineFeed : letter ≠ '\n' := by
        rintro rfl
        cases written
      simp [text, fillsQuotes, noLineFeed]
  | octal digits =>
      rw [code?, Option.ite_none_left_eq_some] at written
      rcases List.exists_cons_of_ne_nil (not_or.mp written.1).1 with ⟨first, rest, rfl⟩
      rcases List.forall_mem_cons.mp (digits_plain written.2) with ⟨leading, later⟩
      simp [text, fillsQuotes, leading.2.2, fillsQuotes_of_plain later]
  | hexadecimal digits =>
      rw [code?, Option.ite_none_left_eq_some] at written
      simp [text, fillsQuotes, fillsQuotes_of_plain (digits_plain written.2)]

/-- The literal is read as one token. -/
theorem CharacterSpelling.tokenize_literal (isPrefix : IsLiteralPrefix name)
    (written : spelling.code? = some code) :
    tokenize (spelling.literal name) = [⟨.charLiteral, 1, spelling.literal name⟩] := by
  have quotes : TokenKind.quote? .charLiteral = some '\'' := rfl
  have stands := literal_standsBefore quotes isPrefix (fillsQuotes_text written) []
  have alone := tokenize_lexeme stands rfl
  exact alone

/-! ## Its value -/

/-- Of what is left without the quotes at the end, the character behind a backslash counts. -/
theorem character_of_escape {quoted rest : List Char} {escaped : Char} (noQuote : '\'' ∉ name)
    (trimmed : (quoted.reverse.dropWhile (· == '\'')).reverse = '\\' :: escaped :: rest) :
    character (String.ofList (name ++ '\'' :: quoted)) = .ok (escapedCode escaped) := by
  rw [character, String.toList_ofList, List.dropWhile_append_of_pos (bne_of_notMem noQuote),
    List.dropWhile_cons_of_neg (by decide)]
  dsimp only
  rw [trimmed]
  rfl

/-- A single character that is left counts itself, even a backslash. -/
theorem character_of_single {quoted : List Char} {first : Char} (noQuote : '\'' ∉ name)
    (trimmed : (quoted.reverse.dropWhile (· == '\'')).reverse = [first]) :
    character (String.ofList (name ++ '\'' :: quoted)) = .ok (codeOf first) := by
  rw [character, String.toList_ofList, List.dropWhile_append_of_pos (bne_of_notMem noQuote),
    List.dropWhile_cons_of_neg (by decide)]
  dsimp only
  rw [trimmed]
  split
  · cases ‹[first] = []›
  · cases ‹[first] = _›
  · cases ‹[first] = _›
    rfl

/-- Only the closing quote is cut off, unless the character is an escaped quote. -/
theorem CharacterSpelling.trimmed (written : spelling.code? = some code)
    (noQuote : spelling ≠ .simple '\'') :
    ((spelling.text ++ ['\'']).reverse.dropWhile (· == '\'')).reverse = spelling.text := by
  have ends : ∃ front last, spelling.text = front ++ [last] ∧ last ≠ '\'' := by
    have endsDigits : ∀ {base digits} front, digits ≠ [] -> digits? base 0 digits = some code ->
        ∃ others last, front ++ digits = others ++ [last] ∧ last ≠ '\'' := by
      intro base digits front nonempty value
      rcases (List.eq_nil_or_concat' digits).resolve_left nonempty with ⟨before, last, rfl⟩
      have lastPlain := digits_plain value last (by simp)
      exact ⟨front ++ before, last, (List.append_assoc ..).symm, lastPlain.1⟩
    cases spelling with
    | plain character =>
        rw [code?, Option.ite_none_left_eq_some] at written
        exact ⟨[], character, rfl, fun quote => written.1 (quote ▸ List.mem_cons_self)⟩
    | simple letter => exact ⟨['\\'], letter, rfl, fun quote => noQuote (quote ▸ rfl)⟩
    | octal digits =>
        rw [code?, Option.ite_none_left_eq_some] at written
        exact endsDigits ['\\'] (not_or.mp written.1).1 written.2
    | hexadecimal digits =>
        rw [code?, Option.ite_none_left_eq_some] at written
        exact endsDigits ['\\', 'x'] written.1 written.2
  rcases ends with ⟨front, last, text, ends⟩
  rw [text]
  exact reverse_dropWhile_append (beq_eq_false_iff_ne.mpr ends) (by simp)

theorem CharacterSpelling.character_literal (isPrefix : IsLiteralPrefix name)
    (written : spelling.code? = some code) :
    character (spelling.literal name) = .ok spelling.taken := by
  have quotes : TokenKind.quote? .charLiteral = some '\'' := rfl
  have noQuote : '\'' ∉ name := isPrefix.quote_notMem quotes
  by_cases quote : spelling = .simple '\''
  · rw [quote]
    exact character_of_single noQuote (by decide)
  have trimmed := trimmed written quote
  cases spelling with
  | plain character => exact character_of_single noQuote trimmed
  | simple letter =>
      have other : letter ≠ '\'' := fun same => quote (congrArg _ same)
      rw [taken, if_neg other]
      exact character_of_escape noQuote trimmed
  | octal digits =>
      rw [code?, Option.ite_none_left_eq_some] at written
      rcases List.exists_cons_of_ne_nil (not_or.mp written.1).1 with ⟨first, rest, rfl⟩
      exact character_of_escape noQuote trimmed
  | hexadecimal digits => exact character_of_escape noQuote trimmed

/-! ## When the value is right -/

theorem toInt_codeOf (character : Char) : (codeOf character).toInt = character.toNat := by
  refine Int64.toInt_ofNat_of_lt (Nat.lt_trans (UInt32.toNat_lt _) ?_)
  decide

/-- An octal digit, its value, and what is read for it behind a backslash. -/
structure IsOctalDigit (value : Nat) (character : Char) : Prop where
  below : value < 8
  escaped : (escapedCode character).toInt = if value = 0 then 0 else ('0'.toNat + value : Int)
  zero_iff : character = '0' ↔ value = 0
  six_iff : character = '6' ↔ value = 6

theorem isOctalDigit_of_digit? {value : Nat} {character : Char}
    (read : digit? 8 character = some value) : IsOctalDigit value character := by
  rw [digit?, Option.filter_eq_some_iff, decide_eq_true_iff] at read
  rcases read with ⟨read, below⟩
  have code : character.toNat = '0'.toNat + value := by
    split at read
    · rename_i isDigit
      have least : '0'.toNat ≤ character.toNat :=
        (of_decide_eq_true (Bool.and_eq_true_iff.mp isDigit).1 : '0'.val ≤ character.val)
      cases read
      omega
    · -- Letters stand for more than eight.
      split at read
      · cases read
        omega
      · split at read
        · cases read
          omega
        · cases read
  have listed : ∀ value < 8,
      (escapedCode (Char.ofNat ('0'.toNat + value))).toInt =
          (if value = 0 then 0 else ('0'.toNat + value : Int)) ∧
        (Char.ofNat ('0'.toNat + value) = '0' ↔ value = 0) ∧
        (Char.ofNat ('0'.toNat + value) = '6' ↔ value = 6) := by
    decide +kernel
  rw [← Char.ofNat_toNat character, code]
  rcases listed value below with ⟨escaped, zero, six⟩
  exact ⟨below, escaped, zero, six⟩

theorem exists_isOctalDigit {value number : Nat} {first : Char} {rest : List Char}
    (read : digits? 8 value (first :: rest) = some number) :
    ∃ digit, IsOctalDigit digit first ∧ digits? 8 (value * 8 + digit) rest = some number := by
  rcases exists_digit?_of_digits? read with ⟨digit, leading, later⟩
  exact ⟨digit, isOctalDigit_of_digit? leading, later⟩

/-- Of an octal code only the first digit is read, which is not enough but for zero.  Any
other digit is read as the character it is, which only `\66` is meant to be. -/
theorem CharacterSpelling.toInt_taken_octal_iff {digits : List Char}
    (written : (octal digits).code? = some code) :
    (octal digits).taken.toInt = code ↔ (octal digits).IsTakenRightly := by
  rw [code?, Option.ite_none_left_eq_some, not_or, Nat.not_lt] at written
  rcases written with ⟨⟨nonempty, short⟩, value⟩
  have zero : '0'.toNat = 48 := rfl
  match digits with
  | [] => exact absurd rfl nonempty
  | [first] =>
      rcases exists_isOctalDigit value with ⟨digit, isDigit, value⟩
      cases value
      simp only [taken, IsTakenRightly, List.headD_cons, isDigit.escaped, isDigit.zero_iff,
        List.forall_mem_singleton, List.cons.injEq, List.nil_eq, reduceCtorEq, and_false,
        or_false, zero]
      split <;> omega
  | [first, second] =>
      rcases exists_isOctalDigit value with ⟨high, isHigh, value⟩
      rcases exists_isOctalDigit value with ⟨low, isLow, value⟩
      have highBelow := isHigh.below
      have lowBelow := isLow.below
      cases value
      simp only [taken, IsTakenRightly, List.headD_cons, isHigh.escaped, isHigh.zero_iff,
        isLow.zero_iff, isHigh.six_iff, isLow.six_iff, List.forall_mem_cons, List.not_mem_nil,
        false_imp_iff, implies_true, and_true, List.cons.injEq, zero]
      split <;> omega
  | [first, second, third] =>
      rcases exists_isOctalDigit value with ⟨high, isHigh, value⟩
      rcases exists_isOctalDigit value with ⟨middle, isMiddle, value⟩
      rcases exists_isOctalDigit value with ⟨low, isLow, value⟩
      cases value
      simp only [taken, IsTakenRightly, List.headD_cons, isHigh.escaped, isHigh.zero_iff,
        isMiddle.zero_iff, isLow.zero_iff, List.forall_mem_cons, List.not_mem_nil, false_imp_iff,
        implies_true, and_true, List.cons.injEq, reduceCtorEq, and_false, or_false, zero]
      split <;> omega
  | first :: second :: third :: fourth :: more =>
      simp only [List.length_cons] at short
      omega

theorem CharacterSpelling.toInt_taken_eq_iff (written : spelling.code? = some code) :
    spelling.taken.toInt = code ↔ spelling.IsTakenRightly := by
  cases spelling with
  | plain character =>
      rw [code?, Option.ite_none_left_eq_some, Option.some.injEq] at written
      exact iff_of_true (written.2 ▸ toInt_codeOf character) trivial
  | simple letter =>
      have listed : ['n', 't', 'r', 'a', 'b', 'f', 'v', '\\', '\'', '"', '?'].all (fun letter =>
          decide ((simple letter).taken.toInt = (((simple letter).code?.getD 0 : Nat) : Int) ↔
            letter ∉ ['\'', 'a', 'b', 'f', 'v'])) = true := by
        decide +kernel
      have known : letter ∈ ['n', 't', 'r', 'a', 'b', 'f', 'v', '\\', '\'', '"', '?'] := by
        rw [code?] at written
        unfold Literal.simpleEscape? at written
        split at written
        case h_12 => cases written
        all_goals decide
      have chosen := of_decide_eq_true (List.all_eq_true.mp listed letter known)
      rw [written] at chosen
      exact chosen
  | octal digits => exact toInt_taken_octal_iff written
  | hexadecimal digits =>
      rw [code?, Option.ite_none_left_eq_some] at written
      change (codeOf 'x').toInt = code ↔ digits? 16 0 digits = some 'x'.toNat
      rw [written.2, Option.some.injEq, toInt_codeOf, Int.natCast_inj]
      exact eq_comm

/-- A literal of one character is read as one token under any macros and always has a value,
but this is the code of the character only for the spellings that are taken rightly. -/
theorem evaluate_characterLiteral (isPrefix : IsLiteralPrefix name)
    (written : spelling.code? = some code) (table : Macro.Table) :
    tokenize (spelling.literal name) = [⟨.charLiteral, 1, spelling.literal name⟩] ∧
      evaluate table (tokenize (spelling.literal name)) = .ok spelling.taken ∧
      (spelling.taken.toInt = code ↔ spelling.IsTakenRightly) := by
  have read := CharacterSpelling.tokenize_literal isPrefix written
  refine ⟨read, ?_, CharacterSpelling.toInt_taken_eq_iff written⟩
  rw [read, evaluate_literal (.inr rfl)]
  exact CharacterSpelling.character_literal isPrefix written

end Spelled

/-- A line feed as an escape comes out right, also with a prefix, but a capital A in octal
does not: it is taken for the digit one. -/
theorem evaluate_characterLiteral_capitalA :
    ((CharacterSpelling.simple 'n').code? = some 10 ∧
      ∃ word, evaluate .builtins (tokenize "u8'\\n'") = .ok word ∧ word.toInt = 10) ∧
    (CharacterSpelling.octal ['1', '0', '1']).code? = some 65 ∧
      evaluate .builtins (tokenize "'\\101'") = .ok (codeOf '1') := by
  have isPrefix : IsLiteralPrefix ['u', '8'] := .inr (by decide)
  have lineFeed : (CharacterSpelling.simple 'n').code? = some 10 := by decide
  have capitalA : (CharacterSpelling.octal ['1', '0', '1']).code? = some 65 := by decide
  rcases evaluate_characterLiteral isPrefix lineFeed .builtins with ⟨_, evaluated, right⟩
  exact ⟨⟨lineFeed, _, evaluated, right.mpr (by decide)⟩, capitalA,
    (evaluate_characterLiteral (.inl rfl) capitalA .builtins).2.1⟩

/-- An escaped quote has the value of a backslash. -/
theorem not_evaluate_characterLiteral :
    ¬ ∀ (table : Macro.Table) (name : List Char) (spelling : CharacterSpelling) (code : Nat),
      IsLiteralPrefix name -> spelling.code? = some code -> code < 128 ->
      ∃ word, evaluate table (tokenize (spelling.literal name)) = .ok word ∧ word.toInt = code := by
  intro claimed
  have backslash : (evaluate .empty (tokenize "'\\''")).toOption = some 92 := by decide +kernel
  rcases claimed .empty [] (.simple '\'') 39 (.inl rfl) (by decide) (by decide) with
    ⟨word, evaluated, quote⟩
  change evaluate .empty (tokenize "'\\''") = .ok word at evaluated
  rw [evaluated] at backslash
  cases backslash
  cases quote

end Condition
end ObjectWrapper
