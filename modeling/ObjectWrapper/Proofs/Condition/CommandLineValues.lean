import ObjectWrapper.Proofs.Condition.Readers
import ObjectWrapper.Proofs.Condition.Relevance
import ObjectWrapper.Proofs.Macro.StoredNumbers
import ObjectWrapper.Proofs.Source.Lines

namespace ObjectWrapper
namespace Condition

open Source Macro

/-!
# Values that are given on the command line

A macro that is defined on the command line has one identifier for its replacement, which
holds the value as it was given.  Were the value read like the replacement of a directive,
it could be a number instead.  Conditions take a name that begins with a digit for the number
it looks like, so they cannot tell the two apart, and neither can expansion.

This holds for values without splices.  A value in which two lines are joined is kept with
its backslash and line end, whereas reading it takes them away.
-/

/-! ## Reading numbers that are stored as names -/

theorem BinaryOperator.ofToken?_asName (token : Token) :
    ofToken? token.asName = ofToken? token := by
  unfold Token.asName
  split
  · rename_i stored
    simp [ofToken?, stored.1]
  · rfl

theorem UnaryOperator.ofToken?_asName (token : Token) :
    ofToken? token.asName = ofToken? token := by
  unfold Token.asName
  split
  · rename_i stored
    simp [ofToken?, stored.1]
  · rfl

/-- A name that looks like a number has its value. -/
theorem operand_asName (token : Token) : operand token.asName = operand token := by
  unfold Token.asName
  split
  · rename_i stored
    simp [operand, stored.1, stored.2]
  · rfl

theorem afterPunctuator_asName (punctuator : String) (tokens : List Token) :
    afterPunctuator punctuator (tokens.map Token.asName) =
      (afterPunctuator punctuator tokens).map (List.map Token.asName) := by
  cases tokens with
  | nil => rfl
  | cons token rest =>
      rw [List.map_cons, afterPunctuator_cons, afterPunctuator_cons, Token.isPunctuator_asName,
        Token.lexeme_asName]
      split <;> rfl

/-- A result whose tokens left have numbers stored as names. -/
def Result.asNames (result : Result) : Result :=
  result.map fun read => (read.1, read.2.map Token.asName)

/-- All readers read the tokens in the same way when numbers are stored as names. -/
structure ReadsNames (tokens : List Token) : Prop where
  unary : readUnary (tokens.map Token.asName) = (readUnary tokens).asNames
  operators : ∀ least value, readOperators least value (tokens.map Token.asName) =
    (readOperators least value tokens).asNames
  binary : ∀ least, readBinary least (tokens.map Token.asName) = (readBinary least tokens).asNames
  conditional : readConditional (tokens.map Token.asName) = (readConditional tokens).asNames

section Step

variable {tokens : List Token}
  (shorter : ∀ fewer : List Token, fewer.length < tokens.length -> ReadsNames fewer)
include shorter

theorem readUnary_asName :
    readUnary (tokens.map Token.asName) = (readUnary tokens).asNames := by
  cases tokens with
  | nil =>
      rw [List.map_nil, readUnary_nil]
      rfl
  | cons token rest =>
      have later := shorter rest (Nat.lt_succ_self _)
      rw [List.map_cons, readUnary_cons, readUnary_cons, UnaryOperator.ofToken?_asName]
      cases UnaryOperator.ofToken? token with
      | some operator =>
          simp only [later.unary]
          cases readUnary rest <;> rfl
      | none =>
          simp only [Token.isPunctuator_asName, operand_asName, later.conditional]
          split
          · cases readConditional rest with
            | error fault => rfl
            | ok inner =>
                change (afterPunctuator ")" (inner.2.map Token.asName) >>= _) =
                  Result.asNames (afterPunctuator ")" inner.2 >>= _)
                rw [afterPunctuator_asName]
                cases afterPunctuator ")" inner.2 <;> rfl
          · cases operand token <;> rfl

theorem readOperators_asName (least : Nat) (value : Int64) :
    readOperators least value (tokens.map Token.asName) =
      (readOperators least value tokens).asNames := by
  cases tokens with
  | nil =>
      rw [List.map_nil, readOperators_nil]
      rfl
  | cons token rest =>
      have later := shorter rest (Nat.lt_succ_self _)
      rw [List.map_cons, readOperators_cons, readOperators_cons, BinaryOperator.ofToken?_asName]
      cases BinaryOperator.ofToken? token with
      | none => rfl
      | some operator =>
          simp only [later.binary]
          split
          · rfl
          cases read : readBinary (operator.precedence + 1) rest with
          | error fault => rfl
          | ok second =>
              have fewer : second.2.length < (token :: rest).length :=
                Nat.lt_succ_of_lt (left_length_lt read)
              change (operator.apply value second.1 >>= fun applied =>
                  readOperators least applied (second.2.map Token.asName)) =
                Result.asNames (operator.apply value second.1 >>= fun applied =>
                  readOperators least applied second.2)
              cases operator.apply value second.1 with
              | error fault => rfl
              | ok applied => exact (shorter second.2 fewer).operators least applied

theorem readBinary_asName (least : Nat) :
    readBinary least (tokens.map Token.asName) = (readBinary least tokens).asNames := by
  rw [readBinary_eq, readBinary_eq, readUnary_asName shorter]
  cases read : readUnary tokens with
  | error fault => rfl
  | ok first => exact (shorter first.2 (left_length_lt read)).operators least first.1

theorem readConditional_asName :
    readConditional (tokens.map Token.asName) = (readConditional tokens).asNames := by
  rw [readConditional_eq, readConditional_eq, readBinary_asName shorter]
  cases read : readBinary 1 tokens with
  | error fault => rfl
  | ok condition =>
      rcases condition with ⟨value, left⟩
      have fewer := left_length_lt read
      cases left with
      | nil => rfl
      | cons token rest =>
          have later := shorter rest (Nat.lt_of_succ_lt fewer)
          change (if token.asName.isPunctuator "?" then _ else _) =
            Result.asNames (if token.isPunctuator "?" then _ else _)
          rw [Token.isPunctuator_asName]
          split
          · rw [later.conditional]
            cases readFirst : readConditional rest with
            | error fault => rfl
            | ok first =>
                change (afterPunctuator ":" (first.2.map Token.asName) >>= _) =
                  Result.asNames (afterPunctuator ":" first.2 >>= _)
                rw [afterPunctuator_asName]
                cases separated : afterPunctuator ":" first.2 with
                | error fault => rfl
                | ok second =>
                    rcases afterPunctuator_eq_ok_iff.mp separated with ⟨colon, shape, _⟩
                    have firstFewer := left_length_lt readFirst
                    have secondFewer : second.length < tokens.length := by
                      rw [shape] at firstFewer
                      simp only [List.length_cons] at fewer firstFewer
                      omega
                    change (readConditional (second.map Token.asName) >>= _) =
                      Result.asNames (readConditional second >>= _)
                    rw [(shorter second secondFewer).conditional]
                    cases readConditional second <;> rfl
          · rfl

end Step

theorem readsNames (tokens : List Token) : ReadsNames tokens := by
  induction length : tokens.length using Nat.strong_induction_on generalizing tokens with
  | _ count ih =>
      have shorter : ∀ fewer : List Token, fewer.length < tokens.length -> ReadsNames fewer :=
        fun fewer less => ih fewer.length (length ▸ less) fewer rfl
      exact ⟨readUnary_asName shorter, readOperators_asName shorter, readBinary_asName shorter,
        readConditional_asName shorter⟩

/-! ## Conditions -/

theorem valueOf_eq_readConditional (tokens : List Token) :
    valueOf tokens = readConditional tokens >>= fun read =>
      match read.2 with
      | [] => .ok read.1
      | token :: _ => .error (.unexpected token.lexeme) := by
  rw [valueOf, readConditional]
  cases conditional tokens <;> rfl

theorem valueOf_asName (tokens : List Token) :
    valueOf (tokens.map Token.asName) = valueOf tokens := by
  rw [valueOf_eq_readConditional, valueOf_eq_readConditional, (readsNames tokens).conditional]
  cases readConditional tokens with
  | error fault => rfl
  | ok read =>
      rcases read with ⟨value, left⟩
      cases left with
      | nil => rfl
      | cons token rest =>
          change Except.error (Fault.unexpected token.asName.lexeme) = _
          rw [Token.lexeme_asName]
          rfl

/-- The value of what a condition has been expanded to. -/
def valueOfExpanded (tokens : List Token) : Except Fault Int64 :=
  match tokens.filter (! ·.isBlank) with
  | [] => .error .noExpression
  | significant => valueOf significant

theorem valueOfExpanded_asName (tokens : List Token) :
    valueOfExpanded (tokens.map Token.asName) = valueOfExpanded tokens := by
  have same : (fun token : Token => ! token.isBlank) ∘ Token.asName = (! ·.isBlank) := by
    funext token
    simp [Token.isBlank_asName]
  unfold valueOfExpanded
  rw [List.filter_map, same]
  cases tokens.filter (! ·.isBlank) with
  | nil => rfl
  | cons token rest => exact valueOf_asName (token :: rest)

/-- Tables that differ in how numbers are stored give conditions the same values, and the same
faults. -/
theorem evaluate_congr_asNames {first second : Table} (same : first.asNames = second.asNames)
    (firstApart : first.NamesNoNumber) (secondApart : second.NamesNoNumber)
    (tokens : List Token) : evaluate first tokens = evaluate second tokens := by
  have defined : ∀ name, first.contains name = second.contains name := by
    intro name
    have found := congrArg (fun table => (table.find? name).isSome) same
    simp only [Table.find?_asNames, Option.isSome_map] at found
    exact found
  have answers : answerDefined first tokens = answerDefined second tokens :=
    answerDefined_congr fun name _ => defined name
  unfold evaluate
  rw [answers]
  cases answerDefined second tokens with
  | error fault => rfl
  | ok answered =>
      change valueOfExpanded (expand first answered) = valueOfExpanded (expand second answered)
      rw [← valueOfExpanded_asName, map_asName_expand_congr same firstApart secondApart,
        valueOfExpanded_asName]

/-! ## Values -/

/-- A text that is read as a single token other than a blank is the text of the token, unless
it has splices. -/
theorem lexeme_of_tokenize_eq_singleton {value : String} {token : Token}
    (unspliced : Unspliced value.toList) (single : tokenize value = [token])
    (significant : token.isBlank = false) : token.lexeme = value := by
  have read := tokenize_ofList unspliced
  have whole := flatMap_text_segments value.toList
  rw [String.ofList_toList, single, tokensFrom] at read
  rcases shape : segments value.toList with _ | ⟨segment, _ | ⟨next, more⟩⟩
  · rw [shape] at read
    cases read
  · rw [shape] at read whole
    rw [List.flatMap_singleton] at whole
    cases read
    apply String.toList_injective
    exact (Segment.toList_lexeme significant).trans whole
  · rw [shape] at read
    cases read

/-- The replacement that a value is read as is stored in the same way, numbers taken for names. -/
theorem asNames_ofValue {value : String} {token : Token} (unspliced : Unspliced value.toList)
    (single : tokenize value = [token])
    (plain : token.kind = .identifier ∨
      token.kind = .number ∧ beginsWithDigit token.lexeme = true) :
    (Definition.ofValue value).asNames = Definition.asNames { replacement := tokenize value } := by
  have significant : token.isBlank = false := by
    rcases plain with kind | ⟨kind, _⟩ <;> rw [Token.isBlank, kind] <;> rfl
  have text := lexeme_of_tokenize_eq_singleton unspliced single significant
  have stored : token.asName.atLine 0 = ⟨.identifier, 0, value⟩ := by
    rcases plain with kind | number
    · rw [Token.asName_of_isIdentifier (beq_iff_eq.mpr kind), Token.atLine, kind, text]
    · rw [Token.asName, if_pos number, Token.atLine, text]
  rw [single]
  simp only [Definition.asNames, Definition.ofValue, List.map_cons, List.map_nil, stored]
  rfl

/-- A macro with a value that is one name or one number, and no splice, may as well be defined
by what the value is read as.  All conditions have the same values or the same faults, and
all texts are expanded to tokens of the same texts on the same lines. -/
theorem evaluate_and_expand_define_ofValue {table : Table} (apart : table.NamesNoNumber)
    {name value : String} (named : beginsWithDigit name = false)
    (unspliced : Unspliced value.toList) {token : Token} (single : tokenize value = [token])
    (plain : token.kind = .identifier ∨
      token.kind = .number ∧ beginsWithDigit token.lexeme = true) (tokens : List Token) :
    evaluate (table.define name (.ofValue value)) tokens =
        evaluate (table.define name { replacement := tokenize value }) tokens ∧
      (expand (table.define name (.ofValue value)) tokens).map
          (fun token => (token.lexeme, token.line)) =
        (expand (table.define name { replacement := tokenize value }) tokens).map
          (fun token => (token.lexeme, token.line)) := by
  have same := Table.define_asNames_congr (asNames_ofValue unspliced single plain) table name
  have storedApart : (table.define name (.ofValue value)).NamesNoNumber :=
    apart.define named (List.forall_mem_nil _)
  have readApart : (table.define name { replacement := tokenize value }).NamesNoNumber :=
    apart.define named (List.forall_mem_nil _)
  refine ⟨evaluate_congr_asNames same storedApart readApart tokens, ?_⟩
  have expanded := congrArg (List.map fun token => (token.lexeme, token.line))
    (map_asName_expand_congr same storedApart readApart tokens)
  simpa only [List.map_map, Function.comp_def, Token.lexeme_asName, Token.line_asName]
    using expanded

/-- A macro that takes an argument. -/
def squaring : Table :=
  Table.define .empty "SQUARE"
    { replacement := tokenize "(x)*(x)", parameters := ["x"], isFunction := true }

/-- A number that becomes an argument, and is read in a condition. -/
theorem evaluate_and_expand_define_ofValue_squaring :
    evaluate (squaring.define "N" (.ofValue "0x1'0")) (tokenize "SQUARE(N) == 256") =
        evaluate (squaring.define "N" { replacement := tokenize "0x1'0" })
          (tokenize "SQUARE(N) == 256") ∧
      (expand (squaring.define "N" (.ofValue "0x1'0")) (tokenize "SQUARE(N) == 256")).map
          (fun token => (token.lexeme, token.line)) =
        (expand (squaring.define "N" { replacement := tokenize "0x1'0" })
          (tokenize "SQUARE(N) == 256")).map (fun token => (token.lexeme, token.line)) ∧
      evaluate (squaring.define "N" (.ofValue "0x1'0")) (tokenize "SQUARE(N) == 256") = .ok 1 ∧
      (expand (squaring.define "N" (.ofValue "0x1'0")) (tokenize "SQUARE(N) == 256")).map
          (fun token => (token.lexeme, token.line)) =
        [("(", 1), ("0x1'0", 1), (")", 1), ("*", 1), ("(", 1), ("0x1'0", 1), (")", 1), (" ", 1),
          ("==", 1), (" ", 1), ("256", 1)] := by
  have apart : squaring.NamesNoNumber :=
    Table.namesNoNumber_empty.define (by decide) (by decide)
  have single : tokenize "0x1'0" = [⟨.number, 1, "0x1'0"⟩] := by decide +kernel
  have named : beginsWithDigit "N" = false := by decide
  have agree := evaluate_and_expand_define_ofValue apart named (by decide) single
    (.inr (by decide)) (tokenize "SQUARE(N) == 256")
  exact ⟨agree.1, agree.2, by decide +kernel, by decide +kernel⟩

/-- A value in which two lines are joined is not what it is read as. -/
theorem not_evaluate_and_expand_define_ofValue :
    ¬ ∀ (table : Table) (name value : String) (token : Token) (tokens : List Token),
      table.NamesNoNumber -> beginsWithDigit name = false -> tokenize value = [token] ->
      (token.kind = .identifier ∨
        token.kind = .number ∧ beginsWithDigit token.lexeme = true) ->
      evaluate (table.define name (.ofValue value)) tokens =
          evaluate (table.define name { replacement := tokenize value }) tokens ∧
        (expand (table.define name (.ofValue value)) tokens).map
            (fun token => (token.lexeme, token.line)) =
          (expand (table.define name { replacement := tokenize value }) tokens).map
            (fun token => (token.lexeme, token.line)) := by
  intro claimed
  have both := claimed .empty "N" "1\\\n2" ⟨.number, 1, "12"⟩ [⟨.identifier, 1, "N"⟩]
    Table.namesNoNumber_empty (by decide) (by decide +kernel) (.inr (by decide))
  have stored : evaluate (Table.define .empty "N" (.ofValue "1\\\n2")) [⟨.identifier, 1, "N"⟩] =
      .error (.invalidInteger "1\\\n2") := by
    decide +kernel
  have read : evaluate (Table.define .empty "N" { replacement := tokenize "1\\\n2" })
      [⟨.identifier, 1, "N"⟩] = .ok 12 := by
    decide +kernel
  rw [stored, read] at both
  cases both.1

end Condition
end ObjectWrapper
