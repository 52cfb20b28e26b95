import ObjectWrapper.Proofs.Condition.Derivation

namespace ObjectWrapper
namespace Condition

open Source

/-!
# Operands that are not needed

The first operand of `&&` or `||` may decide by itself, and of two choices only one is
taken.  To the language an operand that is not needed is not evaluated, so that a zero
divisor in it does no harm.  A condition, however, is evaluated while it is read, and there
is no way to read an operand without evaluating it.

So the two ways of evaluation agree as long as no divisor is zero anywhere, and where one is,
a condition has no value, whether that operand is needed or not.  The usual guard before a
division does not protect it.
-/

/-! ## Evaluation of what is needed -/

/-- The value of the operator where its first operand decides. -/
def BinaryOperator.decidedBy? (operator : BinaryOperator) (left : Int) : Option Int :=
  match operator with
  | and => if left = 0 then some 0 else none
  | or => if left ≠ 0 then some 1 else none
  | _ => none

/-- The value of an expression of which only the operands that are needed are evaluated, if
no divisor among these is zero. -/
def Expression.valueOnDemand? : Expression -> Option Int
  | leaf token => some (leafValue token)
  | prefixed operator inner => do
    let value <- inner.valueOnDemand?
    some (operator.meaning value)
  | joined operator left right => do
    let first <- left.valueOnDemand?
    match operator.decidedBy? first with
    | some decided => some decided
    | none => do
      let second <- right.valueOnDemand?
      if operator.isDivision = true ∧ second = 0 then none
      else some (operator.meaning first second)
  | choice condition first second => do
    let decision <- condition.valueOnDemand?
    if decision = 0 then second.valueOnDemand? else first.valueOnDemand?

/-- The second operand has no influence where the first one decides. -/
theorem BinaryOperator.meaning_of_decidedBy? {operator : BinaryOperator} {left decided : Int}
    (decides : operator.decidedBy? left = some decided) (right : Int) :
    operator.meaning left right = decided := by
  cases operator with
  | and =>
      rw [decidedBy?, Option.ite_none_right_eq_some, Option.some.injEq] at decides
      rcases decides with ⟨rfl, rfl⟩
      simp [meaning, truthValue]
  | or =>
      rw [decidedBy?, Option.ite_none_right_eq_some, Option.some.injEq] at decides
      rcases decides with ⟨nonzero, rfl⟩
      simp [meaning, truthValue, nonzero]
  | _ => cases decides

/-- Where no divisor is zero, it makes no difference which operands are evaluated. -/
theorem Expression.valueOnDemand?_of_divisorsNonzero {expression : Expression}
    (divisors : expression.DivisorsNonzero) :
    expression.valueOnDemand? = some expression.value := by
  induction expression with
  | leaf token => rfl
  | prefixed operator inner ih =>
      rw [valueOnDemand?, ih divisors]
      rfl
  | joined operator left right leftIh rightIh =>
      rcases divisors with ⟨leftDivisors, rightDivisors, nonzero⟩
      rw [valueOnDemand?, leftIh leftDivisors, rightIh rightDivisors, value]
      cases decides : operator.decidedBy? left.value with
      | some decided => simp [decides, BinaryOperator.meaning_of_decidedBy? decides]
      | none =>
          have allowed : ¬ (operator.isDivision = true ∧ right.value = 0) :=
            fun both => nonzero both.1 both.2
          simp [decides, allowed]
  | choice condition first second conditionIh firstIh secondIh =>
      rcases divisors with ⟨conditionDivisors, firstDivisors, secondDivisors⟩
      rw [valueOnDemand?, conditionIh conditionDivisors, firstIh firstDivisors,
        secondIh secondDivisors, value]
      change (if condition.value = 0 then _ else _) = _
      split <;> rfl

/-! ## Evaluation of everything -/

theorem BinaryOperator.apply_zero {operator : BinaryOperator}
    (division : operator.isDivision = true) (left : Int64) :
    operator.apply left 0 = .error .divisionByZero := by
  cases operator with
  | divide => rfl
  | modulo => rfl
  | _ => cases division

/-- One zero divisor, wherever it stands, takes the value from the whole expression. -/
theorem Expression.result_of_not_divisorsNonzero {expression : Expression}
    (leaves : expression.LeavesValid) (zero : ¬ expression.DivisorsNonzero) :
    expression.result = .error .divisionByZero := by
  induction expression with
  | leaf token => exact absurd trivial zero
  | prefixed operator inner ih =>
      rw [result, ih leaves zero]
      rfl
  | joined operator left right leftIh rightIh =>
      rw [result]
      by_cases leftDivisors : left.DivisorsNonzero
      · rcases exists_result leaves.1 leftDivisors with ⟨first, leftResult, _⟩
        rw [leftResult]
        by_cases rightDivisors : right.DivisorsNonzero
        · rcases exists_result leaves.2 rightDivisors with ⟨second, rightResult, rightValued⟩
          rw [rightResult]
          have divides : operator.isDivision = true ∧ right.value = 0 := by
            simpa [DivisorsNonzero, leftDivisors, rightDivisors] using zero
          rw [rightValued.value_eq, toInt_eq_zero_iff] at divides
          rcases divides with ⟨division, rfl⟩
          exact operator.apply_zero division first
        · rw [rightIh leaves.2 rightDivisors]
          rfl
      · rw [leftIh leaves.1 leftDivisors]
        rfl
  | choice condition first second conditionIh firstIh secondIh =>
      rw [result]
      by_cases conditionDivisors : condition.DivisorsNonzero
      · rcases exists_result leaves.1 conditionDivisors with ⟨conditionWord, conditionResult, _⟩
        rw [conditionResult]
        by_cases firstDivisors : first.DivisorsNonzero
        · rcases exists_result leaves.2.1 firstDivisors with ⟨firstWord, firstResult, _⟩
          have secondDivisors : ¬ second.DivisorsNonzero :=
            fun both => zero ⟨conditionDivisors, firstDivisors, both⟩
          rw [firstResult, secondIh leaves.2.2 secondDivisors]
          rfl
        · rw [firstIh leaves.2.1 firstDivisors]
          rfl
      · rw [conditionIh leaves.1 conditionDivisors]
        rfl

/-! ## The value of a condition -/

/-- The only operands of the condition are integers that have values. -/
def OnlyIntegers (tokens : List Token) : Prop :=
  ∀ token ∈ tokens, token.isBlank = false -> token.kind ≠ .punctuator ->
    token.kind = .number ∧ ∃ word, integer token.lexeme = .ok word

instance (lexeme : String) : Decidable (∃ word, integer lexeme = .ok word) :=
  decidable_of_iff ((integer lexeme).isOk = true) (by
    cases integer lexeme <;> simp [Except.isOk, Except.toBool])

instance : DecidablePred OnlyIntegers :=
  fun tokens => inferInstanceAs (Decidable (∀ token ∈ tokens, token.isBlank = false ->
    token.kind ≠ .punctuator -> token.kind = .number ∧ ∃ word, integer token.lexeme = .ok word))

/-- A condition on integers is evaluated with all of its operands, under any macros.  If no
divisor anywhere in it is zero, it has the value that it has when only the operands that are
needed are evaluated.  Otherwise it is refused as a division by zero, also where the divisor
belongs to an operand that is not needed. -/
theorem evaluate_eq_onDemand_or_divisionByZero {tokens : List Token} {expression : Expression}
    (derived : DerivesConditional (significant tokens) expression) (integers : OnlyIntegers tokens)
    (table : Macro.Table) :
    (expression.DivisorsNonzero ->
        ∃ word, evaluate table tokens = .ok word ∧
          expression.valueOnDemand? = some word.toInt) ∧
      (¬ expression.DivisorsNonzero -> evaluate table tokens = .error .divisionByZero) := by
  have nameless : ∀ token ∈ tokens, token.isIdentifier = false := by
    intro token member
    rw [Token.isIdentifier, beq_eq_false_iff_ne]
    intro identifier
    have number := (integers token member (by rw [Token.isBlank, identifier]; rfl)
      (by rw [identifier]; decide)).1
    rw [identifier] at number
    cases number
  have leaves : expression.LeavesValid := by
    refine derived.leavesValid fun token member isOperand => ?_
    rcases List.mem_filter.mp member with ⟨among, significant⟩
    have noPunctuator : token.kind ≠ .punctuator := by
      rcases isOperand with kind | kind | kind <;> rw [kind] <;> decide
    rcases integers token among (by simpa using significant) noPunctuator with
      ⟨number, word, valid⟩
    exact ⟨word, by rw [operand, number]; exact valid⟩
  rw [derived.evaluate_eq nameless table]
  constructor
  · intro divisors
    rcases Expression.exists_result leaves divisors with ⟨word, result, valued⟩
    refine ⟨word, result, ?_⟩
    rw [Expression.valueOnDemand?_of_divisorsNonzero divisors, valued.value_eq]
  · exact Expression.result_of_not_divisorsNonzero leaves

/-! ### A guarded division -/

/-- A number on the first line. -/
def numberAt (text : String) : Token :=
  ⟨.number, 1, text⟩

/-- A division with a guard in front of it. -/
def guarded (guard dividend divisor : String) : Expression :=
  .joined .and (.leaf (numberAt guard))
    (.joined .divide (.leaf (numberAt dividend)) (.leaf (numberAt divisor)))

/-- Its tokens. -/
def guardedTokens (guard dividend divisor : String) : List Token :=
  [numberAt guard, ⟨.punctuator, 1, "&&"⟩, numberAt dividend, ⟨.punctuator, 1, "/"⟩,
    numberAt divisor]

theorem derives_guarded (guard dividend divisor : String) :
    DerivesConditional (guardedTokens guard dividend divisor)
      (guarded guard dividend divisor) := by
  have number : ∀ text, DerivesJoined [] [numberAt text] (.leaf (numberAt text)) :=
    fun text => .operand (.leaf (.inl rfl))
  have quotient : DerivesJoined [[.times, .divide, .modulo]]
      [numberAt dividend, ⟨.punctuator, 1, "/"⟩, numberAt divisor]
      (.joined .divide (.leaf (numberAt dividend)) (.leaf (numberAt divisor))) :=
    .join (.stronger (number dividend)) (by decide) rfl (number divisor)
  have conjunction : DerivesJoined (layers.drop 1) (guardedTokens guard dividend divisor)
      (guarded guard dividend divisor) :=
    .join ((number guard).of_isSuffix List.nil_suffix) (by decide) rfl
      (quotient.of_isSuffix (by decide))
  exact .joined (conjunction.of_isSuffix (List.drop_suffix 1 layers))

/-- The guard holds and the divisor is not zero; the guard fails and the divisor is zero. -/
theorem evaluate_eq_onDemand_or_divisionByZero_guarded :
    (DerivesConditional (significant (tokenize "1 && 8 / 2")) (guarded "1" "8" "2") ∧
      OnlyIntegers (tokenize "1 && 8 / 2") ∧ (guarded "1" "8" "2").DivisorsNonzero ∧
      ∃ word, evaluate .builtins (tokenize "1 && 8 / 2") = .ok word ∧
        (guarded "1" "8" "2").valueOnDemand? = some word.toInt) ∧
    DerivesConditional (significant (tokenize "0 && 1 / 0")) (guarded "0" "1" "0") ∧
      OnlyIntegers (tokenize "0 && 1 / 0") ∧ ¬ (guarded "0" "1" "0").DivisorsNonzero ∧
      (guarded "0" "1" "0").valueOnDemand? = some 0 ∧
      evaluate .builtins (tokenize "0 && 1 / 0") = .error .divisionByZero := by
  have holds : DerivesConditional (significant (tokenize "1 && 8 / 2")) (guarded "1" "8" "2") := by
    rw [show significant (tokenize "1 && 8 / 2") = guardedTokens "1" "8" "2" by decide +kernel]
    exact derives_guarded "1" "8" "2"
  have fails : DerivesConditional (significant (tokenize "0 && 1 / 0")) (guarded "0" "1" "0") := by
    rw [show significant (tokenize "0 && 1 / 0") = guardedTokens "0" "1" "0" by decide +kernel]
    exact derives_guarded "0" "1" "0"
  have holdsIntegers : OnlyIntegers (tokenize "1 && 8 / 2") := by decide +kernel
  have failsIntegers : OnlyIntegers (tokenize "0 && 1 / 0") := by decide +kernel
  have nonzero : (guarded "1" "8" "2").DivisorsNonzero :=
    ⟨trivial, ⟨trivial, trivial, fun _ => by decide +kernel⟩, fun never => nomatch never⟩
  have zero : ¬ (guarded "0" "1" "0").DivisorsNonzero :=
    fun both => both.2.1.2.2 rfl (by decide +kernel)
  exact ⟨⟨holds, holdsIntegers, nonzero,
      (evaluate_eq_onDemand_or_divisionByZero holds holdsIntegers .builtins).1 nonzero⟩,
    fails, failsIntegers, zero, by decide +kernel,
      (evaluate_eq_onDemand_or_divisionByZero fails failsIntegers .builtins).2 zero⟩

/-- An operand that is not needed takes the value from a condition. -/
theorem not_evaluate_eq_valueOnDemand :
    ¬ ∀ (table : Macro.Table) (tokens : List Token) (expression : Expression) (value : Int),
      DerivesConditional (significant tokens) expression -> OnlyIntegers tokens ->
      expression.valueOnDemand? = some value ->
      ∃ word, evaluate table tokens = .ok word ∧ word.toInt = value := by
  intro claimed
  have derived :
      DerivesConditional (significant (tokenize "0 && 1 / 0")) (guarded "0" "1" "0") := by
    rw [show significant (tokenize "0 && 1 / 0") = guardedTokens "0" "1" "0" by decide +kernel]
    exact derives_guarded "0" "1" "0"
  have refused : (evaluate .empty (tokenize "0 && 1 / 0")).toOption = none := by decide +kernel
  rcases claimed .empty (tokenize "0 && 1 / 0") (guarded "0" "1" "0") 0 derived
    (by decide +kernel) (by decide +kernel) with ⟨word, evaluated, _⟩
  rw [evaluated] at refused
  cases refused

end Condition
end ObjectWrapper
