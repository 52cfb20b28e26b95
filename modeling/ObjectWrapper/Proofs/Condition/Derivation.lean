import ObjectWrapper.Proofs.Condition.Readers
import ObjectWrapper.Proofs.Except
import ObjectWrapper.Proofs.Macro.Rescan
import ObjectWrapper.Proofs.Source.Significant
import ObjectWrapper.Source.Tokenize

namespace ObjectWrapper
namespace Condition

open Source

/-!
# Conditions and their derivations

The readers take the longest beginning of the tokens that derives from their part
of the grammar, and compute the value of the expression derived.  In one direction
the loop over binary operators carries the layer of what it has joined so far: the
next operator binds no stronger than that layer, since a stronger one would have
been taken with the last operand.  In the other direction a derivation is read
whatever follows it, as long as no operator there could extend it.

Hence a condition has a value exactly when it derives from the grammar, its
literals have values, and no divisor in it is zero; and its value is that of the
expression.
-/

/-! ## Expressions with values -/

/-- The expression has the value of the word: every literal and division in it has
a value. -/
structure Expression.HasValue (expression : Expression) (word : Int64) : Prop where
  leaves : expression.LeavesValid
  divisors : expression.DivisorsNonzero
  value_eq : expression.value = word.toInt

namespace Expression

theorem hasValue_leaf {token : Token} {word : Int64} (valid : operand token = .ok word) :
    (leaf token).HasValue word := by
  refine ⟨⟨word, valid⟩, trivial, ?_⟩
  rw [value, leafValue, valid]

theorem HasValue.prefixed {operand : Expression} {word : Int64} (operator : UnaryOperator)
    (valued : operand.HasValue word) :
    (Expression.prefixed operator operand).HasValue (operator.apply word) := by
  refine ⟨valued.leaves, valued.divisors, ?_⟩
  rw [value, valued.value_eq, operator.toInt_apply]

theorem HasValue.joined {left right : Expression} {first second result : Int64}
    {operator : BinaryOperator} (leftValued : left.HasValue first)
    (rightValued : right.HasValue second) (applied : operator.apply first second = .ok result) :
    (Expression.joined operator left right).HasValue result := by
  have allowed : operator.isDivision = true -> second.toInt ≠ 0 :=
    BinaryOperator.toInt_ne_zero_of_apply applied
  rcases operator.exists_apply_eq_ok first second allowed with ⟨same, sameApplied, agrees⟩
  rw [applied] at sameApplied
  cases sameApplied
  refine ⟨⟨leftValued.leaves, rightValued.leaves⟩,
    ⟨leftValued.divisors, rightValued.divisors, ?_⟩, ?_⟩
  · rw [rightValued.value_eq]
    exact allowed
  · rw [value, leftValued.value_eq, rightValued.value_eq, agrees]

theorem HasValue.choice {condition first second : Expression}
    {conditionWord firstWord secondWord : Int64} (conditionValued : condition.HasValue conditionWord)
    (firstValued : first.HasValue firstWord) (secondValued : second.HasValue secondWord) :
    (Expression.choice condition first second).HasValue
      (if conditionWord = 0 then secondWord else firstWord) := by
  refine ⟨⟨conditionValued.leaves, firstValued.leaves, secondValued.leaves⟩,
    ⟨conditionValued.divisors, firstValued.divisors, secondValued.divisors⟩, ?_⟩
  rw [value, conditionValued.value_eq, firstValued.value_eq, secondValued.value_eq]
  by_cases zero : conditionWord = 0
  · rw [if_pos zero, if_pos ((toInt_eq_zero_iff _).mpr zero)]
  · rw [if_neg zero, if_neg (mt (toInt_eq_zero_iff _).mp zero)]

end Expression

/-! ## What is read derives -/

/-- A beginning of the tokens derives an expression of the given value, and the
rest is left. -/
def ReadAs (derives : List Token -> Expression -> Prop) (tokens : List Token) (word : Int64)
    (left : List Token) : Prop :=
  ∃ taken expression, tokens = taken ++ left ∧ derives taken expression ∧
    expression.HasValue word

/-- Binary operators at the start of the tokens bind weaker than the given strength. -/
def BeginsWeaker (strength : Nat) (tokens : List Token) : Prop :=
  ∀ token ∈ tokens.head?, ∀ operator ∈ BinaryOperator.ofToken? token,
    operator.precedence < strength

/-- What derives from the strongest layers derives from more of them. -/
theorem DerivesJoined.of_isSuffix {inner outer : List (List BinaryOperator)}
    {tokens : List Token} {expression : Expression} (derived : DerivesJoined inner tokens expression)
    (suffix : inner <:+ outer) : DerivesJoined outer tokens expression := by
  induction outer with
  | nil =>
      rw [List.suffix_nil] at suffix
      exact suffix ▸ derived
  | cons layer more ih =>
      rcases List.suffix_cons_iff.mp suffix with equal | within
      · exact equal ▸ derived
      · exact .stronger (ih within)

/-- Every binary operator belongs to a layer. -/
theorem exists_layer (operator : BinaryOperator) :
    ∃ (layer : List BinaryOperator) (more : List (List BinaryOperator)),
      layer :: more <:+ layers ∧ operator ∈ layer := by
  have split : (layers.drop (operator.precedence - 1)).headD [] ::
      layers.drop operator.precedence = layers.drop (operator.precedence - 1) := by
    cases operator <;> rfl
  refine ⟨_, _, split ▸ List.drop_suffix _ layers, ?_⟩
  cases operator <;> decide

theorem BinaryOperator.precedence_le (operator : BinaryOperator) : operator.precedence ≤ 10 := by
  cases operator <;> decide

theorem isOperand_of_operand {token : Token} {word : Int64} (valid : operand token = .ok word) :
    IsOperand token := by
  unfold operand at valid
  unfold IsOperand
  cases kind : token.kind <;> simp [kind] at valid ⊢

mutual

/-- What the reader of operands takes is an operand. -/
theorem readUnary_readAs {tokens left : List Token} {word : Int64}
    (read : readUnary tokens = .ok (word, left)) : ReadAs DerivesPrefixed tokens word left := by
  match tokens with
  | [] =>
      rw [readUnary_nil] at read
      cases read
  | token :: rest =>
      rw [readUnary_cons] at read
      cases prefixing : UnaryOperator.ofToken? token with
      | some operator =>
          rw [prefixing] at read
          rcases exists_of_bind_eq_ok read with ⟨⟨inner, innerLeft⟩, innerRead, result⟩
          cases result
          rcases readUnary_readAs innerRead with ⟨taken, expression, rfl, derived, valued⟩
          exact ⟨token :: taken, .prefixed operator expression, rfl,
            .operator (UnaryOperator.ofToken?_eq_some_iff.mp prefixing) derived,
            valued.prefixed operator⟩
      | none =>
          rw [prefixing] at read
          by_cases parenthesis : token.isPunctuator "(" = true
          · simp only [parenthesis, if_true] at read
            rcases exists_of_bind_eq_ok read with ⟨⟨inner, innerLeft⟩, innerRead, closes⟩
            rcases exists_of_bind_eq_ok closes with ⟨closed, closedRead, result⟩
            cases result
            rcases afterPunctuator_eq_ok_iff.mp closedRead with ⟨closing, rfl, matching⟩
            rcases readConditional_readAs innerRead with ⟨taken, expression, rfl, derived, valued⟩
            exact ⟨token :: (taken ++ [closing]), expression, by simp,
              .parentheses parenthesis derived matching, valued⟩
          · simp only [parenthesis, Bool.false_eq_true, if_false] at read
            rcases exists_of_bind_eq_ok read with ⟨value, valid, result⟩
            cases result
            exact ⟨[token], .leaf token, rfl, .leaf (isOperand_of_operand valid),
              Expression.hasValue_leaf valid⟩
termination_by 4 * tokens.length
decreasing_by all_goals (simp only [List.length_cons]; omega)

/-- What the reader of binary operators takes is joined by operators that are strong
enough, and all of these that stand there. -/
theorem readBinary_readAs {strongest : List (List BinaryOperator)} (last : strongest <:+ layers)
    {tokens left : List Token} {word : Int64}
    (read : readBinary (level strongest) tokens = .ok (word, left)) :
    ReadAs (DerivesJoined strongest) tokens word left ∧ BeginsWeaker (level strongest) left := by
  rw [readBinary_eq] at read
  rcases exists_of_bind_eq_ok read with ⟨⟨first, firstLeft⟩, firstRead, joined⟩
  have shorter := left_length_lt firstRead
  rcases readUnary_readAs firstRead with ⟨taken, expression, split, derived, valued⟩
  have unlimited : BeginsWeaker (level [] + 1) firstLeft := by
    intro token _ operator _
    have bounded := operator.precedence_le
    exact Nat.lt_of_le_of_lt bounded (by decide)
  rcases readOperators_readAs last List.nil_suffix (.operand derived) valued unlimited joined
    with ⟨⟨more, whole, moreSplit, wholeDerived, wholeValued⟩, stops⟩
  exact ⟨⟨taken ++ more, whole, by rw [split, moreSplit, List.append_assoc], wholeDerived,
    wholeValued⟩, stops⟩
termination_by 4 * tokens.length + 2
decreasing_by all_goals omega

/-- The loop over binary operators goes on from what it has joined. -/
theorem readOperators_readAs {strongest inner : List (List BinaryOperator)}
    (last : strongest <:+ layers) (within : inner <:+ strongest) {before tokens left : List Token}
    {expression : Expression} {value word : Int64} (derived : DerivesJoined inner before expression)
    (valued : expression.HasValue value) (weaker : BeginsWeaker (level inner + 1) tokens)
    (read : readOperators (level strongest) value tokens = .ok (word, left)) :
    (∃ taken expression, tokens = taken ++ left ∧
      DerivesJoined strongest (before ++ taken) expression ∧ expression.HasValue word) ∧
      BeginsWeaker (level strongest) left := by
  have stopped (stops : BeginsWeaker (level strongest) tokens)
      (same : (Except.ok (value, tokens) : Result) = .ok (word, left)) :
      (∃ taken expression, tokens = taken ++ left ∧
        DerivesJoined strongest (before ++ taken) expression ∧ expression.HasValue word) ∧
        BeginsWeaker (level strongest) left := by
    cases same
    exact ⟨⟨[], expression, rfl, by simpa using derived.of_isSuffix within, valued⟩, stops⟩
  match tokens with
  | [] =>
      rw [readOperators_nil] at read
      exact stopped (by intro token member; cases member) read
  | token :: rest =>
      rw [readOperators_cons] at read
      cases found : BinaryOperator.ofToken? token with
      | none =>
          rw [found] at read
          refine stopped ?_ read
          intro other member operator operatorFound
          cases member
          rw [found] at operatorFound
          cases operatorFound
      | some operator =>
          rw [found] at read
          by_cases tooWeak : operator.precedence < level strongest
          · simp only [tooWeak, if_true] at read
            refine stopped ?_ read
            intro other member otherOperator operatorFound
            cases member
            rw [found] at operatorFound
            cases operatorFound
            exact tooWeak
          · simp only [tooWeak, if_false] at read
            rcases exists_of_bind_eq_ok read with ⟨⟨second, secondLeft⟩, secondRead, goesOn⟩
            rcases exists_of_bind_eq_ok goesOn with ⟨applied, appliedValue, restRead⟩
            rcases exists_layer operator with ⟨layer, more, layerLast, member⟩
            have strength := (mem_layer_iff layerLast operator).mp member
            have notStronger := weaker token rfl operator found
            -- the operator's layer lies between that of what is joined and the weakest one wanted
            have layerWithin : layer :: more <:+ strongest :=
              isSuffix_of_level_le layerLast last (by omega)
            have innerWithin : inner <:+ layer :: more :=
              isSuffix_of_level_le (within.trans last) layerLast (by omega)
            rw [strength, ← level_cons layerLast] at secondRead
            have shorter := left_length_lt secondRead
            rcases readBinary_readAs ((List.suffix_cons layer more).trans layerLast) secondRead
              with ⟨⟨taken, right, rfl, rightDerived, rightValued⟩, stops⟩
            rw [level_cons layerLast] at stops
            rcases readOperators_readAs last layerWithin
              (.join (derived.of_isSuffix innerWithin) member
                (BinaryOperator.ofToken?_eq_some_iff.mp found) rightDerived)
              (valued.joined rightValued appliedValue) stops restRead
              with ⟨⟨others, whole, rfl, wholeDerived, wholeValued⟩, stopsAfter⟩
            exact ⟨⟨token :: (taken ++ others), whole, by simp, by simpa using wholeDerived,
              wholeValued⟩, stopsAfter⟩
termination_by 4 * tokens.length + 1
decreasing_by all_goals (simp only [List.length_cons] at *; omega)

/-- What the reader of conditions takes is a condition. -/
theorem readConditional_readAs {tokens left : List Token} {word : Int64}
    (read : readConditional tokens = .ok (word, left)) :
    ReadAs DerivesConditional tokens word left := by
  rw [readConditional_eq] at read
  rcases exists_of_bind_eq_ok read with ⟨⟨condition, conditionLeft⟩, conditionRead, goesOn⟩
  have conditionShorter := left_length_lt conditionRead
  rcases readBinary_readAs (List.suffix_refl layers) conditionRead with
    ⟨⟨taken, expression, split, derived, valued⟩, _⟩
  match conditionLeft with
  | [] =>
      cases goesOn
      exact ⟨taken, expression, split, .joined derived, valued⟩
  | token :: rest =>
      by_cases question : token.isPunctuator "?" = true
      · simp only [question, if_true] at goesOn
        rcases exists_of_bind_eq_ok goesOn with ⟨⟨first, firstLeft⟩, firstRead, separates⟩
        rcases exists_of_bind_eq_ok separates with ⟨separated, separatedRead, ends⟩
        rcases exists_of_bind_eq_ok ends with ⟨⟨second, secondLeft⟩, secondRead, result⟩
        cases result
        have firstShorter := left_length_lt firstRead
        rcases afterPunctuator_eq_ok_iff.mp separatedRead with ⟨colon, rfl, matching⟩
        rcases readConditional_readAs firstRead with
          ⟨firstTaken, firstExpression, firstSplit, firstDerived, firstValued⟩
        rcases readConditional_readAs secondRead with
          ⟨secondTaken, secondExpression, secondSplit, secondDerived, secondValued⟩
        refine ⟨_, _, ?_, .choice derived question firstDerived matching secondDerived,
          valued.choice firstValued secondValued⟩
        rw [split, firstSplit, secondSplit]
        simp
      · simp only [question, Bool.false_eq_true, if_false] at goesOn
        cases goesOn
        exact ⟨taken, expression, split, .joined derived, valued⟩
termination_by 4 * tokens.length + 3
decreasing_by all_goals (simp only [List.length_cons] at *; omega)

end

/-! ## What derives is read -/

/-- A property of expressions that the constructors preserve, as far as their leaves
and operators are among the tokens. -/
structure PreservedBy (tokens : List Token) (property : Expression -> Prop) : Prop where
  leaf : ∀ token ∈ tokens, IsOperand token -> property (.leaf token)
  prefixed : ∀ operator operand, property operand -> property (.prefixed operator operand)
  joined : ∀ token ∈ tokens, ∀ operator left right, token.isPunctuator operator.symbol = true ->
    property left -> property right -> property (.joined operator left right)
  choice : ∀ condition first second, property condition -> property first -> property second ->
    property (.choice condition first second)

theorem PreservedBy.of_subset {tokens fewer : List Token} {property : Expression -> Prop}
    (preserved : PreservedBy tokens property) (subset : fewer ⊆ tokens) :
    PreservedBy fewer property where
  leaf token member := preserved.leaf token (subset member)
  prefixed := preserved.prefixed
  joined token member := preserved.joined token (subset member)
  choice := preserved.choice

mutual

/-- The leaves and operators of an expression are among the tokens it derives from. -/
theorem DerivesConditional.property {tokens : List Token} {expression : Expression}
    {property : Expression -> Prop} (derived : DerivesConditional tokens expression)
    (preserved : PreservedBy tokens property) : property expression := by
  match derived with
  | .joined inner => exact inner.property preserved
  | .choice condition _ first _ second =>
      apply preserved.choice
      · exact condition.property (preserved.of_subset (by simp))
      · exact first.property (preserved.of_subset fun token member => by simp [member])
      · exact second.property (preserved.of_subset fun token member => by simp [member])

theorem DerivesJoined.property {strongest : List (List BinaryOperator)} {tokens : List Token}
    {expression : Expression} {property : Expression -> Prop}
    (derived : DerivesJoined strongest tokens expression)
    (preserved : PreservedBy tokens property) : property expression := by
  match derived with
  | .operand inner => exact inner.property preserved
  | .stronger inner => exact inner.property preserved
  | .join left _ symbol right =>
      apply preserved.joined _ (by simp) _ _ _ symbol
      · exact left.property (preserved.of_subset (by simp))
      · exact right.property (preserved.of_subset fun token member => by simp [member])

theorem DerivesPrefixed.property {tokens : List Token} {expression : Expression}
    {property : Expression -> Prop} (derived : DerivesPrefixed tokens expression)
    (preserved : PreservedBy tokens property) : property expression := by
  match derived with
  | .operator _ inner =>
      apply preserved.prefixed
      exact inner.property (preserved.of_subset (List.subset_cons_self _ _))
  | .parentheses _ inner _ =>
      exact inner.property (preserved.of_subset fun token member => by simp [member])
  | .leaf isOperand => exact preserved.leaf _ List.mem_cons_self isOperand

end

theorem DerivesConditional.leavesValid {tokens : List Token} {expression : Expression}
    (derived : DerivesConditional tokens expression)
    (valid : ∀ token ∈ tokens, IsOperand token -> ∃ word, operand token = .ok word) :
    expression.LeavesValid :=
  derived.property
    { leaf := valid
      prefixed := fun _ _ operandValid => operandValid
      joined := fun _ _ _ _ _ _ leftValid rightValid => ⟨leftValid, rightValid⟩
      choice := fun _ _ _ conditionValid firstValid secondValid =>
        ⟨conditionValid, firstValid, secondValid⟩ }

/-- Where no token is a division, there is no divisor. -/
theorem DerivesConditional.divisorsNonzero {tokens : List Token} {expression : Expression}
    (derived : DerivesConditional tokens expression)
    (noDivision : ∀ token ∈ tokens, ∀ operator ∈ BinaryOperator.ofToken? token,
      operator.isDivision = false) : expression.DivisorsNonzero :=
  derived.property
    { leaf := fun _ _ _ => trivial
      prefixed := fun _ _ operandNonzero => operandNonzero
      joined := fun token member operator _ _ symbol leftNonzero rightNonzero =>
        ⟨leftNonzero, rightNonzero, fun division => by
          have found := BinaryOperator.ofToken?_eq_some_iff.mpr symbol
          rw [noDivision token member operator found] at division
          cases division⟩
      choice := fun _ _ _ conditionNonzero firstNonzero secondNonzero =>
        ⟨conditionNonzero, firstNonzero, secondNonzero⟩ }

/-- The loop over binary operators stops before operators that are too weak. -/
theorem readOperators_of_beginsWeaker {least : Nat} {tokens : List Token} (word : Int64)
    (weaker : BeginsWeaker least tokens) :
    readOperators least word tokens = .ok (word, tokens) := by
  cases tokens with
  | nil => exact readOperators_nil least word
  | cons token rest =>
      rw [readOperators_cons]
      cases found : BinaryOperator.ofToken? token with
      | none => rfl
      | some operator => exact if_pos (weaker token rfl operator found)

/-- What follows cannot extend a condition. -/
def EndsCondition (tokens : List Token) : Prop :=
  ∀ token ∈ tokens.head?, BinaryOperator.ofToken? token = none ∧ token.isPunctuator "?" = false

theorem EndsCondition.beginsWeaker {tokens : List Token} (ends : EndsCondition tokens)
    (strength : Nat) : BeginsWeaker strength tokens := by
  intro token member operator found
  rw [(ends token member).1] at found
  cases found

/-- A punctuator that is no operator on two or three operands ends a condition. -/
theorem endsCondition_cons {token : Token} {text : String} (rest : List Token)
    (punctuator : token.isPunctuator text = true)
    (noOperator : BinaryOperator.spellings.lookup text = none) (noQuestion : text ≠ "?") :
    EndsCondition (token :: rest) := by
  intro other member
  cases member
  refine ⟨BinaryOperator.ofToken?_eq_none punctuator noOperator, ?_⟩
  rw [Bool.eq_false_iff]
  intro question
  have same := (isPunctuator_eq_true_iff.mp punctuator).2
  exact noQuestion (same.symm.trans (isPunctuator_eq_true_iff.mp question).2)

/-! ### Every operand is evaluated -/

/-- The word that an expression comes to, or the first fault, where all operands are
evaluated from left to right. -/
def Expression.result : Expression -> Except Fault Int64
  | leaf token => operand token
  | prefixed operator inner => do
    let word <- inner.result
    .ok (operator.apply word)
  | joined operator left right => do
    let first <- left.result
    let second <- right.result
    operator.apply first second
  | choice condition first second => do
    let conditionWord <- condition.result
    let firstWord <- first.result
    let secondWord <- second.result
    .ok (if conditionWord = 0 then secondWord else firstWord)

/-- An expression has a result if its literals have values and no divisor in it is zero. -/
theorem Expression.exists_result {expression : Expression} (leaves : expression.LeavesValid)
    (divisors : expression.DivisorsNonzero) :
    ∃ word, expression.result = .ok word ∧ expression.HasValue word := by
  induction expression with
  | leaf token =>
      rcases leaves with ⟨word, valid⟩
      exact ⟨word, valid, hasValue_leaf valid⟩
  | prefixed operator inner ih =>
      rcases ih leaves divisors with ⟨word, innerResult, valued⟩
      refine ⟨operator.apply word, ?_, valued.prefixed operator⟩
      rw [result, innerResult]
      rfl
  | joined operator left right leftIh rightIh =>
      rcases leftIh leaves.1 divisors.1 with ⟨first, leftResult, leftValued⟩
      rcases rightIh leaves.2 divisors.2.1 with ⟨second, rightResult, rightValued⟩
      rcases operator.exists_apply_eq_ok first second
        (fun division => rightValued.value_eq ▸ divisors.2.2 division) with ⟨word, applied, _⟩
      refine ⟨word, ?_, leftValued.joined rightValued applied⟩
      rw [result, leftResult, rightResult]
      exact applied
  | choice condition first second conditionIh firstIh secondIh =>
      rcases conditionIh leaves.1 divisors.1 with ⟨conditionWord, conditionResult, conditionValued⟩
      rcases firstIh leaves.2.1 divisors.2.1 with ⟨firstWord, firstResult, firstValued⟩
      rcases secondIh leaves.2.2 divisors.2.2 with ⟨secondWord, secondResult, secondValued⟩
      refine ⟨_, ?_, conditionValued.choice firstValued secondValued⟩
      rw [result, conditionResult, firstResult, secondResult]
      rfl

mutual

/-- An operand is read, whatever follows. -/
theorem DerivesPrefixed.readUnary_append {tokens : List Token} {expression : Expression}
    (derived : DerivesPrefixed tokens expression) (rest : List Token) :
    readUnary (tokens ++ rest) = expression.result >>= fun word => .ok (word, rest) := by
  match derived with
  | @DerivesPrefixed.operator _ _ _ operand symbol inner =>
      rw [List.cons_append, readUnary_cons, UnaryOperator.ofToken?_eq_some_iff.mpr symbol]
      simp only
      rw [inner.readUnary_append rest, Expression.result]
      cases operand.result <;> rfl
  | @DerivesPrefixed.parentheses opening closing _ _ opens inner closes =>
      have noPrefix : UnaryOperator.ofToken? opening = none := by
        rcases isPunctuator_eq_true_iff.mp opens with ⟨kind, text⟩
        rw [UnaryOperator.ofToken?, if_pos kind, text]
        rfl
      rw [List.cons_append, readUnary_cons, noPrefix, List.append_assoc, List.singleton_append]
      simp only [opens, if_true]
      rw [inner.readConditional_append (endsCondition_cons rest closes rfl (by decide))]
      cases expression.result with
      | error fault => rfl
      | ok word =>
          change afterPunctuator ")" (closing :: rest) >>= _ = _
          rw [afterPunctuator_eq_ok_iff.mpr ⟨closing, rfl, closes⟩]
          rfl
  | @DerivesPrefixed.leaf token isOperand =>
      have noPunctuator : token.kind ≠ .punctuator := by
        rcases isOperand with kind | kind | kind <;> rw [kind] <;> decide
      have noPrefix : UnaryOperator.ofToken? token = none := if_neg noPunctuator
      have noParenthesis : ¬ token.isPunctuator "(" = true :=
        fun parenthesis => noPunctuator (isPunctuator_eq_true_iff.mp parenthesis).1
      rw [List.singleton_append, readUnary_cons, noPrefix]
      simp only [noParenthesis, Bool.false_eq_true, if_false]
      rfl

/-- Operands joined by operators are read up to what binds weaker. -/
theorem DerivesJoined.readBinary_append {strongest : List (List BinaryOperator)}
    {tokens : List Token} {expression : Expression}
    (derived : DerivesJoined strongest tokens expression) (last : strongest <:+ layers)
    {least : Nat} (bounded : least ≤ level strongest) {rest : List Token}
    (weaker : BeginsWeaker (level strongest + 1) rest) :
    readBinary least (tokens ++ rest) =
      expression.result >>= fun word => readOperators least word rest := by
  match derived with
  | .operand inner =>
      rw [readBinary_eq, inner.readUnary_append rest]
      cases expression.result <;> rfl
  | @DerivesJoined.stronger layer more _ _ inner =>
      have moreLast := (List.suffix_cons layer more).trans last
      have next := level_cons last
      exact inner.readBinary_append moreLast (by omega) (fun token member operator found =>
        Nat.lt_of_lt_of_le (weaker token member operator found) (by omega))
  | @DerivesJoined.join layer more _ after token operator left right leftDerived member symbol
      rightDerived =>
      have moreLast := (List.suffix_cons layer more).trans last
      have strength := (mem_layer_iff last operator).mp member
      have found := BinaryOperator.ofToken?_eq_some_iff.mpr symbol
      have leftEnds : BeginsWeaker (level (layer :: more) + 1) (token :: (after ++ rest)) := by
        intro other otherMember otherOperator otherFound
        cases otherMember
        rw [found] at otherFound
        cases otherFound
        omega
      have rightRead : readBinary (operator.precedence + 1) (after ++ rest) =
          right.result >>= fun word => .ok (word, rest) := by
        rw [strength, ← level_cons last]
        rw [← level_cons last] at weaker
        rw [rightDerived.readBinary_append moreLast (Nat.le_refl _)
          (fun token member operator found =>
            Nat.lt_succ_of_lt (weaker token member operator found))]
        simp only [readOperators_of_beginsWeaker _ weaker]
      rw [List.append_assoc, List.cons_append, leftDerived.readBinary_append last bounded leftEnds,
        Expression.result]
      cases left.result with
      | error fault => rfl
      | ok first =>
          change readOperators least first (token :: (after ++ rest)) = _
          rw [readOperators_cons, found]
          simp only [show ¬ operator.precedence < least by omega, if_false]
          rw [rightRead]
          cases right.result <;> rfl

/-- A condition is read up to what cannot extend it. -/
theorem DerivesConditional.readConditional_append {tokens : List Token} {expression : Expression}
    (derived : DerivesConditional tokens expression) {rest : List Token}
    (ends : EndsCondition rest) :
    readConditional (tokens ++ rest) = expression.result >>= fun word => .ok (word, rest) := by
  match derived with
  | .joined inner =>
      rw [readConditional_eq, inner.readBinary_append (List.suffix_refl layers) (by decide)
        (ends.beginsWeaker _)]
      simp only [readOperators_of_beginsWeaker _ (ends.beginsWeaker 1)]
      cases expression.result with
      | error fault => rfl
      | ok word =>
          cases rest with
          | nil => rfl
          | cons token more =>
              exact if_neg (by rw [(ends token rfl).2]; exact Bool.false_ne_true)
  | @DerivesConditional.choice _ first second question colon condition firstChoice secondChoice
      conditionDerived asks firstDerived separates secondDerived =>
      have atQuestion : ∀ strength,
          BeginsWeaker strength (question :: (first ++ colon :: (second ++ rest))) := by
        intro strength other member operator found
        cases member
        rw [BinaryOperator.ofToken?_eq_none asks rfl] at found
        cases found
      rw [List.append_assoc, List.cons_append, List.append_assoc, List.cons_append,
        readConditional_eq, conditionDerived.readBinary_append (List.suffix_refl layers) (by decide)
          (atQuestion _), Expression.result]
      simp only [readOperators_of_beginsWeaker _ (atQuestion 1)]
      cases condition.result with
      | error fault => rfl
      | ok conditionWord =>
          refine (if_pos asks).trans ?_
          rw [firstDerived.readConditional_append (endsCondition_cons _ separates rfl (by decide))]
          cases firstChoice.result with
          | error fault => rfl
          | ok firstWord =>
              change afterPunctuator ":" (colon :: (second ++ rest)) >>= _ = _
              rw [afterPunctuator_eq_ok_iff.mpr ⟨colon, rfl, separates⟩]
              change readConditional (second ++ rest) >>= _ = _
              rw [secondDerived.readConditional_append ends]
              cases secondChoice.result <;> rfl

end

theorem DerivesConditional.exists_readConditional {tokens : List Token} {expression : Expression}
    (derived : DerivesConditional tokens expression) (leaves : expression.LeavesValid)
    (divisors : expression.DivisorsNonzero) :
    ∃ word, expression.HasValue word ∧ ∀ rest, EndsCondition rest ->
      readConditional (tokens ++ rest) = .ok (word, rest) := by
  rcases Expression.exists_result leaves divisors with ⟨word, result, valued⟩
  refine ⟨word, valued, ?_⟩
  intro rest ends
  rw [derived.readConditional_append ends, result]
  rfl

/-! ## Whole conditions -/

theorem valueOf_eq_ok_iff_readConditional {tokens : List Token} {word : Int64} :
    valueOf tokens = .ok word ↔ readConditional tokens = .ok (word, []) := by
  rw [valueOf, readConditional]
  cases conditional tokens with
  | error fault =>
      constructor
      · intro evaluated
        cases evaluated
      · intro read
        cases read
  | ok outcome =>
      rcases outcome with ⟨value, left, within⟩
      cases left with
      | nil =>
          constructor
          · intro evaluated
            cases evaluated
            rfl
          · intro read
            cases read
            rfl
      | cons token rest =>
          constructor
          · intro evaluated
            cases evaluated
          · intro read
            cases read

/-- A list of tokens has a value exactly when it derives as a whole and the
expression has that value. -/
theorem valueOf_eq_ok_iff {tokens : List Token} {word : Int64} :
    valueOf tokens = .ok word ↔
      ∃ expression, DerivesConditional tokens expression ∧ expression.HasValue word := by
  rw [valueOf_eq_ok_iff_readConditional]
  constructor
  · intro read
    rcases readConditional_readAs read with ⟨taken, expression, split, derived, valued⟩
    rw [List.append_nil] at split
    exact ⟨expression, split ▸ derived, valued⟩
  · rintro ⟨expression, derived, valued⟩
    rcases derived.exists_readConditional valued.leaves valued.divisors with
      ⟨same, sameValued, reads⟩
    have read := reads [] (by intro token member; cases member)
    have equal : same = word :=
      Int64.toInt_inj.mp (sameValued.value_eq.symm.trans valued.value_eq)
    rw [List.append_nil, equal] at read
    exact read

/-- A condition that derives from the grammar has the value of the expression, or the same
fault. -/
theorem DerivesConditional.valueOf_eq {tokens : List Token} {expression : Expression}
    (derived : DerivesConditional tokens expression) : valueOf tokens = expression.result := by
  have ends : EndsCondition [] := by
    intro token member
    cases member
  have read := derived.readConditional_append ends
  rw [List.append_nil, readConditional] at read
  rw [valueOf]
  cases outcome : conditional tokens with
  | error fault =>
      rw [outcome] at read
      cases result : expression.result with
      | error other =>
          rw [result] at read
          cases read
          rfl
      | ok word =>
          rw [result] at read
          cases read
  | ok taken =>
      rcases taken with ⟨value, left, within⟩
      rw [outcome] at read
      cases result : expression.result with
      | error other =>
          rw [result] at read
          cases read
      | ok word =>
          rw [result] at read
          cases read
          rfl

theorem DerivesPrefixed.ne_nil {tokens : List Token} {expression : Expression}
    (derived : DerivesPrefixed tokens expression) : tokens ≠ [] := by
  cases derived <;> exact List.cons_ne_nil _ _

theorem DerivesJoined.ne_nil {strongest : List (List BinaryOperator)} {tokens : List Token}
    {expression : Expression} (derived : DerivesJoined strongest tokens expression) :
    tokens ≠ [] := by
  match derived with
  | .operand inner => exact inner.ne_nil
  | .stronger inner => exact inner.ne_nil
  | .join .. => simp

theorem DerivesConditional.ne_nil {tokens : List Token} {expression : Expression}
    (derived : DerivesConditional tokens expression) : tokens ≠ [] := by
  cases derived with
  | joined inner => exact inner.ne_nil
  | choice => simp

/-- Where nothing is asked about and no macro is named, only blanks are taken out of a
condition. -/
theorem evaluate_of_unchanged {table : Macro.Table} {tokens : List Token}
    (noDefined : ∀ token ∈ tokens, token.isName "defined" = false)
    (noMacro : ∀ token ∈ tokens, token.isIdentifier = true -> table.find? token.lexeme = none) :
    evaluate table tokens =
      match significant tokens with
      | [] => .error .noExpression
      | present => valueOf present := by
  have answered : answerDefined table tokens = .ok tokens := by
    clear noMacro
    induction tokens with
    | nil => rw [answerDefined]
    | cons token rest ih =>
        rw [answerDefined, noDefined token List.mem_cons_self,
          ih fun other member => noDefined other (List.mem_cons_of_mem _ member)]
        rfl
  rw [evaluate, answered]
  change (match (Macro.expand table tokens).filter (! ·.isBlank) with
    | [] => _
    | present => valueOf present) = _
  rw [Macro.expand_eq_self noMacro]
  rfl

/-- A condition without names has the same value under all macros. -/
theorem DerivesConditional.evaluate_eq {tokens : List Token} {expression : Expression}
    (derived : DerivesConditional (significant tokens) expression)
    (nameless : ∀ token ∈ tokens, token.isIdentifier = false) (table : Macro.Table) :
    evaluate table tokens = expression.result := by
  have noDefined : ∀ token ∈ tokens, token.isName "defined" = false := by
    intro token member
    rw [Token.isName, Bool.and_eq_false_iff]
    exact .inl (nameless token member)
  have noMacro : ∀ token ∈ tokens, token.isIdentifier = true ->
      table.find? token.lexeme = none := by
    intro token member isName
    rw [nameless token member] at isName
    cases isName
  rw [evaluate_of_unchanged noDefined noMacro, ← derived.valueOf_eq]
  cases present : significant tokens with
  | nil => exact absurd present derived.ne_nil
  | cons token rest => rfl

/-- A condition that consists of a literal has the value of the literal. -/
theorem evaluate_literal {token : Token}
    (literal : token.kind = .number ∨ token.kind = .charLiteral) (table : Macro.Table) :
    evaluate table [token] = operand token := by
  have isOperand : IsOperand token := literal.imp_right .inl
  have present : token.isBlank = false ∧ token.isIdentifier = false := by
    rw [Token.isBlank, Token.isIdentifier]
    rcases literal with kind | kind <;> rw [kind] <;> exact ⟨rfl, rfl⟩
  have derived : DerivesConditional (significant [token]) (.leaf token) := by
    rw [significant, List.filter_singleton, present.1]
    have alone : DerivesJoined [] [token] (.leaf token) := .operand (.leaf isOperand)
    exact .joined (alone.of_isSuffix List.nil_suffix)
  exact derived.evaluate_eq (fun _ member => List.mem_singleton.mp member ▸ present.2) table

/-- Without macros and without `defined`, only blanks are taken out of a condition. -/
theorem evaluate_empty {tokens : List Token}
    (noDefined : ∀ token ∈ tokens, token.isName "defined" = false) :
    evaluate .empty tokens =
      match significant tokens with
      | [] => .error .noExpression
      | present => valueOf present :=
  evaluate_of_unchanged noDefined fun token _ _ => Macro.Table.find?_empty token.lexeme

theorem evaluate_empty_eq_ok_iff {tokens : List Token} {word : Int64}
    (noDefined : ∀ token ∈ tokens, token.isName "defined" = false) :
    evaluate .empty tokens = .ok word ↔ valueOf (significant tokens) = .ok word := by
  rw [evaluate_empty noDefined]
  cases significant tokens with
  | nil =>
      constructor
      · intro evaluated
        cases evaluated
      · intro evaluated
        rcases exists_of_bind_eq_ok evaluated with ⟨outcome, _, _⟩
        exact absurd outcome.within (Nat.not_lt_zero _)
  | cons token rest => exact Iff.rfl

/-- A condition without macros and without `defined` has a value exactly when what is
not blank in it derives from the grammar, provided that its literals have values and
that no divisor in it is zero.  The value is that of the expression derived, computed
modulo 2^64 on signed integers. -/
theorem evaluate_empty_iff_derivesConditional (tokens : List Token)
    (noDefined : ∀ token ∈ tokens, token.isName "defined" = false)
    (validOperands : ∀ token ∈ tokens, IsOperand token -> ∃ word, operand token = .ok word)
    (nonzeroDivisors : ∀ expression, DerivesConditional (significant tokens) expression ->
      expression.DivisorsNonzero) :
    ((∃ word, evaluate .empty tokens = .ok word) ↔
        ∃ expression, DerivesConditional (significant tokens) expression) ∧
      ∀ expression, DerivesConditional (significant tokens) expression ->
        ∃ word, evaluate .empty tokens = .ok word ∧ word.toInt = expression.value := by
  have evaluates : ∀ expression, DerivesConditional (significant tokens) expression ->
      ∃ word, evaluate .empty tokens = .ok word ∧ word.toInt = expression.value := by
    intro expression derived
    have leaves : expression.LeavesValid := derived.leavesValid fun token member =>
      validOperands token (List.mem_filter.mp member).1
    rcases derived.exists_readConditional leaves (nonzeroDivisors expression derived) with
      ⟨word, valued, _⟩
    refine ⟨word, ?_, valued.value_eq.symm⟩
    rw [evaluate_empty_eq_ok_iff noDefined, valueOf_eq_ok_iff]
    exact ⟨expression, derived, valued⟩
  refine ⟨?_, evaluates⟩
  constructor
  · rintro ⟨word, evaluated⟩
    rw [evaluate_empty_eq_ok_iff noDefined, valueOf_eq_ok_iff] at evaluated
    rcases evaluated with ⟨expression, derived, _⟩
    exact ⟨expression, derived⟩
  · rintro ⟨expression, derived⟩
    rcases evaluates expression derived with ⟨word, evaluated, _⟩
    exact ⟨word, evaluated⟩

/-- Subtraction groups to the left, a shift by 65 is one by 1, and names stand for
zero. -/
def shifted : List Token :=
  tokenize "10 - 4 - 3 << 65 == 6 ? -1 : (x)"

theorem evaluate_empty_shifted :
    (∀ token ∈ shifted, token.isName "defined" = false) ∧
      (∀ token ∈ shifted, IsOperand token -> ∃ word, operand token = .ok word) ∧
      (∀ expression, DerivesConditional (significant shifted) expression ->
        expression.DivisorsNonzero) ∧
      ∃ expression, DerivesConditional (significant shifted) expression ∧
        expression.value = -1 := by
  have noDefined : ∀ token ∈ shifted, token.isName "defined" = false := by decide +kernel
  have readable : ∀ token ∈ shifted, IsOperand token -> (operand token).toOption.isSome := by
    unfold IsOperand
    decide +kernel
  have validOperands : ∀ token ∈ shifted, IsOperand token -> ∃ word, operand token = .ok word := by
    intro token member isOperand
    have some := readable token member isOperand
    cases valid : operand token with
    | error fault => rw [valid] at some; cases some
    | ok word => exact ⟨word, rfl⟩
  have noDivision : ∀ token ∈ significant shifted, ∀ operator ∈ BinaryOperator.ofToken? token,
      operator.isDivision = false := by decide +kernel
  have nonzeroDivisors : ∀ expression, DerivesConditional (significant shifted) expression ->
      expression.DivisorsNonzero :=
    fun expression derived => derived.divisorsNonzero noDivision
  have computed : (evaluate .empty shifted).toOption = some (-1) := by decide +kernel
  have evaluated : evaluate .empty shifted = .ok (-1) := by
    cases outcome : evaluate .empty shifted with
    | error fault => rw [outcome] at computed; cases computed
    | ok word => rw [outcome] at computed; cases computed; rfl
  rcases evaluate_empty_iff_derivesConditional shifted noDefined validOperands nonzeroDivisors with
    ⟨accepts, values⟩
  rcases accepts.mp ⟨-1, evaluated⟩ with ⟨expression, derived⟩
  rcases values expression derived with ⟨word, again, agrees⟩
  rw [evaluated] at again
  cases again
  exact ⟨noDefined, validOperands, nonzeroDivisors, expression, derived, agrees.symm⟩

end Condition
end ObjectWrapper
