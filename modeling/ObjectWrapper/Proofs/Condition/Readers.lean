import ObjectWrapper.Proofs.Condition.Grammar

namespace ObjectWrapper
namespace Condition

open Source

/-!
# Readers of conditions, bounds apart

The readers of conditions return bounds on what they leave, which only serve to
show that they end.  Without the bounds each reader is given by one equation in
terms of the others, and these equations are all that the grammar is compared with.
-/

/-- The value and the tokens left, or the fault. -/
abbrev Result := Except Fault (Int64 × List Token)

/-- A result without its bound. -/
def unbounded {limit : Nat} (result : Except Fault (Outcome limit)) : Result :=
  result.map fun outcome => (outcome.value, outcome.left)

/-- The tokens after a punctuator. -/
def afterPunctuator (punctuator : String) (tokens : List Token) : Except Fault (List Token) :=
  (expect punctuator tokens).map Subtype.val

def readConditional (tokens : List Token) : Result :=
  unbounded (conditional tokens)

def readBinary (least : Nat) (tokens : List Token) : Result :=
  unbounded (binary least tokens)

def readOperators (least : Nat) (value : Int64) (tokens : List Token) : Result :=
  unbounded (operators least value tokens)

def readUnary (tokens : List Token) : Result :=
  unbounded (unary tokens)

/-- Steps before a result do not depend on its bound. -/
theorem unbounded_bind {α : Type} {limit : Nat} (first : Except Fault α)
    (next : α -> Except Fault (Outcome limit)) :
    unbounded (first >>= next) = first >>= fun outcome => unbounded (next outcome) := by
  cases first <;> rfl

theorem readConditional_eq (tokens : List Token) :
    readConditional tokens = (do
      let condition <- readBinary 1 tokens
      match condition.2 with
      | [] => .ok condition
      | token :: rest =>
        if token.isPunctuator "?" then do
          let first <- readConditional rest
          let separated <- afterPunctuator ":" first.2
          let second <- readConditional separated
          .ok (if condition.1 = 0 then second.1 else first.1, second.2)
        else .ok condition) := by
  rw [readConditional, conditional, unbounded_bind, readBinary]
  cases binary 1 tokens with
  | error fault => rfl
  | ok condition =>
      rcases condition with ⟨value, left, within⟩
      cases left with
      | nil => rfl
      | cons token rest =>
          by_cases question : token.isPunctuator "?" = true
          · change unbounded (if token.isPunctuator "?" = true then _ else _) =
              if token.isPunctuator "?" = true then _ else _
            rw [if_pos question, if_pos question, unbounded_bind, readConditional]
            cases conditional rest with
            | error fault => rfl
            | ok first =>
                change unbounded (expect ":" first.left >>= _) = afterPunctuator ":" first.left >>= _
                rw [unbounded_bind, afterPunctuator]
                cases expect ":" first.left with
                | error fault => rfl
                | ok separated =>
                    change unbounded (conditional separated.1 >>= _) =
                      readConditional separated.1 >>= _
                    rw [unbounded_bind, readConditional]
                    cases conditional separated.1 <;> rfl
          · change unbounded (if token.isPunctuator "?" = true then _ else _) =
              if token.isPunctuator "?" = true then _ else _
            rw [if_neg question, if_neg question]
            rfl

theorem readBinary_eq (least : Nat) (tokens : List Token) :
    readBinary least tokens =
      readUnary tokens >>= fun first => readOperators least first.1 first.2 := by
  rw [readBinary, binary, unbounded_bind, readUnary]
  cases unary tokens with
  | error fault => rfl
  | ok first =>
      change unbounded (operators least first.value first.left >>= _) =
        readOperators least first.value first.left
      rw [unbounded_bind, readOperators]
      cases operators least first.value first.left <;> rfl

theorem readOperators_nil (least : Nat) (value : Int64) :
    readOperators least value [] = .ok (value, []) := by
  rw [readOperators, operators]
  rfl

theorem readOperators_cons (least : Nat) (value : Int64) (token : Token) (rest : List Token) :
    readOperators least value (token :: rest) =
      match BinaryOperator.ofToken? token with
      | none => .ok (value, token :: rest)
      | some operator =>
        if operator.precedence < least then .ok (value, token :: rest)
        else
          readBinary (operator.precedence + 1) rest >>= fun second =>
            operator.apply value second.1 >>= fun applied =>
              readOperators least applied second.2 := by
  rw [readOperators, operators]
  cases BinaryOperator.ofToken? token with
  | none => rfl
  | some operator =>
      by_cases weaker : operator.precedence < least
      · simp only [weaker, if_true]
        rfl
      · simp only [weaker, if_false]
        rw [unbounded_bind, readBinary]
        cases binary (operator.precedence + 1) rest with
        | error fault => rfl
        | ok second =>
            change unbounded (operator.apply value second.value >>= _) =
              operator.apply value second.value >>= _
            rw [unbounded_bind]
            cases operator.apply value second.value with
            | error fault => rfl
            | ok applied =>
                change unbounded (operators least applied second.left >>= _) =
                  readOperators least applied second.left
                rw [unbounded_bind, readOperators]
                cases operators least applied second.left <;> rfl

theorem readUnary_nil : readUnary [] = .error .endsEarly := by
  rw [readUnary, unary]
  rfl

theorem readUnary_cons (token : Token) (rest : List Token) :
    readUnary (token :: rest) =
      match UnaryOperator.ofToken? token with
      | some operator =>
        readUnary rest >>= fun inner => .ok (operator.apply inner.1, inner.2)
      | none =>
        if token.isPunctuator "(" then
          readConditional rest >>= fun inner =>
            afterPunctuator ")" inner.2 >>= fun closed => .ok (inner.1, closed)
        else operand token >>= fun value => .ok (value, rest) := by
  rw [readUnary, unary]
  cases UnaryOperator.ofToken? token with
  | some operator =>
      simp only
      rw [unbounded_bind, readUnary]
      cases unary rest <;> rfl
  | none =>
      by_cases parenthesis : token.isPunctuator "(" = true
      · simp only [parenthesis, if_true]
        rw [unbounded_bind, readConditional]
        cases conditional rest with
        | error fault => rfl
        | ok inner =>
            change unbounded (expect ")" inner.left >>= _) = afterPunctuator ")" inner.left >>= _
            rw [unbounded_bind, afterPunctuator]
            cases expect ")" inner.left <;> rfl
      · simp only [parenthesis, Bool.false_eq_true, if_false]
        rw [unbounded_bind]
        cases operand token <;> rfl

/-- A reader leaves fewer tokens than it is given. -/
theorem left_length_lt {limit : Nat} {result : Except Fault (Outcome limit)} {value : Int64}
    {left : List Token} (read : unbounded result = .ok (value, left)) : left.length < limit := by
  cases result with
  | error fault => cases read
  | ok outcome =>
      cases read
      exact outcome.within

theorem afterPunctuator_cons (punctuator : String) (token : Token) (rest : List Token) :
    afterPunctuator punctuator (token :: rest) =
      if token.isPunctuator punctuator then .ok rest
      else .error (.expected punctuator token.lexeme) := by
  rw [afterPunctuator, expect]
  split <;> rfl

theorem afterPunctuator_eq_ok_iff {punctuator : String} {tokens rest : List Token} :
    afterPunctuator punctuator tokens = .ok rest ↔
      ∃ token, tokens = token :: rest ∧ token.isPunctuator punctuator = true := by
  cases tokens with
  | nil => simp [afterPunctuator, expect, Except.map]
  | cons token following =>
      rw [afterPunctuator_cons]
      constructor
      · intro found
        split at found
        · cases found
          exact ⟨token, rfl, by assumption⟩
        · cases found
      · rintro ⟨same, shape, matching⟩
        cases shape
        exact if_pos matching

end Condition
end ObjectWrapper
