import ObjectWrapper.Condition.Defined
import ObjectWrapper.Condition.Literal
import ObjectWrapper.Condition.Operator
import ObjectWrapper.Macro.Expansion

namespace ObjectWrapper
namespace Condition

open Source Macro

/-!
# Values of conditions

A condition is read from left to right and evaluated while it is read, so of
two faults the one that comes first is found, be it a token out of place or a
division by zero.  Every operand is evaluated, also those that do not matter for
the value.  Conditional operators group to the right, binary operators of equal
strength to the left.

Each reader returns the tokens it leaves together with a bound on their number,
which is what makes the readers end.
-/

/-- A value and what is left of the tokens it was read from, fewer than
`limit`. -/
structure Outcome (limit : Nat) where
  value : Int64
  left : List Token
  within : left.length < limit

/-- The same value and tokens under a greater limit. -/
def Outcome.widen {limit larger : Nat} (outcome : Outcome limit) (le : limit ≤ larger) :
    Outcome larger :=
  ⟨outcome.value, outcome.left, Nat.lt_of_lt_of_le outcome.within le⟩

/-- The tokens after the given punctuator, with which they have to begin. -/
def expect (punctuator : String) (tokens : List Token) :
    Except Fault { rest : List Token // rest.length < tokens.length } :=
  match tokens with
  | [] => .error .endsEarly
  | token :: rest =>
    if token.isPunctuator punctuator then .ok ⟨rest, Nat.lt_succ_self _⟩
    else .error (.expected punctuator token.lexeme)

/-- Whether a value is spelled as a number although it is an identifier, as the
values given on the command line are. -/
def beginsWithDigit (text : String) : Bool :=
  text.toList.head?.any Char.isDigit

/-- The value of an operand that is a single token.  Names have no value, except
that `true` holds. -/
def operand (token : Token) : Except Fault Int64 :=
  match token.kind with
  | .number => integer token.lexeme
  | .charLiteral => character token.lexeme
  | .identifier =>
    if beginsWithDigit token.lexeme then integer token.lexeme
    else .ok (truth (token.lexeme == "true"))
  | _ => .error (.unexpected token.lexeme)

mutual

/-- A condition: binary operators, possibly followed by two choices. -/
def conditional (tokens : List Token) : Except Fault (Outcome tokens.length) := do
  let condition <- binary 1 tokens
  match _shape : condition.left with
  | [] => .ok condition
  | token :: rest =>
    if token.isPunctuator "?" then
      have restBound : rest.length < tokens.length := by
        have := condition.within
        simp only [_shape, List.length_cons] at this
        omega
      let first <- conditional rest
      let separated <- expect ":" first.left
      have separatedBound : separated.1.length < tokens.length := by
        have := separated.2
        have := first.within
        omega
      let second <- conditional separated.1
      .ok ⟨if condition.value = 0 then second.value else first.value, second.left,
        Nat.lt_trans second.within separatedBound⟩
    else .ok condition
termination_by 4 * tokens.length + 3

/-- Operands joined by operators that bind at least as strongly as `least`. -/
def binary (least : Nat) (tokens : List Token) : Except Fault (Outcome tokens.length) := do
  let first <- unary tokens
  have firstBound := first.within
  let joined <- operators least first.value first.left
  .ok (joined.widen firstBound)
termination_by 4 * tokens.length + 2

/-- The operators after a first operand of the given value. -/
def operators (least : Nat) (value : Int64) (tokens : List Token) :
    Except Fault (Outcome (tokens.length + 1)) :=
  match tokens with
  | [] => .ok ⟨value, [], Nat.lt_succ_self _⟩
  | token :: rest =>
    match BinaryOperator.ofToken? token with
    | none => .ok ⟨value, token :: rest, Nat.lt_succ_self _⟩
    | some operator =>
      if operator.precedence < least then .ok ⟨value, token :: rest, Nat.lt_succ_self _⟩
      else do
        let second <- binary (operator.precedence + 1) rest
        have secondBound := second.within
        let applied <- operator.apply value second.value
        let joined <- operators least applied second.left
        .ok (joined.widen (by simp only [List.length_cons]; omega))
termination_by 4 * tokens.length + 1

/-- An operand with the operators and parentheses around it. -/
def unary (tokens : List Token) : Except Fault (Outcome tokens.length) :=
  match tokens with
  | [] => .error .endsEarly
  | token :: rest =>
    match UnaryOperator.ofToken? token with
    | some operator => do
      let inner <- unary rest
      .ok ⟨operator.apply inner.value, inner.left, Nat.lt_succ_of_lt inner.within⟩
    | none =>
      if token.isPunctuator "(" then do
        let inner <- conditional rest
        let closed <- expect ")" inner.left
        .ok ⟨inner.value, closed.1,
          Nat.lt_succ_of_lt (Nat.lt_trans closed.2 inner.within)⟩
      else do
        let value <- operand token
        .ok ⟨value, rest, Nat.lt_succ_self _⟩
termination_by 4 * tokens.length

end

/-- The value of a list of tokens without blanks, read to its end. -/
def valueOf (tokens : List Token) : Except Fault Int64 := do
  let outcome <- conditional tokens
  match outcome.left with
  | [] => .ok outcome.value
  | token :: _ => .error (.unexpected token.lexeme)

/-- The value of the tokens of a condition. -/
def evaluate (table : Table) (tokens : List Token) : Except Fault Int64 := do
  let answered <- answerDefined table tokens
  match (expand table answered).filter (! ·.isBlank) with
  | [] => .error .noExpression
  | significant => valueOf significant

end Condition
end ObjectWrapper
