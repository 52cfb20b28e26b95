import ObjectWrapper.Condition.Fault
import ObjectWrapper.Source.Token

namespace ObjectWrapper
namespace Condition

open Source

/-!
# Operators on conditions

Values are 64-bit words.  Addition, subtraction, multiplication and negation
wrap around, shift counts are taken modulo 64, and a shift to the right keeps
the sign.  Division rounds toward zero and has no value for the divisor zero;
the least word divided by minus one is itself.  Truth is the word one.
-/

/-- The word that stands for a truth value. -/
def truth (holds : Bool) : Int64 :=
  if holds then 1 else 0

/-- An operator with two operands. -/
inductive BinaryOperator where
  | times | divide | modulo
  | plus | minus
  | shiftLeft | shiftRight
  | less | greater | atMost | atLeast
  | equal | different
  | bitAnd | bitXor | bitOr
  | and | or
deriving DecidableEq, Repr

namespace BinaryOperator

/-- How strongly the operator binds its operands. -/
def precedence : BinaryOperator -> Nat
  | times | divide | modulo => 10
  | plus | minus => 9
  | shiftLeft | shiftRight => 8
  | less | greater | atMost | atLeast => 7
  | equal | different => 6
  | bitAnd => 5
  | bitXor => 4
  | bitOr => 3
  | and => 2
  | or => 1

/-- The operators and how they are written. -/
def spellings : List (String × BinaryOperator) :=
  [("*", times), ("/", divide), ("%", modulo), ("+", plus), ("-", minus), ("<<", shiftLeft),
    (">>", shiftRight), ("<", less), (">", greater), ("<=", atMost), (">=", atLeast),
    ("==", equal), ("!=", different), ("&", bitAnd), ("^", bitXor), ("|", bitOr), ("&&", and),
    ("||", or)]

/-- The operator a token stands for. -/
def ofToken? (token : Token) : Option BinaryOperator :=
  if token.kind = .punctuator then spellings.lookup token.lexeme else none

/-- The value of the operator for two operands.  Both have been evaluated, also
where the first one alone decides. -/
def apply (operator : BinaryOperator) (left right : Int64) : Except Fault Int64 :=
  match operator with
  | times => .ok (left * right)
  | divide => if right = 0 then .error .divisionByZero else .ok (left / right)
  | modulo => if right = 0 then .error .divisionByZero else .ok (left % right)
  | plus => .ok (left + right)
  | minus => .ok (left - right)
  | shiftLeft => .ok (left <<< right)
  | shiftRight => .ok (left >>> right)
  | less => .ok (truth (left < right))
  | greater => .ok (truth (left > right))
  | atMost => .ok (truth (left ≤ right))
  | atLeast => .ok (truth (left ≥ right))
  | equal => .ok (truth (left == right))
  | different => .ok (truth (left != right))
  | bitAnd => .ok (left &&& right)
  | bitXor => .ok (left ^^^ right)
  | bitOr => .ok (left ||| right)
  | and => .ok (truth (left != 0 && right != 0))
  | or => .ok (truth (left != 0 || right != 0))

end BinaryOperator

/-- An operator that stands before its only operand. -/
inductive UnaryOperator where
  | not | complement | minus | plus
deriving DecidableEq, Repr

namespace UnaryOperator

/-- The operator a token stands for. -/
def ofToken? (token : Token) : Option UnaryOperator :=
  if token.kind = .punctuator then
    [("!", not), ("~", complement), ("-", minus), ("+", plus)].lookup token.lexeme
  else none

def apply (operator : UnaryOperator) (operand : Int64) : Int64 :=
  match operator with
  | not => truth (operand == 0)
  | complement => ~~~operand
  | minus => -operand
  | plus => operand

end UnaryOperator

end Condition
end ObjectWrapper
