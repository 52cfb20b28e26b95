import ObjectWrapper.Condition.Evaluation
import ObjectWrapper.Proofs.Condition.Arithmetic

namespace ObjectWrapper
namespace Condition

open Source

/-!
# Grammar of conditions

A condition derives from a grammar in layers.  Outermost are conditional operators,
which group to the right; each of the ten layers of binary operators joins operands
of the next one, grouping to the left; innermost are prefix operators, parentheses
and single tokens.  A derivation yields an expression, and the value of an
expression is an integer computed without regard to the order in which a reader
comes across its parts.
-/

/-- What a condition says, parentheses apart. -/
inductive Expression where
  | leaf (token : Token)
  | prefixed (operator : UnaryOperator) (operand : Expression)
  | joined (operator : BinaryOperator) (left right : Expression)
  | choice (condition first second : Expression)
deriving DecidableEq, Repr

/-! ## Derivations -/

/-- The binary operators, from the weakest layer to the strongest. -/
def layers : List (List BinaryOperator) :=
  [[.or], [.and], [.bitOr], [.bitXor], [.bitAnd], [.equal, .different],
    [.less, .greater, .atMost, .atLeast], [.shiftLeft, .shiftRight], [.plus, .minus],
    [.times, .divide, .modulo]]

def BinaryOperator.symbol : BinaryOperator -> String
  | times => "*"
  | divide => "/"
  | modulo => "%"
  | plus => "+"
  | minus => "-"
  | shiftLeft => "<<"
  | shiftRight => ">>"
  | less => "<"
  | greater => ">"
  | atMost => "<="
  | atLeast => ">="
  | equal => "=="
  | different => "!="
  | bitAnd => "&"
  | bitXor => "^"
  | bitOr => "|"
  | and => "&&"
  | or => "||"

def UnaryOperator.symbol : UnaryOperator -> String
  | not => "!"
  | complement => "~"
  | minus => "-"
  | plus => "+"

/-- Tokens that are operands by themselves: numbers, characters and names. -/
def IsOperand (token : Token) : Prop :=
  token.kind = .number ∨ token.kind = .charLiteral ∨ token.kind = .identifier

mutual

/-- A condition, with or without two choices. -/
inductive DerivesConditional : List Token -> Expression -> Prop where
  | joined {tokens : List Token} {expression : Expression} :
      DerivesJoined layers tokens expression -> DerivesConditional tokens expression
  | choice {tokens first second : List Token} {question colon : Token}
      {condition firstChoice secondChoice : Expression} :
      DerivesJoined layers tokens condition -> question.isPunctuator "?" = true ->
      DerivesConditional first firstChoice -> colon.isPunctuator ":" = true ->
      DerivesConditional second secondChoice ->
      DerivesConditional (tokens ++ question :: (first ++ colon :: second))
        (.choice condition firstChoice secondChoice)

/-- Operands joined by the operators of the given layers, the weakest first. -/
inductive DerivesJoined : List (List BinaryOperator) -> List Token -> Expression -> Prop where
  | operand {tokens : List Token} {expression : Expression} :
      DerivesPrefixed tokens expression -> DerivesJoined [] tokens expression
  | stronger {layer : List BinaryOperator} {more : List (List BinaryOperator)}
      {tokens : List Token} {expression : Expression} :
      DerivesJoined more tokens expression -> DerivesJoined (layer :: more) tokens expression
  | join {layer : List BinaryOperator} {more : List (List BinaryOperator)}
      {before after : List Token} {token : Token} {operator : BinaryOperator}
      {left right : Expression} :
      DerivesJoined (layer :: more) before left -> operator ∈ layer ->
      token.isPunctuator operator.symbol = true -> DerivesJoined more after right ->
      DerivesJoined (layer :: more) (before ++ token :: after) (.joined operator left right)

/-- An operand with the operators and parentheses around it. -/
inductive DerivesPrefixed : List Token -> Expression -> Prop where
  | operator {token : Token} {tokens : List Token} {operator : UnaryOperator}
      {operand : Expression} :
      token.isPunctuator operator.symbol = true -> DerivesPrefixed tokens operand ->
      DerivesPrefixed (token :: tokens) (.prefixed operator operand)
  | parentheses {opening closing : Token} {tokens : List Token} {expression : Expression} :
      opening.isPunctuator "(" = true -> DerivesConditional tokens expression ->
      closing.isPunctuator ")" = true ->
      DerivesPrefixed (opening :: (tokens ++ [closing])) expression
  | leaf {token : Token} : IsOperand token -> DerivesPrefixed [token] (.leaf token)

end

/-! ## Values -/

/-- The value of an operand that is a single token, zero where it has none. -/
def leafValue (token : Token) : Int :=
  match operand token with
  | .ok value => value.toInt
  | .error _ => 0

namespace Expression

def value : Expression -> Int
  | leaf token => leafValue token
  | prefixed operator operand => operator.meaning operand.value
  | joined operator left right => operator.meaning left.value right.value
  | choice condition first second => if condition.value = 0 then second.value else first.value

/-- No division anywhere in the expression has the divisor zero. -/
def DivisorsNonzero : Expression -> Prop
  | leaf _ => True
  | prefixed _ operand => operand.DivisorsNonzero
  | joined operator left right =>
    left.DivisorsNonzero ∧ right.DivisorsNonzero ∧
      (operator.isDivision = true -> right.value ≠ 0)
  | choice condition first second =>
    condition.DivisorsNonzero ∧ first.DivisorsNonzero ∧ second.DivisorsNonzero

/-- All literals of the expression have values. -/
def LeavesValid : Expression -> Prop
  | leaf token => ∃ value, Condition.operand token = .ok value
  | prefixed _ operand => operand.LeavesValid
  | joined _ left right => left.LeavesValid ∧ right.LeavesValid
  | choice condition first second =>
    condition.LeavesValid ∧ first.LeavesValid ∧ second.LeavesValid

end Expression

/-! ## Operators by their symbols -/

/-- A table in which each entry stands under its symbol finds nothing else. -/
theorem lookup_eq_some_iff_of_symbols {α : Type} {table : List (String × α)}
    {symbol : α -> String} (spelled : ∀ entry ∈ table, entry.1 = symbol entry.2)
    (listed : ∀ operator, table.lookup (symbol operator) = some operator)
    {text : String} {operator : α} :
    table.lookup text = some operator ↔ text = symbol operator := by
  constructor
  · intro found
    rcases List.lookup_eq_some_iff.mp found with ⟨before, after, split, _⟩
    apply spelled (text, operator)
    rw [split]
    exact List.mem_append_right before List.mem_cons_self
  · intro equal
    rw [equal]
    exact listed operator

theorem isPunctuator_eq_true_iff {token : Token} {text : String} :
    token.isPunctuator text = true ↔ token.kind = .punctuator ∧ token.lexeme = text := by
  rw [Token.isPunctuator, Bool.and_eq_true, beq_iff_eq, beq_iff_eq]

theorem BinaryOperator.ofToken?_eq_some_iff {token : Token} {operator : BinaryOperator} :
    ofToken? token = some operator ↔ token.isPunctuator operator.symbol = true := by
  have found : spellings.lookup token.lexeme = some operator ↔ token.lexeme = operator.symbol :=
    lookup_eq_some_iff_of_symbols (by decide) (fun operator => by cases operator <;> rfl)
  rw [isPunctuator_eq_true_iff, ← found, ofToken?]
  by_cases kind : token.kind = .punctuator <;> simp [kind]

theorem UnaryOperator.ofToken?_eq_some_iff {token : Token} {operator : UnaryOperator} :
    ofToken? token = some operator ↔ token.isPunctuator operator.symbol = true := by
  have found : [("!", not), ("~", complement), ("-", minus), ("+", plus)].lookup token.lexeme =
      some operator ↔ token.lexeme = operator.symbol :=
    lookup_eq_some_iff_of_symbols (by decide) (fun operator => by cases operator <;> rfl)
  rw [isPunctuator_eq_true_iff, ← found, ofToken?]
  by_cases kind : token.kind = .punctuator <;> simp [kind]

/-- A punctuator that is no symbol of a binary operator. -/
theorem BinaryOperator.ofToken?_eq_none {token : Token} {text : String}
    (punctuator : token.isPunctuator text = true) (other : spellings.lookup text = none) :
    ofToken? token = none := by
  rcases isPunctuator_eq_true_iff.mp punctuator with ⟨kind, rfl⟩
  rw [ofToken?, if_pos kind, other]

/-! ## Layers by precedence -/

/-- The precedence of the weakest of the given layers, which are the last ones. -/
def level (strongest : List (List BinaryOperator)) : Nat :=
  11 - strongest.length

theorem length_layers : layers.length = 10 :=
  rfl

theorem level_cons {layer : List BinaryOperator} {more : List (List BinaryOperator)}
    (last : layer :: more <:+ layers) : level more = level (layer :: more) + 1 := by
  have within := last.length_le
  rw [length_layers, List.length_cons] at within
  rw [level, level, List.length_cons]
  omega

/-- Of two lists of the last layers, the one that begins stronger is part of the other. -/
theorem isSuffix_of_level_le {inner outer : List (List BinaryOperator)} (innerLast : inner <:+ layers)
    (outerLast : outer <:+ layers) (le : level outer ≤ level inner) : inner <:+ outer := by
  have innerBound := innerLast.length_le
  have outerBound := outerLast.length_le
  rw [length_layers] at innerBound outerBound
  apply List.suffix_of_suffix_length_le innerLast outerLast
  unfold level at le
  omega

/-- The operators of a layer are those of its precedence. -/
theorem mem_layer_iff {layer : List BinaryOperator} {more : List (List BinaryOperator)}
    (last : layer :: more <:+ layers) (operator : BinaryOperator) :
    operator ∈ layer ↔ operator.precedence = level (layer :: more) := by
  have byIndex : ∀ index < 10, operator ∈ (layers.drop index).headD [] ↔
      operator.precedence = index + 1 := by
    cases operator <;> decide
  have within := last.length_le
  have dropped := List.suffix_iff_eq_drop.mp last
  rw [length_layers, List.length_cons] at within dropped
  have found := byIndex (10 - (more.length + 1)) (by omega)
  rw [← dropped, List.headD_cons] at found
  rw [found, level, List.length_cons]
  omega

end Condition
end ObjectWrapper
