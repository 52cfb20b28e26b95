import ObjectWrapper.Macro.Arguments

namespace ObjectWrapper
namespace Macro

open Source

/-!
# Macro expansion

A name with a definition is replaced by the definition's tokens, moved to the
line of the name.  The replacement is expanded again, and the name itself is
left alone in it: it is expanded with the table from which the name is erased.
An argument of a function-like macro is expanded with the whole table wherever it
takes the place of its parameter, and keeps its own lines; one whose parameter
does not occur is not looked at.  The operators `#` and `##` have no meaning
here.

Each step works either with a smaller table or on fewer tokens, so expansion
ends for every table, recursive ones included.
-/

/-- How a token is to be read in front of the tokens that follow it. -/
inductive Usage where
  /-- The token stands for itself. -/
  | plain
  /-- The token is replaced on its own. -/
  | object (definition : Definition)
  /-- The token is replaced together with an argument list. -/
  | function (definition : Definition) (invocation : Invocation)

/-- How a token is to be read.  The name of a function-like macro stands for
itself where no argument list follows. -/
def Table.usage (table : Table) (token : Token) (following : List Token) : Usage :=
  if token.isIdentifier then
    match table.find? token.lexeme with
    | none => .plain
    | some definition =>
      if definition.isFunction then
        match definition.invocation? following with
        | none => .plain
        | some invocation => .function definition invocation
      else .object definition
  else .plain

/-- The tokens of the replacement on the line of the replaced name. -/
def Definition.replacementAt (definition : Definition) (line : Nat) : List Token :=
  definition.replacement.map (·.atLine line)

/-- The position of the parameter that a token of the replacement is. -/
def Definition.position? (definition : Definition) (token : Token) : Option Nat :=
  if token.isIdentifier then definition.parameters.idxOf? token.lexeme else none

/-- The replacement with arguments in place of the parameters, each given by the
position of its parameter. -/
def Definition.substitute (definition : Definition) (line : Nat)
    (argument : Nat -> List Token) : List Token :=
  definition.replacement.flatMap fun token =>
    match definition.position? token with
    | some position => argument position
    | none => [token.atLine line]

/-! ## What a usage says about the table and the tokens -/

theorem find?_of_usage_object {table : Table} {token : Token} {following : List Token}
    {definition : Definition} (used : table.usage token following = .object definition) :
    table.find? token.lexeme = some definition := by
  unfold Table.usage at used
  split at used
  · split at used
    · cases used
    · split at used
      · split at used <;> cases used
      · cases used
        assumption
  · cases used

theorem of_usage_function {table : Table} {token : Token} {following : List Token}
    {definition : Definition} {invocation : Invocation}
    (used : table.usage token following = .function definition invocation) :
    table.find? token.lexeme = some definition ∧
      definition.invocation? following = some invocation := by
  unfold Table.usage at used
  split at used
  · split at used
    · cases used
    · split at used
      · split at used
        · cases used
        · cases used
          exact ⟨by assumption, by assumption⟩
      · cases used
  · cases used

theorem size_erase_lt_of_find? {table : Table} {name : String} {definition : Definition}
    (found : table.find? name = some definition) : (table.erase name).size < table.size :=
  Table.size_erase_lt (by simp [found])

/-! ## Expansion -/

/-- The tokens with every macro replaced and its replacement read by `rescan`,
which gets the table without the macro's name. -/
def expandWith (rescan : Table -> List Token -> List Token) (table : Table) :
    List Token -> List Token
  | [] => []
  | token :: rest =>
    match _used : table.usage token rest with
    | .plain => token :: expandWith rescan table rest
    | .object definition =>
      rescan (table.erase token.lexeme) (definition.replacementAt token.line) ++
        expandWith rescan table rest
    | .function definition invocation =>
      rescan (table.erase token.lexeme)
          (definition.substitute token.line fun position =>
            expandWith rescan table (invocation.argument position)) ++
        expandWith rescan table invocation.after
termination_by tokens => tokens.length
decreasing_by
  · exact Nat.lt_succ_self _
  · exact Nat.lt_succ_self _
  · have found := (of_usage_function _used).2
    exact Nat.lt_succ_of_lt (Definition.invocation?_argument_length found position)
  · have bounds := Definition.invocation?_bounds (of_usage_function _used).2
    exact Nat.lt_succ_of_lt bounds.1

/-- The tokens with macros replaced where replacements are nested at most so
deep. -/
def expandNested : Nat -> Table -> List Token -> List Token
  | 0 => fun _ tokens => tokens
  | depth + 1 => expandWith (expandNested depth)

/-- The tokens with every macro replaced.  A replacement is read without the
name it replaces, so replacements are nested no deeper than there are names. -/
def expand (table : Table) (tokens : List Token) : List Token :=
  expandNested table.size table tokens

/-! ## Expansion by its first token -/

theorem expandWith_cons (rescan : Table -> List Token -> List Token) (table : Table)
    (token : Token) (rest : List Token) :
    expandWith rescan table (token :: rest) =
      match table.usage token rest with
      | .plain => token :: expandWith rescan table rest
      | .object definition =>
        rescan (table.erase token.lexeme) (definition.replacementAt token.line) ++
          expandWith rescan table rest
      | .function definition invocation =>
        rescan (table.erase token.lexeme)
            (definition.substitute token.line fun position =>
              expandWith rescan table (invocation.argument position)) ++
          expandWith rescan table invocation.after := by
  rw [expandWith]
  split <;> rename_i used <;> simp [used]

/-- Expansion depends on the reading of replacements only for smaller tables. -/
theorem expandWith_congr {first second : Table -> List Token -> List Token} {table : Table}
    (agree : ∀ smaller, smaller.size < table.size -> first smaller = second smaller)
    (tokens : List Token) : expandWith first table tokens = expandWith second table tokens := by
  fun_induction expandWith first table tokens with
  | case1 => rw [expandWith]
  | case2 token rest used ih =>
    rw [expandWith_cons, used]
    simp only [ih]
  | case3 token rest definition used ih =>
    have found := find?_of_usage_object used
    rw [expandWith_cons, used]
    simp only [ih, agree _ (size_erase_lt_of_find? found)]
  | case4 token rest definition invocation used argumentIh afterIh =>
    have found := (of_usage_function used).1
    have arguments : (fun position => expandWith first table (invocation.argument position)) =
        fun position => expandWith second table (invocation.argument position) :=
      funext argumentIh
    rw [expandWith_cons, used]
    simp only [arguments, afterIh, agree _ (size_erase_lt_of_find? found)]

theorem usage_of_size_eq_zero {table : Table} (empty : table.size = 0) (token : Token)
    (following : List Token) : table.usage token following = .plain := by
  have nothing : table.entries = [] := List.length_eq_zero_iff.mp empty
  simp [Table.usage, Table.find?, nothing]

theorem expandWith_of_size_eq_zero (rescan : Table -> List Token -> List Token) {table : Table}
    (empty : table.size = 0) (tokens : List Token) : expandWith rescan table tokens = tokens := by
  induction tokens with
  | nil => rw [expandWith]
  | cons token rest ih => rw [expandWith_cons, usage_of_size_eq_zero empty, ih]

/-- Beyond the number of names, the depth makes no difference. -/
theorem expandNested_eq_expand {depth : Nat} {table : Table} (enough : table.size ≤ depth) :
    expandNested depth table = expand table := by
  have agree : ∀ (first second : Nat) (table : Table), table.size ≤ first ->
      table.size ≤ second -> expandNested first table = expandNested second table := by
    intro first
    induction first with
    | zero =>
      intro second table firstEnough _
      have empty : table.size = 0 := Nat.le_zero.mp firstEnough
      cases second with
      | zero => rfl
      | succ second =>
        funext tokens
        exact (expandWith_of_size_eq_zero _ empty tokens).symm
    | succ first ih =>
      intro second table firstEnough secondEnough
      cases second with
      | zero =>
        funext tokens
        exact expandWith_of_size_eq_zero _ (Nat.le_zero.mp secondEnough) tokens
      | succ second =>
        funext tokens
        refine expandWith_congr (fun smaller lt => ih second smaller ?_ ?_) tokens
        · omega
        · omega
  exact agree depth table.size table enough (Nat.le_refl _)

theorem expand_eq_expandWith (table : Table) (tokens : List Token) :
    expand table tokens = expandWith expand table tokens := by
  rw [← expandNested_eq_expand (Nat.le_succ table.size)]
  exact expandWith_congr (fun smaller lt => expandNested_eq_expand (Nat.le_of_lt lt)) tokens

@[simp]
theorem expand_nil (table : Table) : expand table [] = [] := by
  rw [expand_eq_expandWith, expandWith]

/-- Expansion of a token list, by the usage of its first token. -/
theorem expand_cons (table : Table) (token : Token) (rest : List Token) :
    expand table (token :: rest) =
      match table.usage token rest with
      | .plain => token :: expand table rest
      | .object definition =>
        expand (table.erase token.lexeme) (definition.replacementAt token.line) ++
          expand table rest
      | .function definition invocation =>
        expand (table.erase token.lexeme)
            (definition.substitute token.line fun position =>
              expand table (invocation.argument position)) ++
          expand table invocation.after := by
  have unfolded : expandWith expand table = expand table :=
    funext fun tokens => (expand_eq_expandWith table tokens).symm
  rw [expand_eq_expandWith, expandWith_cons, unfolded]

/-- Induction along expansion: over the rest of the tokens, the arguments of an
invocation, and the replacement with the smaller table. -/
theorem expand_induction {motive : Table -> List Token -> Prop}
    (nil : ∀ table, motive table [])
    (plain : ∀ table token rest, table.usage token rest = .plain ->
      motive table rest -> motive table (token :: rest))
    (object : ∀ table token rest definition, table.usage token rest = .object definition ->
      motive (table.erase token.lexeme) (definition.replacementAt token.line) ->
      motive table rest -> motive table (token :: rest))
    (function : ∀ table token rest definition invocation,
      table.usage token rest = .function definition invocation ->
      (∀ position, motive table (invocation.argument position)) ->
      motive (table.erase token.lexeme)
        (definition.substitute token.line fun position =>
          expand table (invocation.argument position)) ->
      motive table invocation.after -> motive table (token :: rest))
    (table : Table) (tokens : List Token) : motive table tokens := by
  match tokens with
  | [] => exact nil table
  | token :: rest =>
    match used : table.usage token rest with
    | .plain =>
      exact plain table token rest used
        (expand_induction nil plain object function table rest)
    | .object definition =>
      exact object table token rest definition used
        (expand_induction nil plain object function _ _)
        (expand_induction nil plain object function table rest)
    | .function definition invocation =>
      exact function table token rest definition invocation used
        (fun position =>
          expand_induction nil plain object function table (invocation.argument position))
        (expand_induction nil plain object function _ _)
        (expand_induction nil plain object function table invocation.after)
termination_by (table.size, tokens.length)
decreasing_by
  · exact Prod.Lex.right _ (Nat.lt_succ_self _)
  · exact Prod.Lex.left _ _ (size_erase_lt_of_find? (find?_of_usage_object used))
  · exact Prod.Lex.right _ (Nat.lt_succ_self _)
  · have found := (of_usage_function used).2
    exact Prod.Lex.right _
      (Nat.lt_succ_of_lt (Definition.invocation?_argument_length found position))
  · exact Prod.Lex.left _ _ (size_erase_lt_of_find? (of_usage_function used).1)
  · have bounds := Definition.invocation?_bounds (of_usage_function used).2
    exact Prod.Lex.right _ (Nat.lt_succ_of_lt bounds.1)

end Macro
end ObjectWrapper
