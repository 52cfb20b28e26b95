import Mathlib.Data.List.TakeWhile
import ObjectWrapper.Condition.Evaluation

namespace ObjectWrapper

open Source

/-!
# Numbers that are stored as names

A value that is given on the command line is stored as an identifier, be it a name or a
number.  Macro expansion looks at the kinds of tokens in many places, and this makes no
difference in any of them as long as no macro and no parameter has a name that looks like a
number: a name that stands for nothing is left as it is, like a number.

To say so, all numbers that begin with a digit are turned into names, in the tokens and in
all replacements of the table.  Expansion and this change may be exchanged.  Tables that
become the same in this way, as those do in which a value is stored in one way or the other,
therefore come to the same tokens up to this change, which keeps texts and lines.
-/

namespace Source
namespace Token

/-- A number that begins with a digit as a name of the same text; any other token as it is. -/
def asName (token : Token) : Token :=
  if token.kind = .number ∧ Condition.beginsWithDigit token.lexeme = true then
    { token with kind := .identifier }
  else token

@[simp]
theorem lexeme_asName (token : Token) : token.asName.lexeme = token.lexeme := by
  unfold asName
  split <;> rfl

@[simp]
theorem line_asName (token : Token) : token.asName.line = token.line := by
  unfold asName
  split <;> rfl

theorem asName_atLine (token : Token) (line : Nat) :
    (token.atLine line).asName = token.asName.atLine line := by
  by_cases stored : token.kind = .number ∧ Condition.beginsWithDigit token.lexeme = true
  · have moved : (token.atLine line).kind = .number ∧
        Condition.beginsWithDigit (token.atLine line).lexeme = true := stored
    rw [asName, asName, if_pos stored, if_pos moved]
    rfl
  · have moved : ¬ ((token.atLine line).kind = .number ∧
        Condition.beginsWithDigit (token.atLine line).lexeme = true) := stored
    rw [asName, asName, if_neg stored, if_neg moved]

/-- What is moved to a line has been on any other line before. -/
theorem atLine_asName_atLine (token : Token) (line other : Nat) :
    (token.asName.atLine other).atLine line = (token.atLine line).asName :=
  (token.asName_atLine line).symm

theorem asName_of_isIdentifier {token : Token} (identifier : token.isIdentifier = true) :
    token.asName = token := by
  simp only [isIdentifier, beq_iff_eq] at identifier
  simp [asName, identifier]

/-- Only a text that looks like a number becomes a name. -/
theorem beginsWithDigit_of_asName {token : Token} (other : token.isIdentifier = false)
    (identifier : token.asName.isIdentifier = true) :
    Condition.beginsWithDigit token.lexeme = true := by
  unfold asName at identifier
  split at identifier
  · rename_i stored
    exact stored.2
  · exact absurd (other.symm.trans identifier) Bool.false_ne_true

/-- No number is a punctuator or a blank, and no name is. -/
theorem isPunctuator_asName (token : Token) (text : String) :
    token.asName.isPunctuator text = token.isPunctuator text := by
  unfold asName
  split
  · rename_i stored
    simp only [isPunctuator, stored.1]
    rfl
  · rfl

theorem isBlank_asName (token : Token) : token.asName.isBlank = token.isBlank := by
  unfold asName
  split
  · rename_i stored
    simp [isBlank, stored.1, TokenKind.isBlank]
  · rfl

end Token
end Source

namespace Macro

/-! ## Argument lists of changed tokens -/

/-- The invocation with every token changed. -/
def Invocation.map (change : Token -> Token) (invocation : Invocation) : Invocation :=
  ⟨invocation.arguments.map (List.map change), invocation.after.map change⟩

theorem Invocation.argument_map (change : Token -> Token) (invocation : Invocation)
    (position : Nat) :
    (invocation.map change).argument position = (invocation.argument position).map change := by
  unfold argument map
  simp only [List.getD_eq_getElem?_getD, List.getElem?_map]
  cases invocation.arguments[position]? <;> rfl

theorem Invocation.extend_map (change : Token -> Token) (token : Token)
    (invocation : Invocation) :
    (invocation.map change).extend (change token) = (invocation.extend token).map change := by
  rcases invocation with ⟨arguments, after⟩
  cases arguments <;> rfl

section Changed

variable {change : Token -> Token}
  (punctuators : ∀ token text, (change token).isPunctuator text = token.isPunctuator text)
include punctuators

theorem collect_map (separators : Option Nat) (depth : Nat) (tokens : List Token) :
    collect separators depth (tokens.map change) =
      (collect separators depth tokens).map (Invocation.map change) := by
  have extended : ∀ (token : Token) (collected : Option Invocation),
      (collected.map (Invocation.map change)).map (Invocation.extend (change token)) =
        (collected.map (Invocation.extend token)).map (Invocation.map change) := by
    intro token collected
    cases collected with
    | none => rfl
    | some invocation => exact congrArg some (invocation.extend_map change token)
  induction tokens generalizing separators depth with
  | nil => rfl
  | cons token rest ih =>
      rw [List.map_cons, collect.eq_def separators depth (change token :: rest.map change),
        collect.eq_def separators depth (token :: rest)]
      simp only [punctuators]
      split
      · rw [ih, extended]
      split
      · cases depth with
        | zero => rfl
        | succ depth =>
            simp only
            rw [ih, extended]
      split
      · rw [ih]
        cases collect (separators.map (· - 1)) depth rest <;> rfl
      · rw [ih, extended]

variable (blanks : ∀ token, (change token).isBlank = token.isBlank)
include blanks

omit punctuators in
theorem trimBlanks_map (tokens : List Token) :
    trimBlanks (tokens.map change) = (trimBlanks tokens).map change := by
  have same : Token.isBlank ∘ change = Token.isBlank := funext blanks
  simp only [trimBlanks, List.dropWhile_map, ← List.map_reverse, same]

theorem Definition.invocation?_map {definition changed : Definition}
    (same : changed.separators = definition.separators) (tokens : List Token) :
    changed.invocation? (tokens.map change) =
      (definition.invocation? tokens).map (Invocation.map change) := by
  have noBlank : Token.isBlank ∘ change = Token.isBlank := funext blanks
  unfold Definition.invocation?
  rw [List.dropWhile_map, noBlank]
  cases tokens.dropWhile Token.isBlank with
  | nil => rfl
  | cons opening rest =>
      simp only [List.map_cons, punctuators, same, collect_map punctuators]
      split
      · cases collect definition.separators 0 rest with
        | none => rfl
        | some invocation =>
            have trimmed : trimBlanks ∘ List.map change = List.map change ∘ trimBlanks :=
              funext fun argument => trimBlanks_map blanks argument
            simp [Invocation.map, trimmed]
      · rfl

end Changed

/-! ## Tables without numbers -/

/-- The definition whose replacement has no number that begins with a digit.  On which lines
its tokens are does not matter, since they are moved to the line of the name. -/
def Definition.asNames (definition : Definition) : Definition :=
  { definition with replacement := definition.replacement.map fun token => token.asName.atLine 0 }

theorem Definition.replacementAt_asNames (definition : Definition) (line : Nat) :
    definition.asNames.replacementAt line = (definition.replacementAt line).map Token.asName := by
  simp only [replacementAt, asNames, List.map_map, Function.comp_def, Token.atLine_asName_atLine]

namespace Table

def asNames (table : Table) : Table :=
  ⟨table.entries.map fun entry => (entry.1, entry.2.asNames)⟩

theorem find?_asNames (table : Table) (name : String) :
    table.asNames.find? name = (table.find? name).map Definition.asNames := by
  unfold find? asNames
  induction table.entries with
  | nil => rfl
  | cons entry rest ih =>
      rw [List.map_cons, List.lookup_cons, List.lookup_cons, ih]
      split <;> rfl

theorem erase_asNames (table : Table) (name : String) :
    table.asNames.erase name = (table.erase name).asNames := by
  simp only [erase, asNames, List.filter_map]
  rfl

theorem define_asNames_congr {first second : Definition} (same : first.asNames = second.asNames)
    (table : Table) (name : String) :
    (table.define name first).asNames = (table.define name second).asNames := by
  simp only [define, asNames, List.map_cons, same]

/-- No macro and no parameter has a name that begins with a digit. -/
def NamesNoNumber (table : Table) : Prop :=
  ∀ name definition, table.find? name = some definition ->
    Condition.beginsWithDigit name = false ∧
      ∀ parameter ∈ definition.parameters, Condition.beginsWithDigit parameter = false

theorem namesNoNumber_empty : empty.NamesNoNumber := by
  intro name definition found
  cases found

variable {table : Table}

theorem NamesNoNumber.erase (apart : table.NamesNoNumber) (erased : String) :
    (table.erase erased).NamesNoNumber := by
  intro name definition found
  rw [find?_erase, Option.ite_none_left_eq_some] at found
  exact apart name definition found.2

theorem NamesNoNumber.define (apart : table.NamesNoNumber) {name : String}
    (named : Condition.beginsWithDigit name = false) {definition : Definition}
    (parameters : ∀ parameter ∈ definition.parameters,
      Condition.beginsWithDigit parameter = false) :
    (table.define name definition).NamesNoNumber := by
  intro other found defined
  rw [find?_define] at defined
  split at defined
  · rename_i same
    cases defined
    exact ⟨same ▸ named, parameters⟩
  · exact apart other found defined

end Table

/-! ## Expansion -/

def Usage.asNames : Usage -> Usage
  | .plain => .plain
  | .object definition => .object definition.asNames
  | .function definition invocation => .function definition.asNames (invocation.map Token.asName)

variable {table : Table} (apart : table.NamesNoNumber)
include apart

/-- A token is read in the same way; a number that has become a name stands for itself. -/
theorem Table.NamesNoNumber.usage_asNames (token : Token) (rest : List Token) :
    table.asNames.usage token.asName (rest.map Token.asName) =
      (table.usage token rest).asNames := by
  unfold Table.usage
  cases identifier : token.isIdentifier with
  | true =>
      rw [Token.asName_of_isIdentifier identifier, identifier, if_pos rfl, if_pos rfl,
        Table.find?_asNames]
      cases table.find? token.lexeme with
      | none => rfl
      | some definition =>
          have collected : definition.asNames.invocation? (rest.map Token.asName) =
              (definition.invocation? rest).map (Invocation.map Token.asName) :=
            Definition.invocation?_map Token.isPunctuator_asName Token.isBlank_asName rfl rest
          simp only [Option.map_some, collected]
          change (if definition.isFunction then _ else _) = _
          split
          · cases definition.invocation? rest <;> rfl
          · rfl
  | false =>
      rw [if_neg Bool.false_ne_true]
      split
      · rename_i named
        have looksLikeNumber := Token.beginsWithDigit_of_asName identifier named
        cases found : table.find? token.lexeme with
        | none => rw [Token.lexeme_asName, Table.find?_asNames, found]; rfl
        | some definition =>
            have noNumber := (apart _ _ found).1
            exact absurd (noNumber.symm.trans looksLikeNumber) Bool.false_ne_true
      · rfl

omit apart in
/-- What takes the place of a parameter takes it as well where numbers are names. -/
theorem Definition.substitute_asNames {definition : Definition}
    (apart : ∀ parameter ∈ definition.parameters, Condition.beginsWithDigit parameter = false)
    (line : Nat) (argument : Nat -> List Token) :
    (definition.asNames.substitute line fun position => (argument position).map Token.asName) =
      (definition.substitute line argument).map Token.asName := by
  have places : ∀ token : Token,
      definition.asNames.position? (token.asName.atLine 0) = definition.position? token := by
    intro token
    unfold Definition.position?
    cases identifier : token.isIdentifier with
    | true =>
        rw [Token.asName_of_isIdentifier identifier]
        change (if token.isIdentifier then _ else _) = _
        rw [identifier]
        rfl
    | false =>
        rw [if_neg Bool.false_ne_true]
        split
        · rename_i named
          have looksLikeNumber := Token.beginsWithDigit_of_asName identifier named
          refine List.idxOf?_eq_none_iff.mpr fun member => ?_
          have noNumber := apart _ member
          rw [show (token.asName.atLine 0).lexeme = token.lexeme from Token.lexeme_asName token]
            at noNumber
          exact absurd (noNumber.symm.trans looksLikeNumber) Bool.false_ne_true
        · rfl
  simp only [substitute, asNames, List.flatMap_map, List.map_flatMap]
  congr 1
  funext token
  have place := places token
  simp only [asNames] at place
  rw [place]
  cases definition.position? token with
  | none => simp only [Token.atLine_asName_atLine, List.map_cons, List.map_nil]
  | some position => rfl

/-- Numbers may be turned into names before expansion or after it. -/
theorem Table.NamesNoNumber.expand_asNames (tokens : List Token) :
    expand table.asNames (tokens.map Token.asName) = (expand table tokens).map Token.asName := by
  revert apart
  apply expand_induction (motive := fun table tokens => table.NamesNoNumber ->
    expand table.asNames (tokens.map Token.asName) = (expand table tokens).map Token.asName)
  case nil =>
    intro table _
    rw [List.map_nil, expand_nil, expand_nil, List.map_nil]
  case plain =>
    intro table token rest used ih apart
    have changed := apart.usage_asNames token rest
    rw [used] at changed
    simp only [List.map_cons, expand_cons, used, changed, Usage.asNames, ih apart]
  case object =>
    intro table token rest definition used replaced ih apart
    have changed := apart.usage_asNames token rest
    rw [used] at changed
    have inner := replaced (apart.erase token.lexeme)
    rw [← Definition.replacementAt_asNames] at inner
    simp only [List.map_cons, expand_cons, used, changed, Usage.asNames, ih apart,
      Token.lexeme_asName, Token.line_asName, erase_asNames, inner, List.map_append]
  case function =>
    intro table token rest definition invocation used arguments replaced ih apart
    have changed := apart.usage_asNames token rest
    rw [used] at changed
    have named := (apart _ _ (of_usage_function used).1).2
    have given : (fun position =>
          expand table.asNames ((invocation.map Token.asName).argument position)) =
        fun position => (expand table (invocation.argument position)).map Token.asName := by
      funext position
      rw [Invocation.argument_map, arguments position apart]
    have inner := replaced (apart.erase token.lexeme)
    rw [← Definition.substitute_asNames named] at inner
    have later : expand table.asNames (invocation.map Token.asName).after = _ := ih apart
    simp only [List.map_cons, expand_cons, used, changed, Usage.asNames, later, given,
      Token.lexeme_asName, Token.line_asName, erase_asNames, inner, List.map_append]

omit apart in
/-- Tables that differ in how numbers are stored come to the same tokens, numbers that begin with
a digit taken for names. -/
theorem map_asName_expand_congr {first second : Table} (same : first.asNames = second.asNames)
    (firstApart : first.NamesNoNumber) (secondApart : second.NamesNoNumber)
    (tokens : List Token) :
    (expand first tokens).map Token.asName = (expand second tokens).map Token.asName := by
  rw [← firstApart.expand_asNames, ← secondApart.expand_asNames, same]

end Macro
end ObjectWrapper
