import ObjectWrapper.Macro.Table

namespace ObjectWrapper
namespace Macro

open Source

/-!
# Argument lists of macro invocations

The name of a function-like macro is followed by its arguments when the next
token that is not blank opens a parenthesis that is closed later.  Arguments
are separated by the commas outside inner parentheses; the parameter of a
variadic macro that stands for the remaining arguments keeps the commas between
them.  Blank tokens at the ends of an argument do not belong to it.
-/

/-- The arguments of an invocation and the tokens after its parenthesis. -/
structure Invocation where
  arguments : List (List Token)
  after : List Token
deriving DecidableEq, Repr

/-- The argument at a position, which is empty where none was given. -/
def Invocation.argument (invocation : Invocation) (position : Nat) : List Token :=
  invocation.arguments.getD position []

/-- The invocation whose first argument begins with one more token. -/
def Invocation.extend (token : Token) (invocation : Invocation) : Invocation :=
  { invocation with
    arguments := (token :: invocation.arguments.headD []) :: invocation.arguments.drop 1 }

/-- The invocation with one more, empty argument in front. -/
def Invocation.separate (invocation : Invocation) : Invocation :=
  { invocation with arguments := [] :: invocation.arguments }

/-- How many commas may still separate arguments: any number of them, unless
the macro is variadic. -/
def Definition.separators (definition : Definition) : Option Nat :=
  if definition.isVariadic then some (definition.parameters.length - 1) else none

/-- Collect arguments up to the closing parenthesis, with `depth` inner
parentheses open and `separators` commas left that separate. -/
def collect (separators : Option Nat) (depth : Nat) : List Token -> Option Invocation
  | [] => none
  | token :: rest =>
    if token.isPunctuator "(" then
      (collect separators (depth + 1) rest).map (Invocation.extend token)
    else if token.isPunctuator ")" then
      match depth with
      | 0 => some ⟨[[]], rest⟩
      | depth + 1 => (collect separators depth rest).map (Invocation.extend token)
    else if token.isPunctuator "," && depth == 0 && separators != some 0 then
      (collect (separators.map (· - 1)) depth rest).map Invocation.separate
    else (collect separators depth rest).map (Invocation.extend token)

/-- The argument list at the start of the tokens that follow a macro name. -/
def Definition.invocation? (definition : Definition) (tokens : List Token) : Option Invocation :=
  match tokens.dropWhile Token.isBlank with
  | [] => none
  | opening :: rest =>
    if opening.isPunctuator "(" then
      (collect definition.separators 0 rest).map fun invocation =>
        { invocation with arguments := invocation.arguments.map trimBlanks }
    else none

/-! ## Arguments are shorter than what they are taken from -/

theorem collect_bounds {separators : Option Nat} {depth : Nat} {tokens : List Token}
    {invocation : Invocation} (found : collect separators depth tokens = some invocation) :
    invocation.after.length < tokens.length ∧
      ∀ argument ∈ invocation.arguments, argument.length < tokens.length := by
  induction tokens generalizing separators depth invocation with
  | nil => simp [collect] at found
  | cons token rest ih =>
    have extended {separators : Option Nat} {depth : Nat}
        (found : (collect separators depth rest).map (Invocation.extend token) = some invocation) :
        invocation.after.length < (token :: rest).length ∧
          ∀ argument ∈ invocation.arguments, argument.length < (token :: rest).length := by
      obtain ⟨inner, innerFound, rfl⟩ := Option.map_eq_some_iff.mp found
      obtain ⟨afterBound, argumentBound⟩ := ih innerFound
      refine ⟨by simp [Invocation.extend]; omega, fun argument member => ?_⟩
      simp only [Invocation.extend, List.mem_cons] at member
      rcases member with rfl | member
      · cases shape : inner.arguments with
        | nil => simp; omega
        | cons first more => simpa [shape] using argumentBound first (by simp [shape])
      · have bound := argumentBound argument (List.mem_of_mem_drop member)
        simp; omega
    unfold collect at found
    split at found
    · exact extended found
    split at found
    · split at found
      · cases found
        simp
      · exact extended found
    split at found
    · obtain ⟨inner, innerFound, rfl⟩ := Option.map_eq_some_iff.mp found
      obtain ⟨afterBound, argumentBound⟩ := ih innerFound
      refine ⟨by simp [Invocation.separate]; omega, fun argument member => ?_⟩
      simp only [Invocation.separate, List.mem_cons] at member
      rcases member with rfl | member
      · simp
      · have bound := argumentBound argument member
        simp; omega
    · exact extended found

theorem length_trimBlanks_le (tokens : List Token) :
    (trimBlanks tokens).length ≤ tokens.length := by
  have first := (List.dropWhile_suffix (l := tokens) Token.isBlank).length_le
  have second :=
    (List.dropWhile_suffix (l := (tokens.dropWhile Token.isBlank).reverse) Token.isBlank).length_le
  simp only [trimBlanks, List.length_reverse] at *
  omega

/-- What an invocation takes from the tokens, and what it leaves, is less than
all of them. -/
theorem Definition.invocation?_bounds {definition : Definition} {tokens : List Token}
    {invocation : Invocation} (found : definition.invocation? tokens = some invocation) :
    invocation.after.length < tokens.length ∧
      ∀ argument ∈ invocation.arguments, argument.length < tokens.length := by
  unfold Definition.invocation? at found
  have skipped := (List.dropWhile_suffix (l := tokens) Token.isBlank).length_le
  split at found
  · cases found
  · rename_i opening rest shape
    rw [shape, List.length_cons] at skipped
    split at found
    · obtain ⟨raw, rawFound, rfl⟩ := Option.map_eq_some_iff.mp found
      obtain ⟨afterBound, argumentBound⟩ := collect_bounds rawFound
      refine ⟨by simp only; omega, fun argument member => ?_⟩
      obtain ⟨untrimmed, untrimmedMember, rfl⟩ := List.mem_map.mp member
      have bound := argumentBound untrimmed untrimmedMember
      have trimmed := length_trimBlanks_le untrimmed
      omega
    · cases found

theorem Definition.invocation?_argument_length {definition : Definition} {tokens : List Token}
    {invocation : Invocation} (found : definition.invocation? tokens = some invocation)
    (position : Nat) : (invocation.argument position).length < tokens.length := by
  obtain ⟨afterBound, argumentBound⟩ := Definition.invocation?_bounds found
  unfold Invocation.argument
  rw [List.getD_eq_getElem?_getD]
  cases given : invocation.arguments[position]? with
  | none => exact Nat.lt_of_le_of_lt (Nat.zero_le _) afterBound
  | some argument => exact argumentBound argument (List.mem_of_getElem? given)

end Macro
end ObjectWrapper
