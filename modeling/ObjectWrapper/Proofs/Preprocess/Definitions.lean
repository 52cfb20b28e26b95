import Mathlib.Data.Bool.Basic
import ObjectWrapper.Preprocess.Run
import ObjectWrapper.Proofs.Except
import ObjectWrapper.Proofs.Source.Trimming

namespace ObjectWrapper

open Source

/-!
# What a definition stores

A definition is written as a name and a replacement, or as a name, the parameters in
parentheses and a replacement.  Here the two forms are described as they are written, without
a reader that goes through them, and the reader is shown to take exactly these and to keep
what they say.  Between the parentheses white space and commas tell the parameters apart but
are not looked at any further, so it is the tokens other than these that list the parameters.

The parenthesis of a replacement differs from the one of a parameter list only in that
something stands between it and the name: it is the first token behind the name that decides,
white space included.
-/

namespace Directive

/-! ## Parameter lists -/

/-- The token tells parameters apart. -/
def separatesParameters (token : Token) : Bool :=
  token.isWhitespace || token.isPunctuator ","

/-- The tokens name the parameters one by one; `...` behind them stands for the remaining
arguments. -/
inductive ListsParameters : List Token -> List String -> Bool -> Prop where
  | fixed {names : List Token} (identifiers : ∀ name ∈ names, name.isIdentifier = true) :
      ListsParameters names (names.map Token.lexeme) false
  | variadic {names : List Token} {dots : Token}
      (identifiers : ∀ name ∈ names, name.isIdentifier = true)
      (more : dots.isPunctuator "..." = true) :
      ListsParameters (names ++ [dots])
        (names.map Token.lexeme ++ [Macro.Definition.variadicName]) true

theorem ListsParameters.cons {name : Token} {listed : List Token} {names : List String}
    {isVariadic : Bool} (identifier : name.isIdentifier = true)
    (lists : ListsParameters listed names isVariadic) :
    ListsParameters (name :: listed) (name.lexeme :: names) isVariadic := by
  cases lists with
  | fixed identifiers =>
      exact @ListsParameters.fixed (name :: _) (List.forall_mem_cons.mpr ⟨identifier, identifiers⟩)
  | variadic identifiers more =>
      exact @ListsParameters.variadic (name :: _) _
        (List.forall_mem_cons.mpr ⟨identifier, identifiers⟩) more

/-- What is listed first is a name, or `...` with nothing behind it. -/
theorem ListsParameters.cases_cons {first : Token} {listed : List Token} {names : List String}
    {isVariadic : Bool} (lists : ListsParameters (first :: listed) names isVariadic) :
    (first.isIdentifier = true ∧ ∃ more, names = first.lexeme :: more ∧
        ListsParameters listed more isVariadic) ∨
      (first.isPunctuator "..." = true ∧ listed = [] ∧
        names = [Macro.Definition.variadicName] ∧ isVariadic = true) := by
  generalize whole : first :: listed = tokens at lists
  cases lists with
  | fixed identifiers =>
      subst whole
      rcases List.forall_mem_cons.mp identifiers with ⟨identifier, rest⟩
      exact .inl ⟨identifier, _, rfl, .fixed rest⟩
  | @variadic named dots identifiers more =>
      cases named with
      | nil =>
          rcases List.cons.inj whole with ⟨rfl, rfl⟩
          exact .inr ⟨more, rfl, rfl, rfl⟩
      | cons name rest =>
          rcases List.cons.inj whole with ⟨rfl, rfl⟩
          rcases List.forall_mem_cons.mp identifiers with ⟨identifier, later⟩
          exact .inl ⟨identifier, _, rfl, .variadic later more⟩

theorem separatesParameters_of_isIdentifier {token : Token}
    (identifier : token.isIdentifier = true) :
    separatesParameters token = false := by
  have noComma := Token.isPunctuator_of_isIdentifier identifier ","
  simp only [Token.isIdentifier, beq_iff_eq] at identifier
  simp [separatesParameters, Token.isWhitespace, identifier, noComma]

theorem separatesParameters_of_isPunctuator {token : Token} {text : String}
    (punctuator : token.isPunctuator text = true) (differs : text ≠ ",") :
    separatesParameters token = false := by
  have noComma := Token.isPunctuator_of_ne punctuator differs
  simp [separatesParameters, Token.isWhitespace, Token.kind_of_isPunctuator punctuator, noComma]

/-! ## Reading a list -/

section

variable {isVariadic : Bool} {token : Token} {rest : List Token}

theorem parameters_cons_of_separates (separates : separatesParameters token = true) :
    parameters isVariadic (token :: rest) = parameters isVariadic rest := by
  rw [parameters]
  exact if_pos separates

theorem parameters_cons_of_not_separates (apart : separatesParameters token = false) :
    parameters isVariadic (token :: rest) =
      if token.isPunctuator ")" then .ok ⟨[], isVariadic, rest⟩
      else if token.isIdentifier && !isVariadic then
        (parameters isVariadic rest).map (ParameterList.cons token.lexeme)
      else if token.isPunctuator "..." && !isVariadic then
        (parameters true rest).map (ParameterList.cons Macro.Definition.variadicName)
      else .error (.unexpectedParameter token.lexeme) := by
  rw [parameters]
  exact if_neg (Bool.eq_false_iff.mp apart)

theorem parameters_cons_of_closes (closes : token.isPunctuator ")" = true) :
    parameters isVariadic (token :: rest) = .ok ⟨[], isVariadic, rest⟩ := by
  rw [parameters_cons_of_not_separates (separatesParameters_of_isPunctuator closes (by decide)),
    if_pos closes]

theorem parameters_cons_of_isIdentifier (identifier : token.isIdentifier = true) :
    parameters false (token :: rest) =
      (parameters false rest).map (ParameterList.cons token.lexeme) := by
  rw [parameters_cons_of_not_separates (separatesParameters_of_isIdentifier identifier),
    Token.isPunctuator_of_isIdentifier identifier, identifier]
  rfl

theorem parameters_cons_of_dots (dots : token.isPunctuator "..." = true) :
    parameters false (token :: rest) =
      (parameters true rest).map (ParameterList.cons Macro.Definition.variadicName) := by
  rw [parameters_cons_of_not_separates (separatesParameters_of_isPunctuator dots (by decide)),
    Token.isPunctuator_of_ne dots (by decide), Token.isIdentifier_of_isPunctuator dots, dots]
  rfl

end

variable {inside after : List Token} {closing : Token}

/-- What only tells parameters apart adds none. -/
theorem parameters_of_forall_separates {isVariadic : Bool}
    (separate : ∀ token ∈ inside, separatesParameters token = true)
    (closes : closing.isPunctuator ")" = true) :
    parameters isVariadic (inside ++ closing :: after) = .ok ⟨[], isVariadic, after⟩ := by
  induction inside with
  | nil => exact parameters_cons_of_closes closes
  | cons token rest ih =>
      rcases List.forall_mem_cons.mp separate with ⟨separates, later⟩
      rw [List.cons_append, parameters_cons_of_separates separates]
      exact ih later

/-- The parameters that are listed are read, up to the parenthesis that closes the list. -/
theorem parameters_of_listsParameters {names : List String} {isVariadic : Bool}
    (lists : ListsParameters (inside.filter (! separatesParameters ·)) names isVariadic)
    (closes : closing.isPunctuator ")" = true) :
    parameters false (inside ++ closing :: after) = .ok ⟨names, isVariadic, after⟩ := by
  induction inside generalizing names with
  | nil =>
      generalize none : List.filter _ ([] : List Token) = listed at lists
      cases lists with
      | fixed identifiers =>
          cases none
          exact parameters_cons_of_closes closes
      | variadic identifiers more => simp at none
  | cons token rest ih =>
      rw [List.cons_append]
      cases apart : separatesParameters token with
      | true =>
          rw [List.filter_cons_of_neg (by simp [apart])] at lists
          rw [parameters_cons_of_separates apart]
          exact ih lists
      | false =>
          rw [List.filter_cons_of_pos (by simp [apart])] at lists
          rcases lists.cases_cons with ⟨identifier, more, rfl, later⟩ | ⟨dots, noOther, rfl, rfl⟩
          · rw [parameters_cons_of_isIdentifier identifier, ih later]
            rfl
          · have separate : ∀ token ∈ rest, separatesParameters token = true := by
              simpa using List.filter_eq_nil_iff.mp noOther
            rw [parameters_cons_of_dots dots, parameters_of_forall_separates separate closes]
            rfl

/-- Where a list can only go on to its end, it has been read without another parameter. -/
theorem exists_of_parameters_true_eq_ok {tokens : List Token} {list : ParameterList}
    (read : parameters true tokens = .ok list) :
    ∃ inside closing, tokens = inside ++ closing :: list.after ∧
      closing.isPunctuator ")" = true ∧ (∀ token ∈ inside, separatesParameters token = true) ∧
      list.names = [] ∧ list.isVariadic = true := by
  induction tokens with
  | nil => cases read
  | cons token rest ih =>
      cases apart : separatesParameters token with
      | true =>
          rw [parameters_cons_of_separates apart] at read
          rcases ih read with ⟨inside, closing, rfl, closes, separate, unnamed⟩
          exact ⟨token :: inside, closing, rfl, closes,
            List.forall_mem_cons.mpr ⟨apart, separate⟩, unnamed⟩
      | false =>
          rw [parameters_cons_of_not_separates apart] at read
          cases closes : token.isPunctuator ")" with
          | true =>
              rw [closes] at read
              cases read
              exact ⟨[], token, rfl, closes, List.forall_mem_nil _, rfl, rfl⟩
          | false =>
              rw [closes, Bool.not_true, Bool.and_false, Bool.and_false] at read
              cases read

/-- What the first token of a list does that has been read, unless it only tells parameters
apart. -/
theorem cases_of_parameters_cons_eq_ok {token : Token} {rest : List Token} {list : ParameterList}
    (apart : separatesParameters token = false)
    (read : parameters false (token :: rest) = .ok list) :
    (token.isPunctuator ")" = true ∧ list = ⟨[], false, rest⟩) ∨
      (token.isIdentifier = true ∧
        ∃ more, parameters false rest = .ok more ∧ list = more.cons token.lexeme) ∨
      (token.isPunctuator "..." = true ∧
        ∃ more, parameters true rest = .ok more ∧
          list = more.cons Macro.Definition.variadicName) := by
  rw [parameters_cons_of_not_separates apart] at read
  simp only [Bool.not_false, Bool.and_true] at read
  split at read
  · cases read
    exact .inl ⟨by assumption, rfl⟩
  split at read
  · rcases exists_of_map_eq_ok read with ⟨more, moreRead, rfl⟩
    exact .inr (.inl ⟨by assumption, more, moreRead, rfl⟩)
  split at read
  · rcases exists_of_map_eq_ok read with ⟨more, moreRead, rfl⟩
    exact .inr (.inr ⟨by assumption, more, moreRead, rfl⟩)
  · cases read

/-- A list that has been read lists the parameters that have been read from it. -/
theorem exists_of_parameters_eq_ok {tokens : List Token} {list : ParameterList}
    (read : parameters false tokens = .ok list) :
    ∃ inside closing, tokens = inside ++ closing :: list.after ∧
      closing.isPunctuator ")" = true ∧
      ListsParameters (inside.filter (! separatesParameters ·)) list.names list.isVariadic := by
  induction tokens generalizing list with
  | nil => cases read
  | cons token rest ih =>
      cases apart : separatesParameters token with
      | true =>
          rw [parameters_cons_of_separates apart] at read
          rcases ih read with ⟨inside, closing, rfl, closes, lists⟩
          refine ⟨token :: inside, closing, rfl, closes, ?_⟩
          rwa [List.filter_cons_of_neg (by simp [apart])]
      | false =>
          have keeps : ∀ inside, (token :: inside).filter (! separatesParameters ·) =
              token :: inside.filter (! separatesParameters ·) :=
            fun inside => List.filter_cons_of_pos (by simp [apart])
          rcases cases_of_parameters_cons_eq_ok apart read with
            ⟨closes, rfl⟩ | ⟨identifier, more, moreRead, rfl⟩ | ⟨dots, more, moreRead, rfl⟩
          · exact ⟨[], token, rfl, closes, .fixed (List.forall_mem_nil _)⟩
          · rcases ih moreRead with ⟨inside, closing, rfl, closes, lists⟩
            refine ⟨token :: inside, closing, rfl, closes, ?_⟩
            rw [keeps]
            exact lists.cons identifier
          · rcases exists_of_parameters_true_eq_ok moreRead with
              ⟨inside, closing, rfl, closes, separate, unnamed, isVariadic⟩
            refine ⟨token :: inside, closing, rfl, closes, ?_⟩
            rw [keeps, List.filter_eq_nil_iff.mpr (by simpa using separate)]
            simp only [ParameterList.cons, unnamed, isVariadic]
            exact @ListsParameters.variadic [] token (List.forall_mem_nil _) dots

/-! ## Definitions -/

/-- The tokens behind a name give it the definition. -/
inductive WritesDefinition : List Token -> Macro.Definition -> Prop where
  /-- A replacement that is told apart from a parameter list. -/
  | object {body replacement : List Token}
      (apart : ∀ first ∈ body.head?, first.isPunctuator "(" = false)
      (trims : Trims body replacement) :
      WritesDefinition body { replacement }
  /-- A parameter list and a replacement. -/
  | function {opening closing : Token} {inside body replacement : List Token}
      {parameters : List String} {isVariadic : Bool}
      (opens : opening.isPunctuator "(" = true)
      (lists : ListsParameters (inside.filter (! separatesParameters ·)) parameters isVariadic)
      (closes : closing.isPunctuator ")" = true)
      (trims : Trims body replacement) :
      WritesDefinition (opening :: (inside ++ closing :: body))
        { replacement, parameters, isFunction := true, isVariadic }

/-- A definition is read from the tokens that give it, and from no others. -/
theorem definition_eq_ok_iff {tokens : List Token} {defined : Macro.Definition} :
    definition tokens = .ok defined ↔ WritesDefinition tokens defined := by
  constructor
  · intro read
    unfold definition at read
    split at read
    · cases read
      exact .object (by simp) (trims_trimBlanks [])
    · rename_i token rest
      split at read
      · rename_i opens
        rcases exists_of_bind_eq_ok read with ⟨list, listRead, result⟩
        cases result
        rcases exists_of_parameters_eq_ok listRead with ⟨inside, closing, rfl, closes, lists⟩
        exact .function opens lists closes (trims_trimBlanks list.after)
      · rename_i apart
        cases read
        exact .object (by simpa using apart) (trims_trimBlanks _)
  · intro writes
    cases writes with
    | object apart trims =>
        rw [← trims.trimBlanks_eq]
        cases tokens with
        | nil => rfl
        | cons first rest =>
            have noList : ¬ first.isPunctuator "(" = true := by simp [apart first rfl]
            exact if_neg noList
    | function opens lists closes trims =>
        rw [definition, if_pos opens, parameters_of_listsParameters lists closes,
          ← trims.trimBlanks_eq]
        rfl

/-- The definition behind a name is given to that name. -/
theorem namedDefinition_eq_ok {gap written : List Token} {name : Token}
    {defined : Macro.Definition} (blank : ∀ token ∈ gap, token.isWhitespace = true)
    (identifier : name.isIdentifier = true) (writes : WritesDefinition written defined) :
    namedDefinition (gap ++ name :: written) = .ok (name.lexeme, defined) := by
  have found : (gap ++ name :: written).dropWhile Token.isWhitespace = name :: written := by
    rw [List.dropWhile_append_of_pos blank, List.dropWhile_cons_of_neg]
    simp only [Token.isIdentifier, beq_iff_eq] at identifier
    simp [Token.isWhitespace, identifier]
  rw [namedDefinition, found]
  simp only [identifier, if_true, definition_eq_ok_iff.mpr writes]
  rfl

/-- The name of a directive tells what its other tokens are for. -/
theorem ofTokens_of_isName {gap tokens : List Token} {word : Token} {name : String}
    (blank : ∀ token ∈ gap, token.isWhitespace = true) (isWord : word.isName name = true) :
    Request.ofTokens (gap ++ word :: tokens) = Request.ofName name tokens := by
  simp only [Token.isName, Bool.and_eq_true, beq_iff_eq] at isWord
  have found : (gap ++ word :: tokens).dropWhile Token.isWhitespace = word :: tokens := by
    rw [List.dropWhile_append_of_pos blank, List.dropWhile_cons_of_neg]
    simp [Token.isWhitespace, isWord.1]
  rw [Request.ofTokens, found]
  simp [Token.isIdentifier, isWord.1, isWord.2]

end Directive

namespace Preprocess

open Directive

variable {setup : Setup} {process? : Option Process} {file : String} {groups : List Group}
  {line : Nat} {state : State}

/-- In an active branch, a directive that defines a name is obeyed: it brings no tokens, and
the name has the definition that is written, whatever it stood for.  All other names stand
for what they stood for, and nothing but the macros changes. -/
theorem processPiece_define {before between written : List Token} {word name : Token}
    {defined : Macro.Definition} (active : isActive groups = true)
    (leads : ∀ token ∈ before, token.isWhitespace = true) (asks : word.isName "define" = true)
    (parts : ∀ token ∈ between, token.isWhitespace = true)
    (identifier : name.isIdentifier = true) (writes : WritesDefinition written defined) :
    ∃ macros,
      processPiece setup process? file groups
          (.directive line (before ++ word :: (between ++ name :: written))) state =
        .ok (groups, []) { state with macros := macros } ∧
      ∀ other, macros.find? other =
        if other = name.lexeme then some defined else state.macros.find? other := by
  refine ⟨state.macros.define name.lexeme defined, ?_, fun other => Macro.Table.find?_define ..⟩
  have request : Request.ofTokens (before ++ word :: (between ++ name :: written)) =
      .define (between ++ name :: written) :=
    ofTokens_of_isName leads asks
  have named := namedDefinition_eq_ok parts identifier writes
  rw [processPiece, request]
  simp only [perform, active, if_true, obey, named]
  rfl

/-- A space between the tokens of a directive. -/
def spaceToken : Token := ⟨.whitespace, 4, " "⟩

/-- `define LOG( fmt , ...) (fmt) ` behind its `#`. -/
theorem processPiece_define_variadic :
    ∃ macros,
      processPiece ⟨fun _ => none, []⟩ none "log.h" [.opened true true]
          (.directive 4 ([] ++ ⟨.identifier, 4, "define"⟩ ::
            ([spaceToken] ++ ⟨.identifier, 4, "LOG"⟩ :: ⟨.punctuator, 4, "("⟩ ::
              ([spaceToken, ⟨.identifier, 4, "fmt"⟩, spaceToken, ⟨.punctuator, 4, ","⟩,
                spaceToken, ⟨.punctuator, 4, "..."⟩] ++ ⟨.punctuator, 4, ")"⟩ ::
              [spaceToken, ⟨.punctuator, 4, "("⟩, ⟨.identifier, 4, "fmt"⟩,
                ⟨.punctuator, 4, ")"⟩, spaceToken]))))
          (.initial (.define .empty "LOG" .sink)) =
        .ok ([.opened true true], []) { State.initial (.define .empty "LOG" .sink) with macros } ∧
      ∀ other, macros.find? other =
        if other = "LOG" then
          some ⟨[⟨.punctuator, 4, "("⟩, ⟨.identifier, 4, "fmt"⟩, ⟨.punctuator, 4, ")"⟩],
            ["fmt", "__VA_ARGS__"], true, true⟩
        else (Macro.Table.define .empty "LOG" .sink).find? other :=
  processPiece_define (by decide) (by decide) (by decide) (by decide) (by decide)
    (.function (by decide)
      (@ListsParameters.variadic [⟨.identifier, 4, "fmt"⟩] _ (by decide) (by decide)) (by decide)
      ⟨⟨[spaceToken], [spaceToken], by decide, by decide, by decide⟩, by decide, by decide⟩)

end Preprocess
end ObjectWrapper
