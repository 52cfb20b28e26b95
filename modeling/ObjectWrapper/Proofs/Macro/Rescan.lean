import ObjectWrapper.Proofs.Macro.Reachability
import ObjectWrapper.Proofs.Source.Trimming

namespace ObjectWrapper
namespace Macro

open Source

/-!
# Expansion of arguments that is repeated

An argument is expanded before it takes the place of its parameter, and the result is
read once more with the replacement.  The name that is hidden then is the one of the
macro that is called; names that have been left alone in the argument, because they were
hidden when it was expanded, are not hidden any longer.

How much this matters is seen best where the replacement is nothing but the parameter.
Such a macro does not leave its argument as it is when expanded alone: it expands the
argument twice.  Both come to the same if no name that is left after the first time is
one of a macro.
-/

/-! ## Names that do not occur -/

/-- The token is not the given name. -/
def Avoids (name : String) (token : Token) : Prop :=
  token.isName name = false

instance (name : String) (token : Token) : Decidable (Avoids name token) :=
  inferInstanceAs (Decidable (token.isName name = false))

section Avoiding

variable {table : Table} {name : String}

theorem lexeme_ne_of_avoids {token : Token} (avoids : Avoids name token)
    (isIdentifier : token.isIdentifier = true) : token.lexeme ≠ name := by
  rintro rfl
  have isName : token.isName token.lexeme = true := by
    rw [Token.isName, BEq.rfl, Bool.and_true]
    exact isIdentifier
  rw [Avoids, isName] at avoids
  cases avoids

theorem avoids_of_mem_expand (absent : (table.erase name).Holds (Avoids name))
    {tokens : List Token} (avoids : ∀ token ∈ tokens, Avoids name token) :
    ∀ token ∈ expand (table.erase name) tokens, Avoids name token :=
  absent.of_mem_expand (fun _ _ avoid => avoid) avoids

/-- A macro may be erased if neither the text nor another macro mentions it. -/
theorem expand_erase_of_avoids (absent : (table.erase name).Holds (Avoids name))
    {tokens : List Token} (avoids : ∀ token ∈ tokens, Avoids name token) :
    expand (table.erase name) tokens = expand table tokens := by
  apply expand_congr_of_agreesFrom
  intro reached reaches
  rcases reaches.exists_token with
    ⟨token, isIdentifier, rfl, inText | ⟨other, definition, found, inside⟩⟩
  · rw [Table.find?_erase, if_neg (lexeme_ne_of_avoids (avoids token inText) isIdentifier)]
  · have replaced := absent other definition found token inside
    rw [Table.find?_erase, if_neg (lexeme_ne_of_avoids replaced isIdentifier)]

end Avoiding

/-- Where no macro is named, nothing changes. -/
theorem expand_eq_self {table : Table} {tokens : List Token}
    (none : ∀ token ∈ tokens, token.isIdentifier = true -> table.find? token.lexeme = none) :
    expand table tokens = tokens := by
  induction tokens with
  | nil => exact expand_nil table
  | cons token rest ih =>
      have plain : table.usage token rest = .plain := by
        unfold Table.usage
        split
        · rename_i isIdentifier
          rw [none token List.mem_cons_self isIdentifier]
        · rfl
      rw [expand_cons, plain]
      simp only [ih fun other member => none other (List.mem_cons_of_mem token member)]

/-! ## Arguments in parentheses -/

/-- Every parenthesis has its counterpart.  Outside all of them there is no comma, unless
commas are allowed. -/
inductive Balanced : Bool -> List Token -> Prop where
  | nil {commas : Bool} : Balanced commas []
  | plain {commas : Bool} {token : Token} {rest : List Token} :
      token.isPunctuator "(" = false -> token.isPunctuator ")" = false ->
      (commas = true ∨ token.isPunctuator "," = false) -> Balanced commas rest ->
      Balanced commas (token :: rest)
  | group {commas : Bool} {opening closing : Token} {inner rest : List Token} :
      opening.isPunctuator "(" = true -> closing.isPunctuator ")" = true ->
      Balanced true inner -> Balanced commas rest ->
      Balanced commas (opening :: (inner ++ closing :: rest))

/-- Balanced tokens are collected as they stand, and what follows them after that. -/
theorem collect_append_of_balanced {commas : Bool} {tokens : List Token}
    (balanced : Balanced commas tokens) (separators : Option Nat) {depth : Nat}
    (enclosed : commas = true -> 0 < depth) (rest : List Token) :
    collect separators depth (tokens ++ rest) =
      (collect separators depth rest).map fun invocation =>
        tokens.foldr Invocation.extend invocation := by
  induction balanced generalizing depth rest with
  | nil =>
      rw [List.nil_append]
      cases collect separators depth rest <;> rfl
  | @plain commas token others noOpening noClosing noComma _ ih =>
      have joins : (token.isPunctuator "," && depth == 0 && separators != some 0) = false := by
        rcases noComma with allowed | noComma
        · have inside : (depth == 0) = false := beq_eq_false_iff_ne.mpr (by
            have := enclosed allowed
            omega)
          rw [inside, Bool.and_false, Bool.false_and]
        · rw [noComma, Bool.false_and, Bool.false_and]
      rw [List.cons_append, collect.eq_def]
      simp only [noOpening, noClosing, joins, Bool.false_eq_true, if_false, ih enclosed rest,
        Option.map_map]
      rfl
  | @group commas opening closing inner others opens closes _ _ innerIh ih =>
      have shape : opening :: (inner ++ closing :: others) ++ rest =
          opening :: (inner ++ closing :: (others ++ rest)) := by simp
      have noOpening : closing.isPunctuator "(" = false :=
        Token.isPunctuator_of_ne closes (by decide)
      have closed : collect separators (depth + 1) (closing :: (others ++ rest)) =
          (collect separators depth (others ++ rest)).map (Invocation.extend closing) := by
        rw [collect.eq_def]
        simp only [noOpening, closes, if_true, Bool.false_eq_true, if_false]
      rw [shape, collect.eq_def]
      simp only [opens, if_true]
      rw [innerIh (fun _ => Nat.succ_pos depth), closed, ih enclosed rest]
      simp only [Option.map_map, List.foldr_cons, List.foldr_append]
      rfl

theorem foldr_extend (tokens : List Token) (first after : List Token) (others : List (List Token)) :
    tokens.foldr Invocation.extend ⟨first :: others, after⟩ =
      ⟨(tokens ++ first) :: others, after⟩ := by
  induction tokens with
  | nil => rfl
  | cons token rest ih =>
      rw [List.foldr_cons, ih]
      rfl

theorem trimBlanks_eq_self {tokens : List Token}
    (front : ∀ token ∈ tokens.head?, token.isBlank = false)
    (back : ∀ token ∈ tokens.getLast?, token.isBlank = false) : trimBlanks tokens = tokens := by
  have noneAround : ∀ token ∈ ([] : List Token), token.isBlank = true := List.forall_mem_nil _
  exact Trims.trimBlanks_eq ⟨⟨[], [], (List.append_nil tokens).symm, noneAround, noneAround⟩, front, back⟩

/-- A single argument without blanks at its ends is taken as it is. -/
theorem Definition.invocation?_of_balanced (definition : Definition)
    {opening closing : Token} {argument : List Token}
    (opens : opening.isPunctuator "(" = true) (closes : closing.isPunctuator ")" = true)
    (balanced : Balanced false argument)
    (front : ∀ token ∈ argument.head?, token.isBlank = false)
    (back : ∀ token ∈ argument.getLast?, token.isBlank = false) (after : List Token) :
    definition.invocation? (opening :: (argument ++ closing :: after)) =
      some ⟨[argument], after⟩ := by
  have noBlank : opening.isBlank = false := Token.isBlank_of_isPunctuator opens
  have closed : collect definition.separators 0 (closing :: after) = some ⟨[[]], after⟩ := by
    rw [collect, Token.isPunctuator_of_ne closes (by decide), if_neg Bool.false_ne_true,
      if_pos closes]
  unfold Definition.invocation?
  rw [List.dropWhile_cons, noBlank, if_neg Bool.false_ne_true]
  simp only [opens, if_true]
  rw [collect_append_of_balanced balanced _ Bool.noConfusion, closed, Option.map_some,
    foldr_extend, List.append_nil, Option.map_some, List.map_singleton,
    trimBlanks_eq_self front back]

/-! ## A macro that is its argument -/

/-- The macro that is replaced by its only argument. -/
def Definition.identity (parameter : Token) : Definition :=
  { replacement := [parameter], parameters := [parameter.lexeme], isFunction := true }

theorem usage_identity {table : Table} {parameter name opening closing : Token}
    {argument after : List Token} (isIdentifier : name.isIdentifier = true)
    (found : table.find? name.lexeme = some (.identity parameter))
    (opens : opening.isPunctuator "(" = true) (closes : closing.isPunctuator ")" = true)
    (balanced : Balanced false argument)
    (front : ∀ token ∈ argument.head?, token.isBlank = false)
    (back : ∀ token ∈ argument.getLast?, token.isBlank = false) :
    table.usage name (opening :: (argument ++ closing :: after)) =
      .function (.identity parameter) ⟨[argument], after⟩ := by
  have invoked := Definition.invocation?_of_balanced (.identity parameter) opens closes balanced
    front back after
  simp only [Table.usage, isIdentifier, if_true, found, invoked]
  rfl

/-- Invoking such a macro expands its argument twice.  So it comes to the same as
expanding the argument alone if no macro is named in what that leaves. -/
theorem expand_identity {table : Table} {parameter name opening closing : Token}
    {argument : List Token} (isParameter : parameter.isIdentifier = true)
    (isName : name.isIdentifier = true)
    (found : table.find? name.lexeme = some (.identity parameter))
    (absent : (table.erase name.lexeme).Holds (Avoids name.lexeme))
    (avoids : ∀ token ∈ argument, Avoids name.lexeme token)
    (opens : opening.isPunctuator "(" = true) (closes : closing.isPunctuator ")" = true)
    (balanced : Balanced false argument)
    (front : ∀ token ∈ argument.head?, token.isBlank = false)
    (back : ∀ token ∈ argument.getLast?, token.isBlank = false) :
    expand table (name :: opening :: (argument ++ [closing])) =
        expand table (expand table argument) ∧
      ((∀ token ∈ expand table argument, token.isIdentifier = true ->
          table.find? token.lexeme = none) ->
        expand table (name :: opening :: (argument ++ [closing])) = expand table argument) := by
  have used : table.usage name (opening :: (argument ++ [closing])) =
      .function (.identity parameter) ⟨[argument], []⟩ :=
    usage_identity isName found opens closes balanced front back
  have substituted : (Definition.identity parameter).substitute name.line
      (fun position => expand table (Invocation.argument ⟨[argument], []⟩ position)) =
      expand table argument := by
    have position : (Definition.identity parameter).position? parameter = some 0 := by
      rw [Definition.position?, if_pos isParameter, Definition.identity, List.idxOf?_cons,
        BEq.rfl, if_pos rfl]
    have single : (Definition.identity parameter).replacement = [parameter] := rfl
    rw [Definition.substitute, single, List.flatMap_singleton, position]
    rfl
  -- the argument does not come to mention the macro, so hiding it makes no difference
  have first := expand_erase_of_avoids absent avoids
  have left : ∀ token ∈ expand table argument, Avoids name.lexeme token := by
    rw [← first]
    exact avoids_of_mem_expand absent avoids
  have twice : expand table (name :: opening :: (argument ++ [closing])) =
      expand table (expand table argument) := by
    rw [expand_cons, used]
    simp only [substituted, expand_nil, List.append_nil]
    exact expand_erase_of_avoids absent left
  refine ⟨twice, fun nothingLeft => ?_⟩
  rw [twice]
  exact expand_eq_self nothingLeft

/-- A macro that is its argument, one that swaps its arguments, and one that mentions
itself. -/
def swapping : Table :=
  ⟨[("ID", .identity ⟨.identifier, 1, "y"⟩),
    ("SWAP", {
      replacement := [⟨.identifier, 2, "v"⟩, ⟨.identifier, 2, "u"⟩]
      parameters := ["u", "v"]
      isFunction := true }),
    ("A", { replacement := [⟨.identifier, 3, "A"⟩, ⟨.identifier, 3, "x"⟩] })]⟩

/-- The argument `SWAP(first,(1))`. -/
def swapped (first : Token) : List Token :=
  [⟨.identifier, 5, "SWAP"⟩, ⟨.punctuator, 5, "("⟩, first, ⟨.punctuator, 5, ","⟩,
    ⟨.punctuator, 5, "("⟩, ⟨.number, 5, "1"⟩, ⟨.punctuator, 5, ")"⟩, ⟨.punctuator, 5, ")"⟩]

theorem balanced_swapped {first : Token} (notOpening : first.isPunctuator "(" = false)
    (notClosing : first.isPunctuator ")" = false) : Balanced false (swapped first) := by
  have number : Balanced true [⟨.number, 5, "1"⟩] := .plain rfl rfl (.inl rfl) .nil
  have group : Balanced true [⟨.punctuator, 5, "("⟩, ⟨.number, 5, "1"⟩, ⟨.punctuator, 5, ")"⟩] :=
    @Balanced.group true ⟨.punctuator, 5, "("⟩ ⟨.punctuator, 5, ")"⟩ _ [] rfl rfl number .nil
  have arguments : Balanced true (first :: ⟨.punctuator, 5, ","⟩ ::
      [⟨.punctuator, 5, "("⟩, ⟨.number, 5, "1"⟩, ⟨.punctuator, 5, ")"⟩]) :=
    .plain notOpening notClosing (.inl rfl) (.plain rfl rfl (.inl rfl) group)
  exact .plain rfl rfl (.inr rfl)
    (@Balanced.group false ⟨.punctuator, 5, "("⟩ ⟨.punctuator, 5, ")"⟩ _ [] rfl rfl arguments .nil)

/-- The invocation `ID(SWAP(first,(1)))`. -/
def identityOfSwapped (first : Token) : List Token :=
  ⟨.identifier, 5, "ID"⟩ :: ⟨.punctuator, 5, "("⟩ :: (swapped first ++ [⟨.punctuator, 5, ")"⟩])

/-- The name `A` is left over when the argument is expanded, the number `2` is not a name. -/
theorem expand_identity_swapped :
    swapping.find? "ID" = some (.identity ⟨.identifier, 1, "y"⟩) ∧
      (swapping.erase "ID").Holds (Avoids "ID") ∧
      (∀ token ∈ swapped ⟨.identifier, 5, "A"⟩, Avoids "ID" token) ∧
      (∀ token ∈ swapped ⟨.number, 5, "2"⟩, Avoids "ID" token) ∧
      Balanced false (swapped ⟨.identifier, 5, "A"⟩) ∧
      Balanced false (swapped ⟨.number, 5, "2"⟩) ∧
      expand swapping (identityOfSwapped ⟨.identifier, 5, "A"⟩) =
        expand swapping (expand swapping (swapped ⟨.identifier, 5, "A"⟩)) ∧
      (∀ token ∈ expand swapping (swapped ⟨.number, 5, "2"⟩), token.isIdentifier = true ->
        swapping.find? token.lexeme = none) ∧
      expand swapping (identityOfSwapped ⟨.number, 5, "2"⟩) =
        expand swapping (swapped ⟨.number, 5, "2"⟩) ∧
      (expand swapping (identityOfSwapped ⟨.identifier, 5, "A"⟩)).map Token.lexeme =
        ["(", "1", ")", "A", "x", "x", "x"] ∧
      (expand swapping (identityOfSwapped ⟨.number, 5, "2"⟩)).map Token.lexeme =
        ["(", "1", ")", "2"] := by
  have found : swapping.find? "ID" = some (.identity ⟨.identifier, 1, "y"⟩) := by decide
  have absent : (swapping.erase "ID").Holds (Avoids "ID") := Table.holds_of_entries (by decide)
  have nameAvoids : ∀ token ∈ swapped ⟨.identifier, 5, "A"⟩, Avoids "ID" token := by decide
  have numberAvoids : ∀ token ∈ swapped ⟨.number, 5, "2"⟩, Avoids "ID" token := by decide
  have nameBalanced : Balanced false (swapped ⟨.identifier, 5, "A"⟩) := balanced_swapped rfl rfl
  have numberBalanced : Balanced false (swapped ⟨.number, 5, "2"⟩) := balanced_swapped rfl rfl
  have nothingLeft : ∀ token ∈ expand swapping (swapped ⟨.number, 5, "2"⟩),
      token.isIdentifier = true -> swapping.find? token.lexeme = none := by decide +kernel
  have isName : Token.isIdentifier ⟨.identifier, 5, "ID"⟩ = true := rfl
  have opens : Token.isPunctuator ⟨.punctuator, 5, "("⟩ "(" = true := rfl
  have closes : Token.isPunctuator ⟨.punctuator, 5, ")"⟩ ")" = true := rfl
  have ofName := expand_identity rfl isName found absent nameAvoids opens closes nameBalanced
    (by decide) (by decide)
  have ofNumber := expand_identity rfl isName found absent numberAvoids opens closes numberBalanced
    (by decide) (by decide)
  exact ⟨found, absent, nameAvoids, numberAvoids, nameBalanced, numberBalanced, ofName.1,
    nothingLeft, ofNumber.2 nothingLeft, by decide +kernel, by decide +kernel⟩

/-- A name that was left alone in an argument is expanded again after it has been
substituted. -/
theorem not_expand_identity_eq_expand :
    ¬ ∀ (table : Table) (parameter name opening closing : Token) (argument : List Token),
      parameter.isIdentifier = true -> name.isIdentifier = true ->
      table.find? name.lexeme = some (.identity parameter) ->
      (table.erase name.lexeme).Holds (Avoids name.lexeme) ->
      (∀ token ∈ argument, Avoids name.lexeme token) ->
      opening.isPunctuator "(" = true -> closing.isPunctuator ")" = true ->
      Balanced false argument ->
      (∀ token ∈ argument.head?, token.isBlank = false) ->
      (∀ token ∈ argument.getLast?, token.isBlank = false) ->
      (expand table (name :: opening :: (argument ++ [closing]))).map
          (fun token => (token.kind, token.lexeme)) =
        (expand table argument).map fun token => (token.kind, token.lexeme) := by
  intro claim
  have same := claim swapping ⟨.identifier, 1, "y"⟩ ⟨.identifier, 5, "ID"⟩ ⟨.punctuator, 5, "("⟩
    ⟨.punctuator, 5, ")"⟩ [⟨.identifier, 5, "A"⟩] rfl rfl (by decide)
    (Table.holds_of_entries (by decide)) (by decide) rfl rfl (.plain rfl rfl (.inr rfl) .nil)
    (by decide) (by decide)
  exact absurd same (by decide +kernel)

end Macro
end ObjectWrapper
