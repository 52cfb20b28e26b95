import Mathlib.Data.List.Basic
import Mathlib.Order.RelClasses
import ObjectWrapper.Macro.Expansion

namespace ObjectWrapper
namespace Macro

open Source

/-!
# Calls of expansion

Expansion can also be read as a procedure that is called with a list of hidden
names and goes through its tokens from front to back.  At a name that is neither
hidden nor without definition it calls itself: for the arguments of an invocation,
with the same names hidden, and for the replacement, with the name hidden as well.
The table stays whole.  A call returns when each call it makes does.

Nothing here presupposes that calls return.  The main statement is that they do,
with the tokens that `expand` yields, because each call hides a further name of
the table or reads fewer tokens, and because the loop of a call only moves
forward.
-/

/-- The table without the hidden names, the last one hidden first. -/
def Table.hide (table : Table) (hidden : List String) : Table :=
  hidden.foldr (fun name rest => rest.erase name) table

theorem Table.find?_hide (table : Table) (hidden : List String) (name : String) :
    (table.hide hidden).find? name = if name ∈ hidden then none else table.find? name := by
  induction hidden with
  | nil => simp [Table.hide]
  | cons first rest ih =>
      have erased : table.hide (first :: rest) = (table.hide rest).erase first := rfl
      rw [erased, Table.find?_erase, ih]
      by_cases same : name = first <;> simp [same]

/-- How a token is to be read while some names are hidden. -/
def Table.usageHiding (table : Table) (hidden : List String) (token : Token)
    (following : List Token) : Usage :=
  if token.lexeme ∈ hidden then .plain else table.usage token following

/-- Hidden names are read as if they were not defined. -/
theorem Table.usage_hide (table : Table) (hidden : List String) (token : Token)
    (following : List Token) :
    (table.hide hidden).usage token following = table.usageHiding hidden token following := by
  unfold Table.usageHiding Table.usage
  rw [Table.find?_hide]
  by_cases hides : token.lexeme ∈ hidden <;> simp [hides]

/-- The positions of the parameters that occur in the replacement. -/
def Definition.positions (definition : Definition) : List Nat :=
  definition.replacement.filterMap definition.position?

/-- Only the arguments whose parameters occur are looked at. -/
theorem Definition.substitute_congr (definition : Definition) (line : Nat)
    {first second : Nat -> List Token}
    (agree : ∀ position ∈ definition.positions, first position = second position) :
    definition.substitute line first = definition.substitute line second := by
  unfold Definition.substitute
  apply List.flatMap_congr
  intro token member
  cases found : definition.position? token with
  | none => rfl
  | some position => exact agree position (List.mem_filterMap.mpr ⟨token, member, found⟩)

/-! ## The procedure -/

/-- What a call is given. -/
structure Call where
  hidden : List String
  tokens : List Token
deriving DecidableEq, Repr

/-- What a call yields, once it returns. -/
inductive Returns (table : Table) : List String -> List Token -> List Token -> Prop where
  | nil (hidden : List String) : Returns table hidden [] []
  | plain {hidden : List String} {token : Token} {rest output : List Token} :
      table.usageHiding hidden token rest = .plain ->
      Returns table hidden rest output ->
      Returns table hidden (token :: rest) (token :: output)
  | object {hidden : List String} {token : Token} {rest inner output : List Token}
      {definition : Definition} :
      table.usageHiding hidden token rest = .object definition ->
      Returns table (token.lexeme :: hidden) (definition.replacementAt token.line) inner ->
      Returns table hidden rest output ->
      Returns table hidden (token :: rest) (inner ++ output)
  | function {hidden : List String} {token : Token} {rest inner output : List Token}
      {definition : Definition} {invocation : Invocation} {arguments : Nat -> List Token} :
      table.usageHiding hidden token rest = .function definition invocation ->
      (∀ position ∈ definition.positions,
        Returns table hidden (invocation.argument position) (arguments position)) ->
      Returns table (token.lexeme :: hidden) (definition.substitute token.line arguments) inner ->
      Returns table hidden invocation.after output ->
      Returns table hidden (token :: rest) (inner ++ output)

/-- One round of the loop of a call: from the tokens at which it begins to those
at which the next one does. -/
inductive Advances (table : Table) (hidden : List String) : List Token -> List Token -> Prop where
  | plain {token : Token} {rest : List Token} :
      table.usageHiding hidden token rest = .plain -> Advances table hidden (token :: rest) rest
  | object {token : Token} {rest : List Token} {definition : Definition} :
      table.usageHiding hidden token rest = .object definition ->
      Advances table hidden (token :: rest) rest
  | function {token : Token} {rest : List Token} {definition : Definition}
      {invocation : Invocation} :
      table.usageHiding hidden token rest = .function definition invocation ->
      Advances table hidden (token :: rest) invocation.after

/-- The first call makes the second in some round of its loop. -/
inductive Calls (table : Table) : Call -> Call -> Prop where
  | object {hidden : List String} {tokens : List Token} {token : Token} {rest : List Token}
      {definition : Definition} :
      Relation.ReflTransGen (Advances table hidden) tokens (token :: rest) ->
      table.usageHiding hidden token rest = .object definition ->
      Calls table ⟨hidden, tokens⟩ ⟨token.lexeme :: hidden, definition.replacementAt token.line⟩
  | argument {hidden : List String} {tokens : List Token} {token : Token} {rest : List Token}
      {definition : Definition} {invocation : Invocation} {position : Nat} :
      Relation.ReflTransGen (Advances table hidden) tokens (token :: rest) ->
      table.usageHiding hidden token rest = .function definition invocation ->
      position ∈ definition.positions ->
      Calls table ⟨hidden, tokens⟩ ⟨hidden, invocation.argument position⟩
  | function {hidden : List String} {tokens : List Token} {token : Token} {rest : List Token}
      {definition : Definition} {invocation : Invocation} {arguments : Nat -> List Token} :
      Relation.ReflTransGen (Advances table hidden) tokens (token :: rest) ->
      table.usageHiding hidden token rest = .function definition invocation ->
      (∀ position ∈ definition.positions,
        Returns table hidden (invocation.argument position) (arguments position)) ->
      Calls table ⟨hidden, tokens⟩
        ⟨token.lexeme :: hidden, definition.substitute token.line arguments⟩

/-! ## The loop moves forward -/

theorem collect_after_isSuffix {separators : Option Nat} {depth : Nat} {tokens : List Token}
    {invocation : Invocation} (found : collect separators depth tokens = some invocation) :
    invocation.after <:+ tokens := by
  induction tokens generalizing separators depth invocation with
  | nil => simp [collect] at found
  | cons token rest ih =>
      have continued {separators : Option Nat} {depth : Nat} {change : Invocation -> Invocation}
          (found : (collect separators depth rest).map change = some invocation)
          (keeps : ∀ inner, (change inner).after = inner.after) :
          invocation.after <:+ token :: rest := by
        rcases Option.map_eq_some_iff.mp found with ⟨inner, innerFound, rfl⟩
        rw [keeps]
        exact (ih innerFound).trans (List.suffix_cons token rest)
      unfold collect at found
      split at found
      · exact continued found fun _ => rfl
      split at found
      · split at found
        · cases found
          exact List.suffix_cons token rest
        · exact continued found fun _ => rfl
      split at found
      · exact continued found fun _ => rfl
      · exact continued found fun _ => rfl

theorem Definition.invocation?_after_isSuffix {definition : Definition} {tokens : List Token}
    {invocation : Invocation} (found : definition.invocation? tokens = some invocation) :
    invocation.after <:+ tokens := by
  unfold Definition.invocation? at found
  have skipped := List.dropWhile_suffix (l := tokens) Token.isBlank
  split at found
  · cases found
  · rename_i opening rest shape
    rw [shape] at skipped
    split at found
    · rcases Option.map_eq_some_iff.mp found with ⟨raw, rawFound, rfl⟩
      exact (collect_after_isSuffix rawFound).trans ((List.suffix_cons opening rest).trans skipped)
    · cases found

theorem of_usageHiding_object {table : Table} {hidden : List String} {token : Token}
    {following : List Token} {definition : Definition}
    (used : table.usageHiding hidden token following = .object definition) :
    token.lexeme ∉ hidden ∧ table.find? token.lexeme = some definition := by
  unfold Table.usageHiding at used
  split at used
  · cases used
  · exact ⟨by assumption, find?_of_usage_object used⟩

theorem of_usageHiding_function {table : Table} {hidden : List String} {token : Token}
    {following : List Token} {definition : Definition} {invocation : Invocation}
    (used : table.usageHiding hidden token following = .function definition invocation) :
    token.lexeme ∉ hidden ∧ table.find? token.lexeme = some definition ∧
      definition.invocation? following = some invocation := by
  unfold Table.usageHiding at used
  split at used
  · cases used
  · exact ⟨by assumption, of_usage_function used⟩

/-- A round begins with fewer tokens than the one before it, the last ones of them. -/
theorem Advances.isSuffix_and_length_lt {table : Table} {hidden : List String}
    {position next : List Token} (advances : Advances table hidden position next) :
    next <:+ position ∧ next.length < position.length := by
  cases advances with
  | plain used => exact ⟨List.suffix_cons _ _, Nat.lt_succ_self _⟩
  | object used => exact ⟨List.suffix_cons _ _, Nat.lt_succ_self _⟩
  | function used =>
      have found := (of_usageHiding_function used).2.2
      have suffix := Definition.invocation?_after_isSuffix found
      exact ⟨suffix.trans (List.suffix_cons _ _), Nat.lt_succ_of_lt
        (Definition.invocation?_bounds found).1⟩

/-- The loop goes on until no tokens are left. -/
theorem exists_advances (table : Table) (hidden : List String) (token : Token)
    (rest : List Token) : ∃ next, Advances table hidden (token :: rest) next := by
  cases used : table.usageHiding hidden token rest with
  | plain => exact ⟨rest, .plain used⟩
  | object definition => exact ⟨rest, .object used⟩
  | function definition invocation => exact ⟨invocation.after, .function used⟩

/-- Every round begins within the tokens of the call. -/
theorem isSuffix_of_reflTransGen {table : Table} {hidden : List String}
    {tokens position : List Token}
    (reached : Relation.ReflTransGen (Advances table hidden) tokens position) :
    position <:+ tokens := by
  induction reached with
  | refl => exact List.suffix_refl tokens
  | tail _ advances ih => exact advances.isSuffix_and_length_lt.1.trans ih

/-! ## Calls hide more or read less -/

/-- The called call hides one more name of the table. -/
def Call.HidesMore (table : Table) (caller callee : Call) : Prop :=
  ∃ name, table.contains name ∧ name ∉ caller.hidden ∧ callee.hidden = name :: caller.hidden

/-- The called call hides the same names and reads fewer tokens. -/
def Call.ReadsLess (caller callee : Call) : Prop :=
  callee.hidden = caller.hidden ∧ callee.tokens.length < caller.tokens.length

theorem Calls.hidesMore_or_readsLess {table : Table} {caller callee : Call}
    (called : Calls table caller callee) :
    caller.HidesMore table callee ∨ caller.ReadsLess callee := by
  cases called with
  | object reached used =>
      rcases of_usageHiding_object used with ⟨shown, found⟩
      exact Or.inl ⟨_, Option.isSome_of_eq_some found, shown, rfl⟩
  | argument reached used occurs =>
      have found := (of_usageHiding_function used).2.2
      have within := (isSuffix_of_reflTransGen reached).length_le
      exact Or.inr ⟨rfl, Nat.lt_of_lt_of_le (Nat.lt_succ_of_lt
        (Definition.invocation?_argument_length found _)) within⟩
  | function reached used returned =>
      rcases of_usageHiding_function used with ⟨shown, found, _⟩
      exact Or.inl ⟨_, Option.isSome_of_eq_some found, shown, rfl⟩

/-- What decreases from call to call: the names of the table that are not hidden,
or else the tokens. -/
def Call.measure (table : Table) (call : Call) : Nat × Nat :=
  ((table.hide call.hidden).size, call.tokens.length)

theorem Calls.measure_lt {table : Table} {caller callee : Call}
    (called : Calls table caller callee) :
    Prod.Lex (· < ·) (· < ·) (callee.measure table) (caller.measure table) := by
  rcases called.hidesMore_or_readsLess with ⟨name, defined, shown, hides⟩ | ⟨same, fewer⟩
  · have found : ((table.hide caller.hidden).find? name).isSome := by
      rw [Table.find?_hide, if_neg shown]
      exact defined
    apply Prod.Lex.left
    rw [hides]
    exact Table.size_erase_lt found
  · unfold Call.measure
    rw [same]
    exact Prod.Lex.right _ fewer

/-- No chain of calls is infinite. -/
theorem Calls.wellFounded (table : Table) :
    WellFounded fun callee caller => Calls table caller callee :=
  Subrelation.wf Calls.measure_lt
    (InvImage.wf (Call.measure table) (Nat.lt_wfRel.wf.prod_lex Nat.lt_wfRel.wf))

/-! ## Calls return -/

/-- A call returns the expansion with the table that lacks the hidden names. -/
theorem returns_expand_hide (table : Table) (hidden : List String) (tokens : List Token) :
    Returns table hidden tokens (expand (table.hide hidden) tokens) := by
  have along : ∀ (smaller : Table) (tokens : List Token) (hidden : List String),
      smaller = table.hide hidden -> Returns table hidden tokens (expand smaller tokens) := by
    apply expand_induction
    case nil =>
      intro smaller hidden equal
      rw [expand_nil]
      exact .nil hidden
    case plain =>
      intro smaller token rest used ih hidden equal
      rw [expand_cons, used]
      subst equal
      rw [Table.usage_hide] at used
      exact .plain used (ih hidden rfl)
    case object =>
      intro smaller token rest definition used bodyIh restIh hidden equal
      rw [expand_cons, used]
      subst equal
      rw [Table.usage_hide] at used
      exact .object used (bodyIh (token.lexeme :: hidden) rfl) (restIh hidden rfl)
    case function =>
      intro smaller token rest definition invocation used argumentIh bodyIh afterIh hidden equal
      rw [expand_cons, used]
      subst equal
      rw [Table.usage_hide] at used
      exact .function used (fun position _ => argumentIh position hidden rfl)
        (bodyIh (token.lexeme :: hidden) rfl) (afterIh hidden rfl)
  exact along (table.hide hidden) tokens hidden rfl

/-- A call returns nothing else. -/
theorem Returns.eq_expand_hide {table : Table} {hidden : List String}
    {tokens output : List Token} (returned : Returns table hidden tokens output) :
    output = expand (table.hide hidden) tokens := by
  induction returned with
  | nil hidden => rw [expand_nil]
  | plain used _ ih =>
      rw [expand_cons, Table.usage_hide, used, ih]
  | object used _ _ bodyIh restIh =>
      rw [expand_cons, Table.usage_hide, used, bodyIh, restIh]
      rfl
  | @function hidden token rest inner output definition invocation arguments used _ _ _
      argumentIh bodyIh afterIh =>
      rw [expand_cons, Table.usage_hide, used, bodyIh, afterIh,
        definition.substitute_congr token.line argumentIh]
      rfl

/-- Expansion ends for every table and token list.  The call that hides nothing
returns, and returns the expansion; calls are never nested without end, because
each hides a further name of the table or keeps the hidden names and reads fewer
tokens; and each round of a loop begins further on. -/
theorem expansion_ends (table : Table) :
    (∀ tokens output, Returns table [] tokens output ↔ output = expand table tokens) ∧
      (WellFounded fun callee caller => Calls table caller callee) ∧
      (∀ caller callee, Calls table caller callee ->
        caller.HidesMore table callee ∨ caller.ReadsLess callee) ∧
      (∀ hidden token rest, ∃ next, Advances table hidden (token :: rest) next) ∧
      ∀ hidden position next, Advances table hidden position next ->
        next <:+ position ∧ next.length < position.length := by
  refine ⟨?_, Calls.wellFounded table, fun caller callee called => called.hidesMore_or_readsLess,
    exists_advances table, fun hidden position next advances => advances.isSuffix_and_length_lt⟩
  intro tokens output
  constructor
  · intro returned
    exact returned.eq_expand_hide
  · intro equal
    rw [equal]
    exact returns_expand_hide table [] tokens

end Macro
end ObjectWrapper
