import ObjectWrapper.Proofs.Macro.Calls

namespace ObjectWrapper
namespace Macro

open Source

/-!
# Where expanded tokens come from

Expansion makes no tokens of its own.  Each token of an expansion stands in the
text that is expanded, or in the replacement of some macro of the table; then it
has been moved to the line of a token of that text, however many replacements lie
between the two.  So what holds of the text and of all replacements, whatever their
lines, holds of the expansion.
-/

/-- The token stands in the text, or is a token of a replacement on a line of the
text. -/
def Table.Supplies (table : Table) (text : List Token) (token : Token) : Prop :=
  token ∈ text ∨ ∃ name definition, table.find? name = some definition ∧
    ∃ replaced ∈ definition.replacement, ∃ placed ∈ text, token = replaced.atLine placed.line

theorem Table.Supplies.exists_line {table : Table} {text : List Token} {token : Token}
    (supplies : table.Supplies text token) : ∃ placed ∈ text, token.line = placed.line := by
  rcases supplies with present | ⟨_, _, _, replaced, _, placed, member, rfl⟩
  · exact ⟨token, present, rfl⟩
  · exact ⟨placed, member, rfl⟩

theorem Table.Supplies.mono {table : Table} {first second : List Token} {token : Token}
    (supplies : table.Supplies first token) (subset : first ⊆ second) :
    table.Supplies second token := by
  rcases supplies with present | ⟨name, definition, found, replaced, inside, placed, member, equal⟩
  · exact Or.inl (subset present)
  · exact Or.inr ⟨name, definition, found, replaced, inside, placed, subset member, equal⟩

theorem Table.supplies_replaced {table : Table} {text : List Token} {name : String}
    {definition : Definition} (found : table.find? name = some definition) {replaced placed : Token}
    (inside : replaced ∈ definition.replacement) (member : placed ∈ text) :
    table.Supplies text (replaced.atLine placed.line) :=
  Or.inr ⟨name, definition, found, replaced, inside, placed, member, rfl⟩

/-- What a smaller table makes of supplied tokens is supplied as well. -/
theorem Table.Supplies.of_erase {table : Table} {name : String} {text inner : List Token}
    {token : Token} (supplies : (table.erase name).Supplies inner token)
    (innerSupplied : ∀ other ∈ inner, table.Supplies text other) : table.Supplies text token := by
  rcases supplies with present | ⟨key, definition, found, replaced, inside, placed, member, rfl⟩
  · exact innerSupplied token present
  · rw [Table.find?_erase] at found
    split at found
    · cases found
    · rcases (innerSupplied placed member).exists_line with ⟨source, sourceMember, sameLine⟩
      rw [sameLine]
      exact Table.supplies_replaced found inside sourceMember

/-! ## Arguments -/

theorem collect_arguments_subset {separators : Option Nat} {depth : Nat} {tokens : List Token}
    {invocation : Invocation} (found : collect separators depth tokens = some invocation) :
    ∀ argument ∈ invocation.arguments, argument ⊆ tokens := by
  induction tokens generalizing separators depth invocation with
  | nil => simp [collect] at found
  | cons token rest ih =>
      have extended {separators : Option Nat} {depth : Nat}
          (found : (collect separators depth rest).map (Invocation.extend token) =
            some invocation) : ∀ argument ∈ invocation.arguments, argument ⊆ token :: rest := by
        rcases Option.map_eq_some_iff.mp found with ⟨inner, innerFound, rfl⟩
        have within := ih innerFound
        intro argument member
        rcases List.mem_cons.mp member with rfl | later
        · apply List.cons_subset_cons
          cases shape : inner.arguments with
          | nil => exact List.nil_subset rest
          | cons first more => exact within first (by rw [shape]; exact List.mem_cons_self)
        · exact List.subset_cons_of_subset token (within argument (List.mem_of_mem_drop later))
      unfold collect at found
      split at found
      · exact extended found
      split at found
      · split at found
        · cases found
          simp
        · exact extended found
      split at found
      · rcases Option.map_eq_some_iff.mp found with ⟨inner, innerFound, rfl⟩
        intro argument member
        rcases List.mem_cons.mp member with rfl | later
        · exact List.nil_subset _
        · exact List.subset_cons_of_subset token (ih innerFound argument later)
      · exact extended found

theorem trimBlanks_subset (tokens : List Token) : trimBlanks tokens ⊆ tokens := by
  intro token member
  have inner := (List.dropWhile_sublist _).subset (List.mem_reverse.mp member)
  exact (List.dropWhile_sublist _).subset (List.mem_reverse.mp inner)

theorem Definition.invocation?_argument_subset {definition : Definition} {tokens : List Token}
    {invocation : Invocation} (found : definition.invocation? tokens = some invocation)
    (position : Nat) : invocation.argument position ⊆ tokens := by
  unfold Definition.invocation? at found
  have skipped := (List.dropWhile_suffix (l := tokens) Token.isBlank).subset
  split at found
  · cases found
  · rename_i opening rest shape
    rw [shape] at skipped
    split at found
    · rcases Option.map_eq_some_iff.mp found with ⟨raw, rawFound, rfl⟩
      unfold Invocation.argument
      rw [List.getD_eq_getElem?_getD, List.getElem?_map]
      cases given : raw.arguments[position]? with
      | none => exact List.nil_subset tokens
      | some argument =>
          have within := collect_arguments_subset rawFound argument (List.mem_of_getElem? given)
          have inRest : trimBlanks argument ⊆ rest :=
            List.Subset.trans (trimBlanks_subset argument) within
          exact List.Subset.trans (List.subset_cons_of_subset opening inRest) skipped
    · cases found

theorem Definition.mem_substitute {definition : Definition} {line : Nat}
    {argument : Nat -> List Token} {token : Token}
    (member : token ∈ definition.substitute line argument) :
    (∃ replaced ∈ definition.replacement, token = replaced.atLine line) ∨
      ∃ position, token ∈ argument position := by
  rcases List.mem_flatMap.mp member with ⟨replaced, inside, produced⟩
  split at produced
  · exact Or.inr ⟨_, produced⟩
  · exact Or.inl ⟨replaced, inside, List.mem_singleton.mp produced⟩

/-! ## Expansion -/

/-- What is to hold of the tokens of expansions holds of them if it holds of the tokens of a
text, is not lost where the text is part of a longer one, and passes from a replacement to the
text of the name that is replaced; the arguments of an invocation have been expanded then. -/
theorem forall_mem_expand {motive : Table -> List Token -> Token -> Prop}
    (present : ∀ table token rest, motive table (token :: rest) token)
    (mono : ∀ table first second token, first ⊆ second -> motive table first token ->
      motive table second token)
    (object : ∀ table token rest definition, table.usage token rest = .object definition ->
      ∀ other, motive (table.erase token.lexeme) (definition.replacementAt token.line) other ->
        motive table (token :: rest) other)
    (function : ∀ table token rest definition invocation,
      table.usage token rest = .function definition invocation ->
      (∀ position, ∀ given ∈ expand table (invocation.argument position),
        motive table rest given) ->
      ∀ other, motive (table.erase token.lexeme)
          (definition.substitute token.line fun position =>
            expand table (invocation.argument position)) other ->
        motive table (token :: rest) other)
    (table : Table) (tokens : List Token) :
    ∀ token ∈ expand table tokens, motive table tokens token := by
  apply expand_induction (motive := fun table tokens =>
    ∀ token ∈ expand table tokens, motive table tokens token)
  case nil =>
    intro table token member
    rw [expand_nil] at member
    cases member
  case plain =>
    intro table first rest used ih token member
    rw [expand_cons, used] at member
    rcases List.mem_cons.mp member with rfl | later
    · exact present table token rest
    · exact mono table _ _ token (List.subset_cons_self first rest) (ih token later)
  case object =>
    intro table first rest definition used bodyIh restIh token member
    rw [expand_cons, used] at member
    rcases List.mem_append.mp member with inBody | later
    · exact object table first rest definition used token (bodyIh token inBody)
    · exact mono table _ _ token (List.subset_cons_self first rest) (restIh token later)
  case function =>
    intro table first rest definition invocation used argumentIh bodyIh afterIh token member
    rw [expand_cons, used] at member
    have invoked := (of_usage_function used).2
    rcases List.mem_append.mp member with inBody | later
    · refine function table first rest definition invocation used ?_ token (bodyIh token inBody)
      intro position given inArgument
      exact mono table _ _ given (Definition.invocation?_argument_subset invoked position)
        (argumentIh position given inArgument)
    · have behind := (Definition.invocation?_after_isSuffix invoked).subset
      exact mono table _ _ token (List.subset_cons_of_subset first behind) (afterIh token later)

/-- Expansion yields tokens of the text and of replacements only. -/
theorem supplies_of_mem_expand (table : Table) (tokens : List Token) :
    ∀ token ∈ expand table tokens, table.Supplies tokens token := by
  apply forall_mem_expand (motive := Table.Supplies)
  case present =>
    intro table token rest
    exact Or.inl List.mem_cons_self
  case mono =>
    intro table first second token subset supplies
    exact supplies.mono subset
  case object =>
    intro table token rest definition used other supplies
    apply supplies.of_erase
    intro inner member
    rcases List.mem_map.mp member with ⟨replaced, inside, rfl⟩
    exact Table.supplies_replaced (find?_of_usage_object used) inside List.mem_cons_self
  case function =>
    intro table token rest definition invocation used argumentsSupplied other supplies
    apply supplies.of_erase
    intro inner member
    rcases Definition.mem_substitute member with ⟨replaced, inside, rfl⟩ | ⟨position, given⟩
    · exact Table.supplies_replaced (of_usage_function used).1 inside List.mem_cons_self
    · exact (argumentsSupplied position inner given).mono (List.subset_cons_self token rest)

/-! ## Properties of all tokens of a table -/

/-- Every token of every replacement has the property. -/
def Table.Holds (property : Token -> Prop) (table : Table) : Prop :=
  ∀ name definition, table.find? name = some definition ->
    ∀ token ∈ definition.replacement, property token

section Holds

variable {property : Token -> Prop} {table : Table}

theorem Table.holds_of_entries
    (holds : ∀ entry ∈ table.entries, ∀ token ∈ entry.2.replacement, property token) :
    table.Holds property := by
  intro name definition found
  rcases List.lookup_eq_some_iff.mp found with ⟨before, after, equal, _⟩
  exact holds (name, definition) (by simp [equal])

theorem Table.Holds.define (holds : table.Holds property) (name : String)
    {definition : Definition} (replacement : ∀ token ∈ definition.replacement, property token) :
    (table.define name definition).Holds property := by
  intro other found foundHere
  rw [Table.find?_define] at foundHere
  split at foundHere
  · cases foundHere
    exact replacement
  · exact holds other found foundHere

theorem Table.holds_builtins : Table.builtins.Holds property := by
  have nothing : Table.empty.Holds property := fun _ _ found => nomatch found
  have none : ∀ token ∈ ([] : List Token), property token := fun _ member => nomatch member
  exact ((nothing.define _ none).define _ none).define _ none

theorem Table.Holds.erase (holds : table.Holds property) (name : String) :
    (table.erase name).Holds property := by
  intro other found foundHere
  rw [Table.find?_erase] at foundHere
  split at foundHere
  · cases foundHere
  · exact holds other found foundHere

/-- What holds of the text and of all replacements, whatever their lines, holds of the
expansion. -/
theorem Table.Holds.of_mem_expand (holds : table.Holds property)
    (anywhere : ∀ token line, property token -> property (token.atLine line))
    {tokens : List Token} (text : ∀ token ∈ tokens, property token) :
    ∀ token ∈ expand table tokens, property token := by
  intro token member
  rcases supplies_of_mem_expand table tokens token member with
    present | ⟨name, definition, found, replaced, inside, placed, _, rfl⟩
  · exact text token present
  · exact anywhere replaced placed.line (holds name definition found replaced inside)

end Holds

end Macro
end ObjectWrapper
