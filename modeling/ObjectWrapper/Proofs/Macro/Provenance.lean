import ObjectWrapper.Proofs.Macro.Reachability

namespace ObjectWrapper
namespace Macro

open Source

/-!
# The name that a token has been put for

A token of an expansion that does not stand in the text is a token of some replacement, on
the line of a name of the text.  This name leads to the macro the token belongs to.  It
need not be the name that was replaced last: where that one came from a replacement itself,
it had been moved to the line of a name of the text before, and where an argument brought
it in, it stands in the text.  So lines are handed on from one replacement to the next and
are never those of definitions: the lines on which macros are defined, and line zero of
values from the command line, appear only if a token of the text has them.

Parameters are left out of replacements, as arguments stand for them.  Without this the
name would not lead to the macro, since a parameter does not mention what it is called.
-/

/-- The token stays in the replacement and is not a parameter there. -/
def Definition.Keeps (definition : Definition) (token : Token) : Prop :=
  token ∈ definition.replacement ∧
    (definition.isFunction = true -> definition.position? token = none)

/-- The token belongs to the replacement of a macro that a name of the text leads to, and
is on the line of this name. -/
def Table.PutsFor (table : Table) (text : List Token) (token : Token) : Prop :=
  ∃ named ∈ text, named.isIdentifier = true ∧ ∃ macroName definition,
    Relation.ReflTransGen table.LeadsTo named.lexeme macroName ∧
      table.find? macroName = some definition ∧
        ∃ replaced, definition.Keeps replaced ∧ token = replaced.atLine named.line

section Replacing

variable {table : Table} {token : Token} {rest : List Token} {definition : Definition}

theorem Definition.Keeps.mentions {replaced : Token} (keeps : definition.Keeps replaced)
    (isIdentifier : replaced.isIdentifier = true) : definition.Mentions replaced.lexeme := by
  refine ⟨⟨replaced, keeps.1, isIdentifier, rfl⟩, fun isFunction => ?_⟩
  have noParameter := keeps.2 isFunction
  rwa [Definition.position?, if_pos isIdentifier, List.idxOf?_eq_none_iff] at noParameter

theorem Definition.keeps_or_mem_of_mem_substitute {line : Nat} {argument : Nat -> List Token}
    (member : token ∈ definition.substitute line argument) :
    (∃ replaced, definition.Keeps replaced ∧ token = replaced.atLine line) ∨
      ∃ position, token ∈ argument position := by
  rcases List.mem_flatMap.mp member with ⟨replaced, inside, produced⟩
  split at produced
  · exact Or.inr ⟨_, produced⟩
  · rename_i noParameter
    exact Or.inl ⟨replaced, ⟨inside, fun _ => noParameter⟩, List.mem_singleton.mp produced⟩

theorem Table.putsFor_cons {replaced : Token} (isIdentifier : token.isIdentifier = true)
    (found : table.find? token.lexeme = some definition) (keeps : definition.Keeps replaced) :
    table.PutsFor (token :: rest) (replaced.atLine token.line) :=
  ⟨token, List.mem_cons_self, isIdentifier, token.lexeme, definition, .refl, found, replaced, keeps,
    rfl⟩

theorem Table.PutsFor.mono {first second : List Token} (puts : table.PutsFor first token)
    (subset : first ⊆ second) : table.PutsFor second token := by
  rcases puts with ⟨named, member, others⟩
  exact ⟨named, subset member, others⟩

/-- A token that a smaller table puts for a name of a replacement is put for the name of the
text that this name comes from. -/
theorem Table.PutsFor.of_erase {text inner : List Token} {erased : String}
    (puts : (table.erase erased).PutsFor inner token)
    (supplied : ∀ other ∈ inner, other ∈ text ∨ table.PutsFor text other) :
    table.PutsFor text token := by
  rcases puts with
    ⟨named, member, isIdentifier, macroName, definition, path, foundHere, replaced, keeps, rfl⟩
  have found := table.within_erase erased macroName definition foundHere
  have leads : Relation.ReflTransGen table.LeadsTo named.lexeme macroName := by
    refine Relation.ReflTransGen.mono ?_ _ _ path
    rintro first second ⟨inside, insideFound, mentions⟩
    exact ⟨inside, table.within_erase erased first inside insideFound, mentions⟩
  rcases supplied named member with
    present | ⟨source, inText, isName, outer, outerDefinition, before, outerFound, original, kept,
      rfl⟩
  · exact ⟨named, present, isIdentifier, macroName, definition, leads, found, replaced, keeps, rfl⟩
  · -- The name was put for `source` itself, and so was on its line already.
    have mentioned : table.LeadsTo outer original.lexeme :=
      ⟨outerDefinition, outerFound, kept.mentions isIdentifier⟩
    exact ⟨source, inText, isName, macroName, definition, (before.tail mentioned).trans leads,
      found, replaced, keeps, rfl⟩

end Replacing

theorem mem_or_putsFor_of_mem_expand (table : Table) (text : List Token) :
    ∀ token ∈ expand table text, token ∈ text ∨ table.PutsFor text token := by
  apply forall_mem_expand
    (motive := fun table text token => token ∈ text ∨ table.PutsFor text token)
  case present =>
    intro table token rest
    exact Or.inl List.mem_cons_self
  case mono =>
    intro table first second token subset comes
    exact comes.imp (fun member => subset member) fun puts => puts.mono subset
  case object =>
    intro table token rest definition used other comes
    have replacement : ∀ inner ∈ definition.replacementAt token.line,
        table.PutsFor (token :: rest) inner := by
      intro inner member
      rcases List.mem_map.mp member with ⟨replaced, inside, rfl⟩
      have keeps : definition.Keeps replaced := by
        refine ⟨inside, fun isFunction => ?_⟩
        rw [isFunction_of_usage_object used] at isFunction
        cases isFunction
      exact Table.putsFor_cons (isIdentifier_of_usage_object used) (find?_of_usage_object used)
        keeps
    right
    rcases comes with member | puts
    · exact replacement other member
    · exact puts.of_erase fun inner member => Or.inr (replacement inner member)
  case function =>
    intro table token rest definition invocation used argumentsCome other comes
    have replacement : ∀ inner ∈ definition.substitute token.line fun position =>
        expand table (invocation.argument position),
        inner ∈ token :: rest ∨ table.PutsFor (token :: rest) inner := by
      intro inner member
      rcases definition.keeps_or_mem_of_mem_substitute member with
        ⟨replaced, keeps, rfl⟩ | ⟨position, given⟩
      · exact Or.inr (Table.putsFor_cons (isIdentifier_of_usage_function used)
          (of_usage_function used).1 keeps)
      · exact (argumentsCome position inner given).imp (List.mem_cons_of_mem token)
          fun puts => puts.mono (List.subset_cons_self token rest)
    rcases comes with member | puts
    · exact replacement other member
    · exact Or.inr (puts.of_erase replacement)

/-- Expansion makes up no token and no line.  Every token of an expansion stands in the text
as it is, or belongs to the replacement of a macro that a name of the text leads to and is
on the line of this name; so all lines of the expansion are lines of the text. -/
theorem mem_or_putsFor_and_line_of_mem_expand (table : Table) (text : List Token) :
    ∀ token ∈ expand table text, (token ∈ text ∨ table.PutsFor text token) ∧
      token.line ∈ text.map Token.line := by
  intro token member
  have comes := mem_or_putsFor_of_mem_expand table text token member
  refine ⟨comes, ?_⟩
  rcases comes with present | ⟨named, inText, _, _, _, _, _, _, _, rfl⟩
  · exact List.mem_map_of_mem present
  · have placed : named.line ∈ text.map Token.line := List.mem_map_of_mem inText
    exact placed

/-- A macro that is defined on the ninth line and one that has its value from the command
line. -/
def farDefinitions : Table :=
  ⟨[("F", { replacement := [⟨.identifier, 9, "N"⟩, ⟨.identifier, 9, "x"⟩, ⟨.identifier, 9, "F"⟩],
            parameters := ["x"], isFunction := true }),
    ("N", .ofValue "ten")]⟩

/-- The value comes by way of the other macro, and is on the line of that one's name. -/
theorem mem_or_putsFor_and_line_of_mem_expand_commandLine :
    ⟨.identifier, 2, "ten"⟩ ∈ expand farDefinitions (tokenize "\nF(y)") ∧
      farDefinitions.PutsFor (tokenize "\nF(y)") ⟨.identifier, 2, "ten"⟩ ∧
      2 ∈ (tokenize "\nF(y)").map Token.line := by
  have member : ⟨.identifier, 2, "ten"⟩ ∈ expand farDefinitions (tokenize "\nF(y)") := by
    decide +kernel
  have absent : ⟨.identifier, 2, "ten"⟩ ∉ tokenize "\nF(y)" := by decide +kernel
  rcases mem_or_putsFor_and_line_of_mem_expand farDefinitions _ _ member with ⟨comes, placed⟩
  exact ⟨member, comes.resolve_left absent, placed⟩

end Macro
end ObjectWrapper
