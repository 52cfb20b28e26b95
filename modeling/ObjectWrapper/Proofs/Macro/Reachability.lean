import Mathlib.Logic.Relation
import ObjectWrapper.Proofs.Macro.Origin
import ObjectWrapper.Source.Tokenize

namespace ObjectWrapper
namespace Macro

open Source

/-!
# Names that expansion can come to

The replacement of a macro mentions names, and some of these are macros themselves.
What an expansion comes to, it comes to by following such mentions from the names of
the text: arguments take the place of parameters, and an invocation may be put together
from several replacements, but no name appears that cannot be reached.  A parameter is
not a mention, since it stands for an argument.

Two things follow.  Definitions that cannot be reached from a text do not matter for its
expansion.  And if no macro can be reached from itself, no name is ever hidden where it
might have been replaced on its own, so that expansion leaves none of these behind.
-/

/-- The name occurs in the replacement and is not a parameter there. -/
def Definition.Mentions (definition : Definition) (name : String) : Prop :=
  (∃ token ∈ definition.replacement, token.isIdentifier = true ∧ token.lexeme = name) ∧
    (definition.isFunction = true -> name ∉ definition.parameters)

/-- What the table defines, the larger one defines in the same way. -/
def Table.Within (table larger : Table) : Prop :=
  ∀ name definition, table.find? name = some definition -> larger.find? name = some definition

theorem Table.within_erase (table : Table) (erased : String) :
    (table.erase erased).Within table := by
  intro name definition found
  rw [Table.find?_erase] at found
  split at found
  · cases found
  · exact found

/-- The first name is a macro, and its replacement mentions the second. -/
def Table.LeadsTo (table : Table) (first second : String) : Prop :=
  ∃ definition, table.find? first = some definition ∧ definition.Mentions second

/-- The name can be reached from a name of the text, in any number of steps. -/
def Table.Reaches (table : Table) (text : List Token) (name : String) : Prop :=
  ∃ token ∈ text, token.isIdentifier = true ∧
    Relation.ReflTransGen table.LeadsTo token.lexeme name

/-- No name can be reached from itself in one step or more. -/
def Table.Acyclic (table : Table) : Prop :=
  ∀ name, ¬ Relation.TransGen table.LeadsTo name name

/-! ## Paths from a text -/

section Paths

variable {table : Table} {text : List Token} {name : String}

theorem Table.reaches_of_mem {token : Token} (member : token ∈ text)
    (isIdentifier : token.isIdentifier = true) : table.Reaches text token.lexeme :=
  ⟨token, member, isIdentifier, .refl⟩

theorem Table.Reaches.mono {more : List Token} (reaches : table.Reaches text name)
    (subset : text ⊆ more) : table.Reaches more name := by
  rcases reaches with ⟨token, member, isIdentifier, path⟩
  exact ⟨token, subset member, isIdentifier, path⟩

/-- What can be reached from names that can be reached, can be reached. -/
theorem Table.Reaches.of_text {inner : List Token} (reaches : table.Reaches inner name)
    (within : ∀ token ∈ inner, token.isIdentifier = true -> table.Reaches text token.lexeme) :
    table.Reaches text name := by
  rcases reaches with ⟨token, member, isIdentifier, path⟩
  rcases within token member isIdentifier with ⟨first, begins, named, before⟩
  exact ⟨first, begins, named, before.trans path⟩

/-- A table that knows less reaches less. -/
theorem Table.Reaches.of_within {smaller : Table} (reaches : smaller.Reaches text name)
    (within : smaller.Within table) : table.Reaches text name := by
  rcases reaches with ⟨token, member, isIdentifier, path⟩
  refine ⟨token, member, isIdentifier, Relation.ReflTransGen.mono ?_ _ _ path⟩
  rintro first second ⟨definition, found, mentions⟩
  exact ⟨definition, within first definition found, mentions⟩

/-- A mention is a token of an entry. -/
theorem Table.LeadsTo.exists_entry {first second : String} (leads : table.LeadsTo first second) :
    ∃ entry ∈ table.entries, entry.1 = first ∧
      ∃ token ∈ entry.2.replacement, token.isIdentifier = true ∧ token.lexeme = second := by
  rcases leads with ⟨definition, found, mentioned, _⟩
  rcases List.lookup_eq_some_iff.mp found with ⟨before, after, equal, _⟩
  exact ⟨(first, definition), by simp [equal], rfl, mentioned⟩

/-- A name that can be reached is a token of the text or of a replacement. -/
theorem Table.Reaches.exists_token (reaches : table.Reaches text name) :
    ∃ token : Token, token.isIdentifier = true ∧ token.lexeme = name ∧
      (token ∈ text ∨ ∃ other definition, table.find? other = some definition ∧
        token ∈ definition.replacement) := by
  rcases reaches with ⟨token, member, isIdentifier, path⟩
  cases path with
  | refl => exact ⟨token, isIdentifier, rfl, .inl member⟩
  | tail _ leads =>
      rcases leads with ⟨definition, found, ⟨mentioned, inside, named, same⟩, _⟩
      exact ⟨mentioned, named, same, .inr ⟨_, definition, found, inside⟩⟩

/-- Names among which are those of the text and all that they mention include whatever can
be reached. -/
theorem Table.Reaches.mem_of_closed {names : List String} (reaches : table.Reaches text name)
    (begins : ∀ token ∈ text, token.isIdentifier = true -> token.lexeme ∈ names)
    (closed : ∀ entry ∈ table.entries, entry.1 ∈ names ->
      ∀ token ∈ entry.2.replacement, token.isIdentifier = true -> token.lexeme ∈ names) :
    name ∈ names := by
  rcases reaches with ⟨token, member, isIdentifier, path⟩
  induction path with
  | refl => exact begins token member isIdentifier
  | tail _ leads ih =>
      rcases leads.exists_entry with ⟨entry, listed, rfl, mentioned, inside, named, rfl⟩
      exact closed entry listed ih mentioned inside named

/-- A table is acyclic if its names can be ranked so that each replacement mentions only
names of smaller rank. -/
theorem Table.acyclic_of_rank (rank : String -> Nat)
    (decreases : ∀ entry ∈ table.entries, ∀ token ∈ entry.2.replacement,
      token.isIdentifier = true -> rank token.lexeme < rank entry.1) : table.Acyclic := by
  have step : ∀ first second, table.LeadsTo first second -> rank second < rank first := by
    intro first second leads
    rcases leads.exists_entry with ⟨entry, listed, rfl, mentioned, inside, named, rfl⟩
    exact decreases entry listed mentioned inside named
  have descends : ∀ first second, Relation.TransGen table.LeadsTo first second ->
      rank second < rank first := by
    intro first second path
    induction path with
    | single leads => exact step _ _ leads
    | tail _ leads ih => exact Nat.lt_trans (step _ _ leads) ih
  exact fun other path => Nat.lt_irrefl _ (descends other other path)

end Paths

/-! ## Names that take the place of a macro -/

section Replacing

variable {table : Table} {token : Token} {rest : List Token} {definition : Definition}
  {name : String}

theorem isIdentifier_of_usage_object (used : table.usage token rest = .object definition) :
    token.isIdentifier = true := by
  unfold Table.usage at used
  split at used
  · assumption
  · cases used

theorem isIdentifier_of_usage_function {invocation : Invocation}
    (used : table.usage token rest = .function definition invocation) :
    token.isIdentifier = true := by
  unfold Table.usage at used
  split at used
  · assumption
  · cases used

theorem isFunction_of_usage_object (used : table.usage token rest = .object definition) :
    definition.isFunction = false := by
  cases isFunction : definition.isFunction with
  | false => rfl
  | true =>
      have found := find?_of_usage_object used
      simp only [Table.usage, isIdentifier_of_usage_object used, found, isFunction, if_true] at used
      split at used <;> cases used

theorem isFunction_of_usage_function {invocation : Invocation}
    (used : table.usage token rest = .function definition invocation) :
    definition.isFunction = true := by
  cases isFunction : definition.isFunction with
  | true => rfl
  | false =>
      have found := (of_usage_function used).1
      simp only [Table.usage, isIdentifier_of_usage_function used, found, isFunction, if_true,
        Bool.false_eq_true, if_false] at used
      cases used

/-- The names that replace an invocation are mentioned by the definition, or come with an
argument. -/
theorem Definition.mentions_or_mem_of_mem_substitute {line : Nat} {argument : Nat -> List Token}
    {replaced : Token} (member : replaced ∈ definition.substitute line argument)
    (isIdentifier : replaced.isIdentifier = true) :
    definition.Mentions replaced.lexeme ∨ ∃ position, replaced ∈ argument position := by
  rcases List.mem_flatMap.mp member with ⟨original, inside, produced⟩
  split at produced
  · exact Or.inr ⟨_, produced⟩
  · rename_i noParameter
    rw [List.mem_singleton.mp produced] at isIdentifier ⊢
    have named : original.isIdentifier = true := isIdentifier
    rw [Definition.position?, if_pos named, List.idxOf?_eq_none_iff] at noParameter
    exact Or.inl ⟨⟨original, inside, named, rfl⟩, fun _ => noParameter⟩

/-- A name that is replaced on its own leads to what can be reached from its replacement. -/
theorem Table.Reaches.of_replacementAt {replaced : String} {line : Nat}
    (reaches : table.Reaches (definition.replacementAt line) name)
    (found : table.find? replaced = some definition) (alone : definition.isFunction = false) :
    Relation.TransGen table.LeadsTo replaced name := by
  rcases reaches with ⟨first, member, isIdentifier, path⟩
  rcases List.mem_map.mp member with ⟨original, inside, rfl⟩
  have mentions : definition.Mentions original.lexeme := by
    refine ⟨⟨original, inside, isIdentifier, rfl⟩, ?_⟩
    rw [alone]
    exact fun never => nomatch never
  exact .head' ⟨definition, found, mentions⟩ path

/-- What can be reached from the replacement of an invocation can be reached from the
invocation, if the names of its expanded arguments can. -/
theorem Table.Reaches.of_substitute {line : Nat} {arguments : Nat -> List Token}
    (reaches : table.Reaches (definition.substitute line arguments) name)
    (isIdentifier : token.isIdentifier = true)
    (found : table.find? token.lexeme = some definition)
    (reached : ∀ position, ∀ other ∈ arguments position, other.isIdentifier = true ->
      table.Reaches rest other.lexeme) : table.Reaches (token :: rest) name := by
  apply reaches.of_text
  intro replaced member named
  rcases definition.mentions_or_mem_of_mem_substitute member named with
    mentions | ⟨position, inArgument⟩
  · exact ⟨token, List.mem_cons_self, isIdentifier, .single ⟨definition, found, mentions⟩⟩
  · exact (reached position replaced inArgument named).mono (List.subset_cons_self token rest)

theorem Table.reaches_cons_of_transGen (isIdentifier : token.isIdentifier = true)
    (path : Relation.TransGen table.LeadsTo token.lexeme name) :
    table.Reaches (token :: rest) name :=
  ⟨token, List.mem_cons_self, isIdentifier, path.to_reflTransGen⟩

end Replacing

/-! ## Names of an expansion -/

/-- Every name of an expansion can be reached from the text. -/
theorem reaches_of_mem_expand (table : Table) (text : List Token) :
    ∀ token ∈ expand table text, token.isIdentifier = true ->
      table.Reaches text token.lexeme := by
  apply forall_mem_expand (motive := fun table text token =>
    token.isIdentifier = true -> table.Reaches text token.lexeme)
  case present =>
    intro table token rest isIdentifier
    exact Table.reaches_of_mem List.mem_cons_self isIdentifier
  case mono =>
    intro table first second token subset reaches isIdentifier
    exact (reaches isIdentifier).mono subset
  case object =>
    intro table first rest definition used token inBody isIdentifier
    have reached := (inBody isIdentifier).of_within (table.within_erase _)
    exact Table.reaches_cons_of_transGen (isIdentifier_of_usage_object used)
      (reached.of_replacementAt (find?_of_usage_object used) (isFunction_of_usage_object used))
  case function =>
    intro table first rest definition invocation used argumentsReached token inBody isIdentifier
    have reached := (inBody isIdentifier).of_within (table.within_erase _)
    exact reached.of_substitute (isIdentifier_of_usage_function used) (of_usage_function used).1
      argumentsReached

/-- The names of an expanded argument can be reached from the tokens behind the name of the
macro. -/
theorem reaches_of_mem_expand_argument {table : Table} {token : Token} {rest : List Token}
    {definition : Definition} {invocation : Invocation}
    (used : table.usage token rest = .function definition invocation) (position : Nat) :
    ∀ other ∈ expand table (invocation.argument position), other.isIdentifier = true ->
      table.Reaches rest other.lexeme :=
  fun other member named => (reaches_of_mem_expand table _ other member named).mono
    (Definition.invocation?_argument_subset (of_usage_function used).2 position)

/-! ## Definitions that cannot be reached -/

theorem usage_congr {first second : Table} {token : Token}
    (agree : token.isIdentifier = true -> first.find? token.lexeme = second.find? token.lexeme)
    (following : List Token) : first.usage token following = second.usage token following := by
  unfold Table.usage
  split
  · rename_i isIdentifier
    rw [agree isIdentifier]
  · rfl

/-- The tables agree on every name that the first one reaches from the text. -/
def Table.AgreesFrom (first second : Table) (text : List Token) : Prop :=
  ∀ name, first.Reaches text name -> first.find? name = second.find? name

section Agreeing

variable {first second : Table} {token : Token} {rest text : List Token}

theorem Table.AgreesFrom.of_subset (agree : first.AgreesFrom second text)
    {part : List Token} (subset : part ⊆ text) : first.AgreesFrom second part :=
  fun name reaches => agree name (reaches.mono subset)

theorem Table.AgreesFrom.usage_eq (agree : first.AgreesFrom second (token :: rest)) :
    first.usage token rest = second.usage token rest :=
  usage_congr (fun named => agree _ (Table.reaches_of_mem List.mem_cons_self named)) rest

/-- Tables that agree still do if a name is erased from both, as to what takes its place. -/
theorem Table.AgreesFrom.erase (agree : first.AgreesFrom second text) {erased : String}
    {inner : List Token}
    (reached : ∀ name, first.Reaches inner name -> first.Reaches text name) :
    (first.erase erased).AgreesFrom (second.erase erased) inner := by
  intro name reaches
  rw [Table.find?_erase, Table.find?_erase]
  split
  · rfl
  · exact agree name (reached name (reaches.of_within (first.within_erase erased)))

/-- Tables agree from a text on if they agree on names among which are those of the text and
all that they mention. -/
theorem Table.agreesFrom_of_closed {names : List String}
    (begins : ∀ token ∈ text, token.isIdentifier = true -> token.lexeme ∈ names)
    (closed : ∀ entry ∈ first.entries, entry.1 ∈ names ->
      ∀ token ∈ entry.2.replacement, token.isIdentifier = true -> token.lexeme ∈ names)
    (agree : ∀ name ∈ names, first.find? name = second.find? name) :
    first.AgreesFrom second text :=
  fun name reaches => agree name (reaches.mem_of_closed begins closed)

end Agreeing

/-- Tables that agree on whatever can be reached from a text expand it alike. -/
theorem expand_congr_of_agreesFrom {first second : Table} {text : List Token}
    (agree : first.AgreesFrom second text) : expand first text = expand second text := by
  apply expand_induction (motive := fun first text => ∀ second : Table,
    first.AgreesFrom second text -> expand first text = expand second text)
  case nil =>
    intro first second _
    rw [expand_nil, expand_nil]
  case plain =>
    intro first token rest used ih second agree
    rw [expand_cons, expand_cons, ← agree.usage_eq, used]
    simp only [ih second (agree.of_subset (List.subset_cons_self token rest))]
  case object =>
    intro first token rest definition used bodyIh restIh second agree
    have later := restIh second (agree.of_subset (List.subset_cons_self token rest))
    have body := bodyIh (second.erase token.lexeme) (agree.erase fun name reaches =>
      Table.reaches_cons_of_transGen (isIdentifier_of_usage_object used)
        (reaches.of_replacementAt (find?_of_usage_object used) (isFunction_of_usage_object used)))
    rw [expand_cons, expand_cons, ← agree.usage_eq, used]
    simp only [later, body]
  case function =>
    intro first token rest definition invocation used argumentIh bodyIh afterIh second agree
    rcases of_usage_function used with ⟨found, invoked⟩
    have behind := agree.of_subset (List.subset_cons_self token rest)
    have later := afterIh second
      (behind.of_subset (Definition.invocation?_after_isSuffix invoked).subset)
    have arguments : (fun position => expand first (invocation.argument position)) =
        fun position => expand second (invocation.argument position) :=
      funext fun position => argumentIh position second
        (behind.of_subset (Definition.invocation?_argument_subset invoked position))
    have body := bodyIh (second.erase token.lexeme) (agree.erase fun name reaches =>
      reaches.of_substitute (isIdentifier_of_usage_function used) found
        (reaches_of_mem_expand_argument used))
    rw [expand_cons, expand_cons, ← agree.usage_eq, used]
    simp only [later, body, ← arguments]
  · exact agree

/-! ## Tables without cycles -/

/-- Whatever the larger table reaches from the text and replaces on its own, the table
replaces as well. -/
def Table.Replaces (table larger : Table) (text : List Token) : Prop :=
  ∀ name definition, larger.Reaches text name -> larger.find? name = some definition ->
    definition.isFunction = false -> table.find? name = some definition

section Complete

variable {table larger : Table} {text : List Token}

theorem Table.Replaces.of_subset (replaces : table.Replaces larger text) {part : List Token}
    (subset : part ⊆ text) : table.Replaces larger part :=
  fun name definition reaches => replaces name definition (reaches.mono subset)

/-- A name may be erased from the table if it is not among what is to be replaced from now
on. -/
theorem Table.Replaces.erase (replaces : table.Replaces larger text) {erased : String}
    {inner : List Token}
    (reached : ∀ name, larger.Reaches inner name -> larger.Reaches text name)
    (differs : ∀ name definition, larger.Reaches inner name ->
      larger.find? name = some definition -> definition.isFunction = false -> name ≠ erased) :
    (table.erase erased).Replaces larger inner := by
  intro name definition reaches found alone
  rw [Table.find?_erase, if_neg (differs name definition reaches found alone)]
  exact replaces name definition (reached name reaches) found alone

/-- Where nothing that is replaced on its own is hidden, all of it is replaced.  While a
replacement is read, its macro is hidden; in a table without cycles it does not occur there
again. -/
theorem isFunction_of_mem_expand_of_replaces (acyclic : larger.Acyclic)
    (within : table.Within larger) (replaces : table.Replaces larger text) :
    ∀ token ∈ expand table text, token.isIdentifier = true ->
      ∀ definition, larger.find? token.lexeme = some definition ->
        definition.isFunction = true := by
  apply expand_induction (motive := fun table text =>
    table.Within larger -> table.Replaces larger text ->
      ∀ token ∈ expand table text, token.isIdentifier = true ->
        ∀ definition, larger.find? token.lexeme = some definition -> definition.isFunction = true)
  case nil =>
    intro table _ _ token member
    rw [expand_nil] at member
    cases member
  case plain =>
    intro table first rest used ih within replaces token member isIdentifier
    rw [expand_cons, used] at member
    rcases List.mem_cons.mp member with rfl | later
    · intro definition found
      cases isFunction : definition.isFunction with
      | true => rfl
      | false =>
          have reached : larger.Reaches (token :: rest) token.lexeme :=
            Table.reaches_of_mem List.mem_cons_self isIdentifier
          have here := replaces token.lexeme definition reached found isFunction
          simp only [Table.usage, isIdentifier, here, isFunction, if_true, Bool.false_eq_true,
            if_false] at used
          cases used
    · exact ih within (replaces.of_subset (List.subset_cons_self first rest)) token later
        isIdentifier
  case object =>
    intro table first rest definition used bodyIh restIh within replaces token member isIdentifier
    rw [expand_cons, used] at member
    have found := within _ _ (find?_of_usage_object used)
    have path : ∀ name, larger.Reaches (definition.replacementAt first.line) name ->
        Relation.TransGen larger.LeadsTo first.lexeme name :=
      fun name reaches => reaches.of_replacementAt found (isFunction_of_usage_object used)
    rcases List.mem_append.mp member with inBody | later
    · have stillReplaces : (table.erase first.lexeme).Replaces larger
          (definition.replacementAt first.line) := by
        apply replaces.erase
        · exact fun name reaches =>
            Table.reaches_cons_of_transGen (isIdentifier_of_usage_object used) (path name reaches)
        · rintro name _ reaches _ _ rfl
          exact acyclic _ (path _ reaches)
      exact bodyIh (fun name _ known => within name _ (table.within_erase _ name _ known))
        stillReplaces token inBody isIdentifier
    · exact restIh within (replaces.of_subset (List.subset_cons_self first rest)) token later
        isIdentifier
  case function =>
    intro table first rest definition invocation used argumentIh bodyIh afterIh within replaces
      token member isIdentifier
    rw [expand_cons, used] at member
    rcases of_usage_function used with ⟨foundHere, invoked⟩
    have found := within _ _ foundHere
    rcases List.mem_append.mp member with inBody | later
    · have stillReplaces : (table.erase first.lexeme).Replaces larger
          (definition.substitute first.line fun position =>
            expand table (invocation.argument position)) := by
        apply replaces.erase
        · intro name reaches
          apply reaches.of_substitute (isIdentifier_of_usage_function used) found
          intro position other inArgument named
          exact (reaches_of_mem_expand_argument used position other inArgument named).of_within
            within
        · rintro name other _ otherFound alone rfl
          have isFunction := isFunction_of_usage_function used
          rw [otherFound] at found
          cases found
          rw [alone] at isFunction
          cases isFunction
      exact bodyIh (fun name _ known => within name _ (table.within_erase _ name _ known))
        stillReplaces token inBody isIdentifier
    · have behind := (Definition.invocation?_after_isSuffix invoked).subset
      exact afterIh within (replaces.of_subset (List.subset_cons_of_subset first behind)) token
        later isIdentifier
  · exact within
  · exact replaces

end Complete

/-- In a table in which no macro can be reached from itself, expansion replaces everything
that is replaced on its own: the names of macros that are left are those of function-like
ones. -/
theorem isFunction_of_mem_expand {table : Table} (acyclic : table.Acyclic) (text : List Token) :
    ∀ token ∈ expand table text, token.isIdentifier = true ->
      ∀ definition, table.find? token.lexeme = some definition -> definition.isFunction = true :=
  isFunction_of_mem_expand_of_replaces acyclic (fun _ _ found => found)
    fun _ _ _ found _ => found

/-- Macros of both kinds, each of which mentions others. -/
def layered : Table :=
  ⟨[("A", { replacement := tokenize "F(B) F" }),
    ("F", { replacement := tokenize "x C x", parameters := ["x"], isFunction := true }),
    ("B", { replacement := tokenize "C 1" }), ("C", { replacement := tokenize "2" })]⟩

theorem isFunction_of_mem_expand_layered :
    layered.Acyclic ∧
      (expand layered (tokenize "A (B)")).map Token.lexeme =
        ["2", " ", "1", " ", "2", " ", "2", " ", "1", " ", "F", " ", "(", "2", " ", "1", ")"] ∧
      ∀ token ∈ expand layered (tokenize "A (B)"), token.isIdentifier = true ->
        ∀ definition, layered.find? token.lexeme = some definition ->
          definition.isFunction = true := by
  have acyclic : layered.Acyclic := by
    apply Table.acyclic_of_rank fun name =>
      if name = "A" then 2 else if name = "F" || name = "B" then 1 else 0
    decide +kernel
  exact ⟨acyclic, by decide +kernel, isFunction_of_mem_expand acyclic _⟩

end Macro
end ObjectWrapper
