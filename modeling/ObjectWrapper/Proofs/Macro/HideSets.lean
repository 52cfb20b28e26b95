import Mathlib.Algebra.GroupWithZero.Nat
import Mathlib.Algebra.Order.BigOperators.Group.List
import Mathlib.Algebra.Order.Group.Nat
import ObjectWrapper.Proofs.Macro.Calls

namespace ObjectWrapper
namespace Macro

open Source

/-!
# Hide sets of single tokens

Expansion reads a replacement by itself, with a smaller table, and puts the result
in place of the name.  The standard description of macro expansion does neither: it
keeps one table and one list of tokens, paints every token with a hide set of its
own, and puts the replacement in front of the tokens that are still to be read.  A
token of the replacement hides the replaced name and what that name's token hid.

For tables in which every name is replaced on its own, the two agree token by
token.  So such a table has no macro that reaches across the end of a text, and
texts may be expanded apart.
-/

/-- Every name of the table is replaced on its own. -/
def Table.IsObjectLike (table : Table) : Prop :=
  ∀ name definition, table.find? name = some definition -> definition.isFunction = false

theorem Table.isObjectLike_of_entries {table : Table}
    (objectLike : ∀ entry ∈ table.entries, entry.2.isFunction = false) : table.IsObjectLike := by
  intro name definition found
  rcases List.lookup_eq_some_iff.mp found with ⟨before, after, equal, _⟩
  exact objectLike (name, definition) (by simp [equal])

theorem Table.IsObjectLike.hide {table : Table} (objectLike : table.IsObjectLike)
    (hidden : List String) : (table.hide hidden).IsObjectLike := by
  intro name definition found
  rw [Table.find?_hide] at found
  split at found
  · cases found
  · exact objectLike name definition found

theorem Table.IsObjectLike.define {table : Table} (objectLike : table.IsObjectLike)
    (name : String) {definition : Definition} (plain : definition.isFunction = false) :
    (table.define name definition).IsObjectLike := by
  intro other found foundHere
  rw [Table.find?_define] at foundHere
  split at foundHere
  · cases foundHere
    exact plain
  · exact objectLike other found foundHere

theorem Table.IsObjectLike.erase {table : Table} (objectLike : table.IsObjectLike)
    (name : String) : (table.erase name).IsObjectLike :=
  objectLike.hide [name]

/-! ## The algorithm -/

/-- A token, the names that are not replaced in it, and the line of the token of
the source that it comes from. -/
structure Painted where
  token : Token
  hidden : List String
  sourceLine : Nat
deriving DecidableEq, Repr

namespace Painted

/-- A token of the source, in which nothing is hidden. -/
def ofSource (token : Token) : Painted :=
  ⟨token, [], token.line⟩

/-- The token on the line of the source. -/
def placed (painted : Painted) : Token :=
  painted.token.atLine painted.sourceLine

/-- The definition by which the token is to be replaced. -/
def definition? (table : Table) (painted : Painted) : Option Definition :=
  if painted.token.isIdentifier && !painted.hidden.contains painted.token.lexeme then
    table.find? painted.token.lexeme
  else none

/-- What takes the place of the token. -/
def replacement (painted : Painted) (definition : Definition) : List Painted :=
  definition.replacement.map fun token =>
    ⟨token, painted.token.lexeme :: painted.hidden, painted.sourceLine⟩

theorem map_placed_replacement (painted : Painted) (definition : Definition) :
    (painted.replacement definition).map placed =
      definition.replacementAt painted.sourceLine := by
  simp only [replacement, Definition.replacementAt, List.map_map]
  rfl

theorem of_definition? {table : Table} {painted : Painted} {definition : Definition}
    (found : painted.definition? table = some definition) :
    painted.token.isIdentifier = true ∧ painted.token.lexeme ∉ painted.hidden ∧
      table.find? painted.token.lexeme = some definition := by
  unfold definition? at found
  split at found
  · rename_i shown
    simp only [Bool.and_eq_true, Bool.not_eq_true', List.contains_eq_mem,
      decide_eq_false_iff_not] at shown
    exact ⟨shown.1, shown.2, found⟩
  · cases found

/-- How much reading the token can take: a power that grows with the number of
names it does not hide.  A replacement has less of it than the replaced token,
however long it is. -/
def weight (table : Table) (painted : Painted) : Nat :=
  ((table.entries.map fun entry => entry.2.replacement.length).sum + 1) ^
    (table.hide painted.hidden).size

end Painted

theorem Table.length_replacement_le {table : Table} {name : String} {definition : Definition}
    (found : table.find? name = some definition) :
    definition.replacement.length ≤
      (table.entries.map fun entry => entry.2.replacement.length).sum := by
  rcases List.lookup_eq_some_iff.mp found with ⟨before, after, equal, _⟩
  exact List.le_sum_of_mem (List.mem_map.mpr ⟨(name, definition), by simp [equal], rfl⟩)

theorem Painted.sum_weight_replacement_lt {table : Table} {painted : Painted}
    {definition : Definition} (found : painted.definition? table = some definition) :
    ((painted.replacement definition).map (Painted.weight table)).sum <
      painted.weight table := by
  rcases of_definition? found with ⟨_, shown, defined⟩
  have short := Table.length_replacement_le defined
  have fewer : (table.hide (painted.token.lexeme :: painted.hidden)).size <
      (table.hide painted.hidden).size := by
    have present : ((table.hide painted.hidden).find? painted.token.lexeme).isSome := by
      rw [Table.find?_hide, if_neg shown, defined]
      rfl
    exact Table.size_erase_lt present
  unfold Painted.weight at *
  generalize (table.entries.map fun entry => entry.2.replacement.length).sum = volume at *
  calc ((painted.replacement definition).map fun token =>
        (volume + 1) ^ (table.hide token.hidden).size).sum
      = definition.replacement.length *
          (volume + 1) ^ (table.hide (painted.token.lexeme :: painted.hidden)).size := by
        simp only [replacement, List.map_map, Function.comp_def, List.map_const',
          List.sum_replicate, Nat.nsmul_eq_mul]
    _ ≤ volume * (volume + 1) ^ (table.hide (painted.token.lexeme :: painted.hidden)).size :=
        Nat.mul_le_mul_right _ short
    _ < (volume + 1) * (volume + 1) ^
          (table.hide (painted.token.lexeme :: painted.hidden)).size :=
        Nat.mul_lt_mul_of_pos_right (Nat.lt_succ_self volume) (Nat.pow_pos (Nat.succ_pos volume))
    _ = (volume + 1) ^ ((table.hide (painted.token.lexeme :: painted.hidden)).size + 1) :=
        (Nat.pow_succ').symm
    _ ≤ (volume + 1) ^ (table.hide painted.hidden).size :=
        Nat.pow_le_pow_right (Nat.succ_pos volume) fewer

/-- Read painted tokens from front to back.  A replacement is read together with
the tokens after it. -/
def rescan (table : Table) : List Painted -> List Painted
  | [] => []
  | first :: rest =>
    match _found : first.definition? table with
    | none => first :: rescan table rest
    | some definition => rescan table (first.replacement definition ++ rest)
termination_by painted => (painted.map (Painted.weight table)).sum
decreasing_by
  · have positive : 0 < first.weight table := Nat.pow_pos (Nat.succ_pos _)
    simp only [List.map_cons, List.sum_cons]
    omega
  · have lighter := Painted.sum_weight_replacement_lt _found
    simp only [List.map_append, List.sum_append, List.map_cons, List.sum_cons]
    omega

/-! ## Texts expanded apart -/

theorem Table.IsObjectLike.usage_eq {table : Table} (objectLike : table.IsObjectLike)
    (token : Token) (first second : List Token) :
    table.usage token first = table.usage token second := by
  unfold Table.usage
  split
  · cases found : table.find? token.lexeme with
    | none => rfl
    | some definition => simp [objectLike token.lexeme definition found]
  · rfl

theorem Table.IsObjectLike.usage_ne_function {table : Table} (objectLike : table.IsObjectLike)
    (token : Token) (following : List Token) (definition : Definition)
    (invocation : Invocation) : table.usage token following ≠ .function definition invocation := by
  intro used
  have empty := (objectLike.usage_eq token following []).symm.trans used
  have found := (of_usage_function empty).2
  cases found

/-- Each token is expanded by itself. -/
theorem Table.IsObjectLike.expand_eq_flatMap {table : Table} (objectLike : table.IsObjectLike)
    (tokens : List Token) :
    expand table tokens = tokens.flatMap fun token => expand table [token] := by
  induction tokens with
  | nil => rw [expand_nil, List.flatMap_nil]
  | cons token rest ih =>
      rw [List.flatMap_cons, ← ih, expand_cons, expand_cons, objectLike.usage_eq token rest []]
      cases used : table.usage token [] with
      | plain => simp
      | object definition => simp
      | function definition invocation =>
          exact absurd used (objectLike.usage_ne_function token [] definition invocation)

theorem Table.IsObjectLike.expand_append {table : Table} (objectLike : table.IsObjectLike)
    (first second : List Token) :
    expand table (first ++ second) = expand table first ++ expand table second := by
  rw [objectLike.expand_eq_flatMap, List.flatMap_append, ← objectLike.expand_eq_flatMap,
    ← objectLike.expand_eq_flatMap]

/-! ## Agreement -/

theorem Painted.expand_of_definition?_eq_none {table : Table} {painted : Painted}
    (kept : painted.definition? table = none) :
    expand (table.hide painted.hidden) [painted.placed] = [painted.placed] := by
  have plain : (table.hide painted.hidden).usage painted.placed [] = .plain := by
    unfold Painted.definition? at kept
    unfold Table.usage
    rw [Table.find?_hide]
    by_cases named : painted.token.isIdentifier = true <;>
      by_cases hides : painted.token.lexeme ∈ painted.hidden <;>
        simp_all [Painted.placed, Token.atLine, Token.isIdentifier]
  rw [expand_cons, plain, expand_nil]

theorem Painted.expand_of_definition?_eq_some {table : Table} (objectLike : table.IsObjectLike)
    {painted : Painted} {definition : Definition}
    (found : painted.definition? table = some definition) :
    expand (table.hide painted.hidden) [painted.placed] =
      expand (table.hide (painted.token.lexeme :: painted.hidden))
        (definition.replacementAt painted.sourceLine) := by
  rcases of_definition? found with ⟨named, shown, defined⟩
  have replaced : (table.hide painted.hidden).usage painted.placed [] = .object definition := by
    have placedNamed : painted.placed.isIdentifier = true := named
    have placedLexeme : painted.placed.lexeme = painted.token.lexeme := rfl
    unfold Table.usage
    rw [if_pos placedNamed, placedLexeme, Table.find?_hide, if_neg shown, defined]
    simp [objectLike painted.token.lexeme definition defined]
  rw [expand_cons, replaced]
  simp only [expand_nil, List.append_nil]
  rfl

/-- Reading painted tokens expands each of them with the table that lacks its hide
set. -/
theorem map_placed_rescan {table : Table} (objectLike : table.IsObjectLike)
    (painted : List Painted) :
    (rescan table painted).map Painted.placed =
      painted.flatMap fun token => expand (table.hide token.hidden) [token.placed] := by
  fun_induction rescan table painted with
  | case1 => rfl
  | case2 first rest kept ih =>
      rw [List.map_cons, ih, List.flatMap_cons, Painted.expand_of_definition?_eq_none kept,
        List.singleton_append]
  | case3 first rest definition found ih =>
      have replaced : (first.replacement definition).flatMap
          (fun token => expand (table.hide token.hidden) [token.placed]) =
          expand (table.hide (first.token.lexeme :: first.hidden))
            (definition.replacementAt first.sourceLine) := by
        rw [(objectLike.hide _).expand_eq_flatMap, ← first.map_placed_replacement definition,
          List.flatMap_map]
        apply List.flatMap_congr
        intro token member
        rcases List.mem_map.mp member with ⟨original, _, rfl⟩
        rfl
      rw [ih, List.flatMap_append, List.flatMap_cons, replaced,
        Painted.expand_of_definition?_eq_some objectLike found]

/-- Where every name is replaced on its own, expansion yields the tokens of the
algorithm that paints each token with a hide set, on the lines of the tokens of the
source that they come from.  So the expansion of two texts in a row is the expansion
of the one and then of the other. -/
theorem expand_eq_map_placed_rescan (table : Table) (objectLike : table.IsObjectLike) :
    (∀ tokens, expand table tokens =
        (rescan table (tokens.map Painted.ofSource)).map Painted.placed) ∧
      ∀ first second,
        expand table (first ++ second) = expand table first ++ expand table second := by
  constructor
  · intro tokens
    rw [map_placed_rescan objectLike, List.flatMap_map, objectLike.expand_eq_flatMap]
    rfl
  · intro first second
    rw [objectLike.expand_eq_flatMap, List.flatMap_append, ← objectLike.expand_eq_flatMap,
      ← objectLike.expand_eq_flatMap]

/-- Two names that stand for each other, one of them twice. -/
def entangled : Table :=
  ⟨[("A", { replacement := [⟨.identifier, 1, "B"⟩, ⟨.punctuator, 1, "+"⟩, ⟨.identifier, 1, "B"⟩] }),
    ("B", { replacement := [⟨.identifier, 2, "A"⟩, ⟨.identifier, 2, "x"⟩] })]⟩

/-- Each name comes back once it has been replaced by way of the other one. -/
theorem expand_eq_map_placed_rescan_entangled :
    entangled.IsObjectLike ∧
      expand entangled [⟨.identifier, 7, "A"⟩, ⟨.identifier, 9, "B"⟩] =
        (rescan entangled
          ([⟨.identifier, 7, "A"⟩, ⟨.identifier, 9, "B"⟩].map Painted.ofSource)).map
            Painted.placed ∧
      expand entangled ([⟨.identifier, 7, "A"⟩] ++ [⟨.identifier, 9, "B"⟩]) =
        expand entangled [⟨.identifier, 7, "A"⟩] ++ expand entangled [⟨.identifier, 9, "B"⟩] ∧
      expand entangled [⟨.identifier, 7, "A"⟩, ⟨.identifier, 9, "B"⟩] =
        [⟨.identifier, 7, "A"⟩, ⟨.identifier, 7, "x"⟩, ⟨.punctuator, 7, "+"⟩,
          ⟨.identifier, 7, "A"⟩, ⟨.identifier, 7, "x"⟩, ⟨.identifier, 9, "B"⟩,
          ⟨.punctuator, 9, "+"⟩, ⟨.identifier, 9, "B"⟩, ⟨.identifier, 9, "x"⟩] := by
  have objectLike : entangled.IsObjectLike := Table.isObjectLike_of_entries (by decide)
  have agrees := expand_eq_map_placed_rescan entangled objectLike
  exact ⟨objectLike, agrees.1 _, agrees.2 _ _, by decide +kernel⟩

end Macro
end ObjectWrapper
