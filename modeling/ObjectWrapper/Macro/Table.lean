import ObjectWrapper.Source.Token

namespace ObjectWrapper
namespace Macro

open Source

/-!
# Macro definitions and the table of a run

A table gives each name at most one definition.  Defining a name again replaces
what it stood for, and an erased name is as if it had never been defined.  A
table is seen through `find?` only; the order of its entries has no meaning.
-/

/-- What a macro name stands for. -/
structure Definition where
  replacement : List Token := []
  /-- The parameters in order; the one that takes the remaining arguments of a
  variadic macro is called `__VA_ARGS__`. -/
  parameters : List String := []
  /-- Whether the name is replaced only together with an argument list. -/
  isFunction : Bool := false
  /-- Whether the last parameter takes all remaining arguments. -/
  isVariadic : Bool := false
deriving DecidableEq, Repr

namespace Definition

/-- The parameter that stands for the remaining arguments. -/
def variadicName : String := "__VA_ARGS__"

/-- A macro that disappears. -/
def empty : Definition := {}

/-- A macro defined on the command line: its value is one identifier, whatever
it is spelled like, and belongs to no line of any file. -/
def ofValue (value : String) : Definition :=
  { replacement := [⟨.identifier, 0, value⟩] }

/-- A macro that disappears together with its arguments. -/
def sink : Definition :=
  { parameters := [variadicName], isFunction := true, isVariadic := true }

/-- The texts of the replacement, one after the other. -/
def replacementText (definition : Definition) : String :=
  joinLexemes definition.replacement

end Definition

/-- The macros in force. -/
structure Table where
  entries : List (String × Definition)
deriving DecidableEq, Repr

namespace Table

def empty : Table := ⟨[]⟩

/-- The definition of a name. -/
def find? (table : Table) (name : String) : Option Definition :=
  table.entries.lookup name

def contains (table : Table) (name : String) : Bool :=
  (table.find? name).isSome

/-- The table in which the name is not defined. -/
def erase (table : Table) (name : String) : Table :=
  ⟨table.entries.filter fun entry => entry.1 != name⟩

/-- The table in which the name stands for the given definition. -/
def define (table : Table) (name : String) (definition : Definition) : Table :=
  ⟨(name, definition) :: (table.erase name).entries⟩

/-- The number of names that are defined. -/
def size (table : Table) : Nat :=
  table.entries.length

/-- The names that every run knows: it reads C++ on behalf of a wrapper
compiler, and attributes are of no interest to it. -/
def builtins : Table :=
  ((empty.define "Q_MOC_RUN" .empty).define "__cplusplus" .empty).define "__attribute__" .sink

/-! ## The table as a function of names -/

@[simp]
theorem find?_empty (name : String) : empty.find? name = none :=
  rfl

theorem find?_erase (table : Table) (erased name : String) :
    (table.erase erased).find? name = if name = erased then none else table.find? name := by
  unfold find? erase
  induction table.entries with
  | nil => simp
  | cons entry rest ih =>
    rcases entry with ⟨key, definition⟩
    by_cases dropped : key = erased
    · subst key
      by_cases same : name = erased
      · simpa [same] using ih
      · simpa [List.lookup_cons, beq_eq_false_iff_ne.mpr same, same] using ih
    · by_cases same : name = key
      · simp [dropped, same]
      · simpa [dropped, List.lookup_cons, beq_eq_false_iff_ne.mpr same] using ih

@[simp]
theorem find?_erase_self (table : Table) (name : String) :
    (table.erase name).find? name = none := by
  simp [find?_erase]

theorem find?_define (table : Table) (defined name : String) (definition : Definition) :
    (table.define defined definition).find? name =
      if name = defined then some definition else table.find? name := by
  by_cases same : name = defined
  · simp [define, find?, same]
  · have erased := find?_erase table defined name
    rw [if_neg same] at erased
    rw [if_neg same, ← erased]
    simp [define, find?, List.lookup_cons, beq_eq_false_iff_ne.mpr same]

/-- Erasing a name that is defined makes the table smaller. -/
theorem size_erase_lt {table : Table} {name : String} (defined : (table.find? name).isSome) :
    (table.erase name).size < table.size := by
  unfold size erase
  rw [List.length_filter_lt_length_iff_exists]
  obtain ⟨definition, found⟩ := Option.isSome_iff_exists.mp defined
  have member := List.lookup_eq_some_iff.mp found
  obtain ⟨before, after, equal, _⟩ := member
  exact ⟨(name, definition), by simp [equal], by simp⟩

end Table

end Macro
end ObjectWrapper
