import ObjectWrapper.Directive.Fault
import ObjectWrapper.Files.Search
import ObjectWrapper.Macro.Table

namespace ObjectWrapper
namespace Preprocess

open Files Macro

/-!
# State of preprocessing

What one source text leaves behind for the next: the macros in force and the
files that have been included.  It is kept when a text is refused, too.  Of a
step that may be refused, `EStateM` gives the state in either case.
-/

/-- What source texts preprocessed one after the other share. -/
structure State where
  macros : Table
  /-- The locations of the files included so far, the last one first. -/
  included : List Location
  /-- The paths under which headers were looked for, so that a caller can tell
  which part of the file system has been asked about. -/
  consulted : List String
deriving DecidableEq, Repr

/-- The state before anything has been preprocessed. -/
def State.initial (macros : Table) : State :=
  ⟨macros, [], []⟩

/-- What stays the same during preprocessing. -/
structure Setup where
  view : View
  searchPath : List SearchDirectory

/-- A step of preprocessing. -/
abbrev Step (α : Type) := EStateM Directive.Refusal State α

/-- A place in a file. -/
structure Place where
  file : String
  line : Nat

/-- Refuse the directive at a place. -/
def refuse {α : Type} (place : Place) (fault : Directive.Fault) : Step α :=
  throw ⟨place.file, place.line, fault⟩

/-- Go on with a result, or refuse the directive it was to be read from. -/
def orRefuse {α : Type} (place : Place) (result : Except Directive.Fault α) : Step α :=
  match result with
  | .ok value => pure value
  | .error fault => refuse place fault

/-- Change the macros in force. -/
def modifyMacros (change : Table -> Table) : Step Unit :=
  modify fun state => { state with macros := change state.macros }

end Preprocess
end ObjectWrapper
