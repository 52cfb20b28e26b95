namespace ObjectWrapper
namespace Notice

/-!
# Notes and warnings

A run may have something to say that does not make it fail.  Notes and warnings
can be turned off; without warnings there are no notes either.
-/

/-- How serious a notice is. -/
inductive Severity where
  | note
  | warning
deriving DecidableEq, Repr

/-- The severity in words. -/
def Severity.label : Severity -> String
  | .note => "Note"
  | .warning => "Warning"

/-- Which notices are shown. -/
structure Filter where
  notes : Bool := true
  warnings : Bool := true
deriving DecidableEq, Repr

namespace Filter

def suppressNotes (filter : Filter) : Filter :=
  { filter with notes := false }

def suppressWarnings (_ : Filter) : Filter :=
  ⟨false, false⟩

def shows (filter : Filter) : Severity -> Bool
  | .note => filter.notes
  | .warning => filter.warnings

end Filter

/-- The text of a notice about a line of a file, or about the whole file where
the line is zero. -/
def text (severity : Severity) (file : String) (line : Nat) (message : String) : String :=
  if line = 0 then s!"owc: {file}: {severity.label}: {message}\n"
  else s!"owc: {file}:{line}: {severity.label}: {message}\n"

/-- What is shown of a notice. -/
def shown (filter : Filter) (severity : Severity) (file : String) (line : Nat)
    (message : String) : String :=
  if filter.shows severity then text severity file line message else ""

end Notice
end ObjectWrapper
