import ObjectWrapper.CommandLine.IncludePolicy
import ObjectWrapper.CommandLine.OptionFile
import ObjectWrapper.CommandLine.Switch
import ObjectWrapper.Text.ByteText

namespace ObjectWrapper
namespace CommandLine

open Files

/-!
# What a command line asks for

Switches are obeyed in order, each changing the settings of the run.  The first
one that is invalid, or that asks for the version or for help, decides, whatever
comes after it.
-/

/-- What a command line asks for. -/
inductive Resolution where
  | run (settings : Settings)
  | showVersion
  | showHelp
deriving DecidableEq, Repr

/-- The settings while switches are obeyed, and what is left to be decided. -/
structure Draft where
  settings : Settings := {}
  policy : IncludePolicy := {}
deriving DecidableEq, Repr

namespace Draft

/-- The draft with its settings changed. -/
def change (draft : Draft) (settings : Settings -> Settings) : Draft :=
  { draft with settings := settings draft.settings }

/-- The draft after a request to include files, and among them the given one
unless it is empty. -/
def forceInclude (draft : Draft) (file : String) : Draft :=
  { settings :=
      { draft.settings with
        includeMode := .explicit
        includeFiles := draft.settings.includeFiles ++ if file.isEmpty then [] else [file] }
    policy :=
      { followsExtension := false
        includesInput := draft.policy.includesInput && file.isEmpty } }

/-- The draft after a request to include nothing. -/
def suppressInclude (draft : Draft) : Draft :=
  { settings := { draft.settings with includeMode := .suppressed }
    policy := { draft.policy with followsExtension := false } }

/-- The draft after a switch that changes settings.  Names and values of macros
come as Unicode text and are brought into the form of header text. -/
def obey (draft : Draft) : Switch -> Draft
  | .input path => draft.change fun settings => { settings with input? := some path }
  | .output path => draft.change fun settings => { settings with output? := some path }
  | .preprocessOnly => draft.change fun settings => { settings with preprocessOnly := true }
  | .suppressInclude => draft.suppressInclude
  | .forceInclude file => draft.forceInclude file
  | .prependInclude file => draft.change fun settings =>
      { settings with includeFiles := file :: settings.includeFiles }
  | .includePrefix path => draft.change fun settings =>
      { settings with includePrefix? := some path }
  | .search directory => draft.change fun settings =>
      { settings with searchPath := settings.searchPath ++ [directory] }
  | .define name value => draft.change fun settings =>
      { settings with
        macros := settings.macros.define (ByteText.ofUnicode name)
          (.ofValue (ByteText.ofUnicode value)) }
  | .undefine name => draft.change fun settings =>
      { settings with macros := settings.macros.erase (ByteText.ofUnicode name) }
  | .suppressNotes => draft.change fun settings =>
      { settings with notices := settings.notices.suppressNotes }
  | .suppressWarnings => draft.change fun settings =>
      { settings with notices := settings.notices.suppressWarnings }
  | .showVersion | .showHelp | .invalid _ => draft

/-- The settings of the run, with everything decided. -/
def finish (draft : Draft) (workingDirectory : String) : Settings :=
  draft.policy.finish workingDirectory draft.settings

end Draft

/-- What remaining switches ask for. -/
def resolveSwitches (workingDirectory : String) (draft : Draft) :
    List Switch -> Except Problem Resolution
  | [] => .ok (.run (draft.finish workingDirectory))
  | .showVersion :: _ => .ok .showVersion
  | .showHelp :: _ => .ok .showHelp
  | .invalid problem :: _ => .error problem
  | .input path :: rest =>
    if draft.settings.input?.isSome then .error .tooManyInputs
    else resolveSwitches workingDirectory (draft.obey (.input path)) rest
  | other :: rest => resolveSwitches workingDirectory (draft.obey other) rest

/-- What arguments ask for, in a working directory with files around it. -/
def resolve (workingDirectory : String) (view : View) (arguments : List String) :
    Except Problem Resolution := do
  let expanded <- expandOptionFiles view arguments
  resolveSwitches workingDirectory {} (switches false expanded)

end CommandLine
end ObjectWrapper
