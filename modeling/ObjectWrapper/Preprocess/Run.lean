import ObjectWrapper.Condition.Evaluation
import ObjectWrapper.Directive.Basic
import ObjectWrapper.Directive.Definition
import ObjectWrapper.Directive.Piece
import ObjectWrapper.Directive.Target
import ObjectWrapper.Preprocess.Group
import ObjectWrapper.Preprocess.State
import ObjectWrapper.Source.Tokenize

namespace ObjectWrapper
namespace Preprocess

open Source Files Macro

/-!
# Preprocessing

The pieces of a source text are taken in order.  Text in an active branch is
expanded with the macros in force where its stretch ends; directives change the
macros, open and close groups, and splice included files.  A file is spliced at
most once, whatever path names it, and between two markers on the line of its
directive; a header that is not found is skipped.

Inside an inactive branch only the directives that structure groups are looked
at, and their conditions are not evaluated.  A text is refused at the first
directive at fault, and at one that includes a file which cannot be read.
-/

/-- How deeply included files may be nested. -/
def depthLimit : Nat := 64

/-- Whether a condition holds. -/
def conditionHolds (place : Place) (tokens : List Token) : Step Bool := do
  let state <- get
  let value <- orRefuse place
    ((Condition.evaluate state.macros tokens).mapError Directive.Fault.condition)
  pure (value != 0)

/-- The name that the tokens of a directive begin with. -/
def requiredName (place : Place) (tokens : List Token) : Step String :=
  orRefuse place ((Directive.leadingName? tokens).elim (.error .nameMissing) .ok)

/-- Whether the branch of a group that depends on a name is active. -/
def nameHolds (place : Place) (expected : Bool) (tokens : List Token) : Step Bool := do
  let name <- requiredName place tokens
  let state <- get
  pure (state.macros.contains name == expected)

/-- A source text that is processed while another one is: the path of its file
and its tokens. -/
abbrev Process := String -> List Token -> Step (List Token)

/-- Splice the file that an include directive names.  Where files are nested as
deeply as they may be, there is nothing to process it with.  The file counts as included
from the moment it is found, whether or not it can be read. -/
def splice (setup : Setup) (process? : Option Process) (place : Place) (tokens : List Token) :
    Step (List Token) := do
  let state <- get
  match Directive.target? state.macros tokens with
  | none => refuse place .invalidInclude
  | some target =>
    let header := Directive.fileHeader target
    set { state with
      consulted := header.candidates setup.searchPath (some place.file) ++ state.consulted }
    match header.find? setup.view setup.searchPath (some place.file) with
    | none => pure []
    | some found =>
      if state.included.contains found.location then pure []
      else
        modify fun state => { state with included := found.location :: state.included }
        match process? with
        | none => refuse place .includesTooDeep
        | some process =>
          match found.content with
          | .unreadable failure => refuse place (.unreadable failure.reason)
          | .bytes content =>
            let spliced <- process found.path (tokenize (ByteText.ofBytes content))
            pure (⟨.includeBegin, place.line, found.path⟩ :: spliced ++
              [⟨.includeEnd, place.line, ""⟩])

/-- Obey a directive that has no part in the structure of groups. -/
def obey (setup : Setup) (process? : Option Process) (place : Place) :
    Directive.Request -> Step (List Token)
  | .define tokens => do
    let named <- orRefuse place (Directive.namedDefinition tokens)
    modifyMacros (·.define named.1 named.2)
    pure []
  | .undefine tokens => do
    let name <- requiredName place tokens
    modifyMacros (·.erase name)
    pure []
  | .include tokens => splice setup process? place tokens
  | _ => pure []

/-- Obey a directive inside the given groups: the groups that are open after it
and the tokens it brings. -/
def perform (setup : Setup) (process? : Option Process) (place : Place) (groups : List Group)
    (directive : Directive.Request) : Step (List Group × List Token) := do
  let active := isActive groups
  match directive, groups with
  | .ifHolds condition, _ =>
    let holds <- if active then conditionHolds place condition else pure false
    pure (.opened active holds :: groups, [])
  | .ifDefined expected tokens, _ =>
    let holds <- if active then nameHolds place expected tokens else pure false
    pure (.opened active holds :: groups, [])
  | .elif _, [] => refuse place .elifWithoutIf
  | .elif condition, group :: outer =>
    if group.isLast then refuse place .elifAfterElse
    else
      let holds <- if group.needsCondition then conditionHolds place condition else pure false
      pure (group.next holds :: outer, [])
  | .otherwise, [] => refuse place .elseWithoutIf
  | .otherwise, group :: outer =>
    if group.isLast then refuse place .elseAfterElse else pure (group.last :: outer, [])
  | .endif, [] => refuse place .endifWithoutIf
  | .endif, _ :: outer => pure (outer, [])
  | other, _ =>
    if active then
      let brought <- obey setup process? place other
      pure (groups, brought)
    else pure (groups, [])

/-- Process one piece of a file inside the given groups. -/
def processPiece (setup : Setup) (process? : Option Process) (file : String)
    (groups : List Group) : Directive.Piece -> Step (List Group × List Token)
  | .text tokens => do
    let state <- get
    pure (groups, if isActive groups then expand state.macros tokens else [])
  | .directive line tokens =>
    perform setup process? ⟨file, line⟩ groups (.ofTokens tokens)

/-- Process the remaining pieces of a file, whose last line is given. -/
def processPieces (setup : Setup) (process? : Option Process) (file : String) (lastLine : Nat)
    (groups : List Group) : List Directive.Piece -> Step (List Token)
  | [] => if groups.isEmpty then pure [] else refuse ⟨file, lastLine⟩ .unterminated
  | piece :: rest => do
    let done <- processPiece setup process? file groups piece
    let more <- processPieces setup process? file lastLine done.1 rest
    pure (done.2 ++ more)

/-- Process the tokens of a file. -/
def processFile (setup : Setup) (process? : Option Process) (file : String)
    (tokens : List Token) : Step (List Token) :=
  processPieces setup process? file ((tokens.getLast?.map Token.line).getD 1) []
    (Directive.pieces tokens)

/-- Process the tokens of a file in which other files may be nested to the given
depth. -/
def processNested (setup : Setup) : Nat -> Process
  | 0 => processFile setup none
  | depth + 1 => processFile setup (some (processNested setup depth))

/-- Preprocess the bytes of a file. -/
def preprocess (setup : Setup) (file : String) (bytes : List UInt8) : Step (List Token) :=
  processNested setup depthLimit file (tokenize (ByteText.ofBytes bytes))

end Preprocess
end ObjectWrapper
