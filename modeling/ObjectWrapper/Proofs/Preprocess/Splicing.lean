import Mathlib.Data.List.Nodup
import ObjectWrapper.Proofs.Preprocess.Clause
import ObjectWrapper.Proofs.Preprocess.Markers
import ObjectWrapper.Proofs.Preprocess.Steps

namespace ObjectWrapper
namespace Preprocess

open Source Files

/-!
# Spliced files

The markers around spliced files are brackets.  In what preprocessing a text yields
they are nested properly, no deeper than files may be nested, and both markers of a
file stand on the line of the directive that includes it.  Over any number of texts
preprocessed one after the other, refused ones among them, no file is spliced twice,
however often and under whatever paths it is asked for.

What makes this work is the list of included files.  A step that is not refused puts
in front of it the files whose content it brings, last one first; a refused one may
put more files there, which are then never spliced.  The list never names a file
twice.
-/

/-- The markers are nested properly, at most to the given depth, and each one that
ends a file is on the line of the one that begins it. -/
inductive Bracketed : Nat -> List Token -> Prop where
  | nil {depth : Nat} : Bracketed depth []
  | plain {depth : Nat} {token : Token} {rest : List Token} : token.kind.isMarker = false ->
      Bracketed depth rest -> Bracketed depth (token :: rest)
  | spliced {depth line : Nat} {path text : String} {inner rest : List Token} :
      Bracketed depth inner -> Bracketed (depth + 1) rest ->
      Bracketed (depth + 1)
        (⟨.includeBegin, line, path⟩ :: (inner ++ ⟨.includeEnd, line, text⟩ :: rest))

theorem Bracketed.append {depth : Nat} {first second : List Token}
    (firstBracketed : Bracketed depth first) (secondBracketed : Bracketed depth second) :
    Bracketed depth (first ++ second) := by
  induction firstBracketed with
  | nil => exact secondBracketed
  | plain unmarked _ ih => exact .plain unmarked (ih secondBracketed)
  | spliced innerBracketed _ _ ih =>
      rw [List.cons_append, List.append_assoc, List.cons_append]
      exact .spliced innerBracketed (ih secondBracketed)

theorem bracketed_of_unmarked {depth : Nat} {tokens : List Token} (unmarked : Unmarked tokens) :
    Bracketed depth tokens := by
  induction tokens with
  | nil => exact .nil
  | cons token rest ih =>
      exact .plain (unmarked token List.mem_cons_self)
        (ih fun other member => unmarked other (List.mem_cons_of_mem token member))

/-- The paths of the spliced files, as their markers tell them. -/
def splicedPaths (tokens : List Token) : List String :=
  (tokens.filter fun token => token.kind == .includeBegin).map Token.lexeme

/-- The location of the file that a path names. -/
def location? (view : View) (path : String) : Option Location :=
  (view.file? path).map NamedFile.location

/-- The locations of the spliced files. -/
def splicedFiles (view : View) (tokens : List Token) : List (Option Location) :=
  (splicedPaths tokens).map (location? view)

@[simp]
theorem splicedFiles_append (view : View) (first second : List Token) :
    splicedFiles view (first ++ second) = splicedFiles view first ++ splicedFiles view second := by
  simp [splicedFiles, splicedPaths]

theorem splicedFiles_of_unmarked (view : View) {tokens : List Token}
    (unmarked : Unmarked tokens) : splicedFiles view tokens = [] := by
  have none : tokens.filter (fun token => token.kind == .includeBegin) = [] := by
    apply List.filter_eq_nil_iff.mpr
    intro token member begins
    have plain := unmarked token member
    rw [beq_iff_eq.mp begins] at plain
    cases plain
  rw [splicedFiles, splicedPaths, none]
  rfl

theorem splicedFiles_cons_append (view : View) (line : Nat) (path : String)
    (inner : List Token) :
    splicedFiles view
        (⟨.includeBegin, line, path⟩ :: inner ++ [⟨.includeEnd, line, ""⟩]) =
      location? view path :: splicedFiles view inner := by
  simp [splicedFiles, splicedPaths]

/-! ## What steps do -/

/-- No macro holds a marker, and no included file is listed twice. -/
structure State.Orderly (state : State) : Prop where
  unmarked : state.macros.HoldsNoMarker
  distinct : state.included.Nodup

/-- What any step does, be it refused or not. -/
structure Follows (before after : State) : Prop where
  orderly : after.Orderly
  kept : before.included <:+ after.included

/-- What a step does that brings tokens. -/
structure Brings (view : View) (depth : Nat) (before : State) (tokens : List Token)
    (after : State) : Prop where
  orderly : after.Orderly
  bracketed : Bracketed depth tokens
  listed : after.included.map some =
    (splicedFiles view tokens).reverse ++ before.included.map some

theorem Follows.refl {state : State} (orderly : state.Orderly) : Follows state state :=
  ⟨orderly, List.suffix_rfl⟩

/-- A file that has not been included can be listed. -/
theorem State.Orderly.follows_listed {state : State} (orderly : state.Orderly)
    (consulted : List String) {location : Location} (absent : location ∉ state.included) :
    Follows state
      { state with consulted := consulted, included := location :: state.included } :=
  ⟨⟨orderly.unmarked, List.nodup_cons.mpr ⟨absent, orderly.distinct⟩⟩, List.suffix_cons _ _⟩

theorem Follows.trans {first second third : State} (before : Follows first second)
    (after : Follows second third) : Follows first third :=
  ⟨after.orderly, before.kept.trans after.kept⟩

section

variable {view : View} {depth : Nat} {before middle after : State} {tokens more : List Token}

theorem Brings.follows (brings : Brings view depth before tokens after) :
    Follows before after := by
  rcases List.map_eq_append_iff.mp brings.listed with ⟨added, old, equal, _, same⟩
  have unchanged : old = before.included :=
    List.map_injective_iff.mpr (fun _ _ => Option.some.inj) same
  exact ⟨brings.orderly, added, by rw [equal, unchanged]⟩

theorem Brings.append (first : Brings view depth before tokens middle)
    (second : Brings view depth middle more after) :
    Brings view depth before (tokens ++ more) after := by
  refine ⟨second.orderly, first.bracketed.append second.bracketed, ?_⟩
  rw [second.listed, first.listed, splicedFiles_append, List.reverse_append, List.append_assoc]

/-- What a listed file brings is put between its markers. -/
theorem Brings.between {location : Location} {path : String}
    (brings : Brings view depth middle tokens after)
    (listed : middle.included = location :: before.included)
    (located : location? view path = some location) (line : Nat) :
    Brings view (depth + 1) before
      (⟨.includeBegin, line, path⟩ :: tokens ++ [⟨.includeEnd, line, ""⟩]) after := by
  refine ⟨brings.orderly, .spliced brings.bracketed .nil, ?_⟩
  rw [brings.listed, listed, splicedFiles_cons_append, located]
  simp

/-- Text is brought without a change to the included files. -/
theorem brings_of_unmarked (orderly : after.Orderly) (unmarked : Unmarked tokens)
    (same : after.included = before.included) : Brings view depth before tokens after := by
  refine ⟨orderly, bracketed_of_unmarked unmarked, ?_⟩
  rw [splicedFiles_of_unmarked view unmarked, same]
  rfl

theorem brings_nil (orderly : after.Orderly) (same : after.included = before.included) :
    Brings view depth before [] after :=
  brings_of_unmarked orderly (fun _ member => nomatch member) same

end

/-! ## Included files -/

/-- The path of a file that is found names the file. -/
theorem location?_path_of_find? {header : Header} {view : View}
    {searchPath : List SearchDirectory} {includer : Option String} {found : NamedFile}
    (finds : header.find? view searchPath includer = some found) :
    location? view found.path = some found.location := by
  rcases List.exists_of_findSome?_eq_some finds with ⟨path, _, named⟩
  have samePath : found.path = path := by
    unfold View.file? at named
    split at named
    · cases named
      rfl
    · cases named
  rw [location?, samePath, named]
  rfl

/-- Every text without markers that is processed brings proper brackets. -/
def Process.Splices (view : View) (depth : Nat) (process : Process) : Prop :=
  ∀ file tokens state, Unmarked tokens -> state.Orderly ->
    Meets (process file tokens) state
      (fun brought after => Brings view depth state brought after)
      (fun _ after => Follows state after)

section

variable {setup : Setup} {process? : Option Process} {depth : Nat}

/-- The process for included files, where there is one, nests them one level less
deeply. -/
def NestsWithin (setup : Setup) (process? : Option Process) (depth : Nat) : Prop :=
  ∀ process, process? = some process ->
    ∃ inner, depth = inner + 1 ∧ process.Splices setup.view inner

theorem meets_splice (nests : NestsWithin setup process? depth) (place : Place)
    (tokens : List Token) {state : State} (orderly : state.Orderly) :
    Meets (splice setup process? place tokens) state
      (fun brought after => Brings setup.view depth state brought after)
      (fun _ after => Follows state after) := by
  apply meets_splice_of_enters
  · exact fun _ => brings_nil ⟨orderly.unmarked, orderly.distinct⟩ rfl
  · exact fun _ => Follows.refl orderly
  · exact fun _ consulted location absent => orderly.follows_listed consulted absent
  · intro process header found content consulted given finds _ absent
    have entering := orderly.follows_listed consulted absent
    generalize entry : ({ state with consulted := _, included := _ } : State) = entered
      at entering ⊢
    have listed : entered.included = found.location :: state.included := by rw [← entry]
    rcases nests process given with ⟨inner, rfl, splices⟩
    apply (splices found.path _ entered isMarker_of_mem_tokenize entering.orderly).mono
    · intro brought after brings
      exact brings.between listed (location?_path_of_find? finds) place.line
    · intro refusal after follows
      exact entering.trans follows

/-! ## Directives, texts and files -/

theorem meets_obey (nests : NestsWithin setup process? depth) (place : Place)
    (directive : Directive.Request)
    (unmarked : ∀ tokens, directive = .define tokens -> Unmarked tokens) {state : State}
    (orderly : state.Orderly) :
    Meets (obey setup process? place directive) state
      (fun brought after => Brings setup.view depth state brought after)
      (fun _ after => Follows state after) := by
  apply meets_obey_of_splice
  · exact brings_nil orderly rfl
  · exact fun _ => Follows.refl orderly
  · intro tokens named asked read
    have replacement := (unmarked tokens asked).of_subset
      (Directive.replacement_subset_of_namedDefinition read)
    exact brings_nil ⟨orderly.unmarked.define named.1 replacement, orderly.distinct⟩ rfl
  · exact fun name => brings_nil ⟨orderly.unmarked.erase name, orderly.distinct⟩ rfl
  · exact fun tokens _ => meets_splice nests place tokens orderly

theorem meets_perform (nests : NestsWithin setup process? depth) (place : Place)
    (groups : List Group) (directive : Directive.Request)
    (unmarked : ∀ tokens, directive = .define tokens -> Unmarked tokens) {state : State}
    (orderly : state.Orderly) :
    Meets (perform setup process? place groups directive) state
      (fun done after => Brings setup.view depth state done.2 after)
      (fun _ after => Follows state after) :=
  meets_perform_of_obey groups directive (brings_nil orderly rfl)
    (fun _ => Follows.refl orderly) (meets_obey nests place directive unmarked orderly)

theorem meets_processPiece (nests : NestsWithin setup process? depth) (file : String)
    (groups : List Group) (piece : Directive.Piece) (unmarked : Unmarked piece.tokens)
    {state : State} (orderly : state.Orderly) :
    Meets (processPiece setup process? file groups piece) state
      (fun done after => Brings setup.view depth state done.2 after)
      (fun _ after => Follows state after) := by
  cases piece with
  | text tokens =>
      unfold processPiece
      rw [meets_bind, meets_get, meets_pure]
      cases isActive groups with
      | false => exact brings_nil orderly rfl
      | true =>
          exact brings_of_unmarked orderly (Macro.unmarked_expand orderly.unmarked unmarked) rfl
  | directive line tokens =>
      exact meets_perform nests ⟨file, line⟩ groups (.ofTokens tokens)
        (fun defined asked => unmarked.of_subset (Directive.subset_of_ofTokens_eq_define asked))
        orderly

theorem meets_processPieces (nests : NestsWithin setup process? depth) (file : String)
    (lastLine : Nat) (groups : List Group) (pieces : List Directive.Piece)
    (unmarked : ∀ piece ∈ pieces, Unmarked piece.tokens) {state : State}
    (orderly : state.Orderly) :
    Meets (processPieces setup process? file lastLine groups pieces) state
      (fun brought after => Brings setup.view depth state brought after)
      (fun _ after => Follows state after) := by
  induction pieces generalizing groups state with
  | nil =>
      unfold processPieces
      cases groups.isEmpty with
      | true => exact brings_nil orderly rfl
      | false => exact Follows.refl orderly
  | cons piece rest ih =>
      unfold processPieces
      rw [meets_bind]
      have first := meets_processPiece nests file groups piece
        (unmarked piece List.mem_cons_self) orderly
      apply first.mono
      · intro done middle brings
        rw [meets_bind]
        apply (ih done.1 (fun other member => unmarked other (List.mem_cons_of_mem piece member))
          brings.orderly).mono
        · exact fun more after moreBrings => brings.append moreBrings
        · exact fun refusal after follows => brings.follows.trans follows
      · exact fun refusal after follows => follows

theorem splices_processFile (nests : NestsWithin setup process? depth) :
    Process.Splices setup.view depth (processFile setup process?) := by
  intro file tokens state unmarked orderly
  exact meets_processPieces nests file _ [] (Directive.pieces tokens)
    (fun piece member => unmarked.of_subset (Directive.tokens_subset_of_mem_pieces member)) orderly

end

/-- Files are nested no deeper than they may be. -/
theorem splices_processNested (setup : Setup) (depth : Nat) :
    Process.Splices setup.view depth (processNested setup depth) := by
  induction depth with
  | zero => exact splices_processFile fun process absent => nomatch absent
  | succ depth ih =>
      apply splices_processFile
      intro process given
      cases given
      exact ⟨depth, rfl, ih⟩

theorem nestsWithin_nestedProcess? (setup : Setup) (depth : Nat) :
    NestsWithin setup (nestedProcess? setup depth) depth := by
  intro process given
  cases depth with
  | zero => cases given
  | succ depth =>
      cases given
      exact ⟨depth, rfl, splices_processNested setup depth⟩

/-! ## Texts one after the other -/

/-- A text to be preprocessed, under the name of a file. -/
structure Submission where
  file : String
  bytes : List UInt8

/-- What comes of texts that are preprocessed one after the other.  Each begins with
the state that the one before it has left behind, even if that one was refused. -/
def outcomes (setup : Setup) :
    State -> List Submission -> List (Except Directive.Refusal (List Token))
  | _, [] => []
  | state, submission :: rest =>
    match preprocess setup submission.file submission.bytes state with
    | .ok tokens after => .ok tokens :: outcomes setup after rest
    | .error refusal after => .error refusal :: outcomes setup after rest

/-- The tokens of the texts that are not refused. -/
def accepted (answers : List (Except Directive.Refusal (List Token))) : List (List Token) :=
  answers.filterMap Except.toOption

theorem meets_preprocess (setup : Setup) (submission : Submission) {state : State}
    (orderly : state.Orderly) :
    Meets (preprocess setup submission.file submission.bytes) state
      (fun brought after => Brings setup.view depthLimit state brought after)
      (fun _ after => Follows state after) :=
  splices_processNested setup depthLimit submission.file _ state isMarker_of_mem_tokenize orderly

theorem bracketed_of_mem_accepted_outcomes (setup : Setup) {state : State}
    (orderly : state.Orderly) (submissions : List Submission) :
    ∀ tokens ∈ accepted (outcomes setup state submissions), Bracketed depthLimit tokens := by
  induction submissions generalizing state with
  | nil => exact fun tokens member => nomatch member
  | cons submission rest ih =>
      have meets := meets_preprocess setup submission orderly
      unfold Meets at meets
      unfold outcomes
      split
      · rename_i brought after ran
        rw [ran] at meets
        intro tokens member
        rcases List.mem_cons.mp member with rfl | later
        · exact meets.bracketed
        · exact ih meets.orderly tokens later
      · rename_i refusal after ran
        rw [ran] at meets
        exact ih meets.orderly

/-- All files that are spliced have been included, each once. -/
theorem exists_included_of_outcomes (setup : Setup) {state : State} (orderly : state.Orderly)
    (submissions : List Submission) :
    ∃ included : List Location, included.Nodup ∧
      List.Sublist
        (((accepted (outcomes setup state submissions)).flatMap (splicedFiles setup.view)).reverse ++
          state.included.map some)
        (included.map some) := by
  induction submissions generalizing state with
  | nil => exact ⟨state.included, orderly.distinct, List.Sublist.refl _⟩
  | cons submission rest ih =>
      have meets := meets_preprocess setup submission orderly
      unfold Meets at meets
      unfold outcomes
      split
      · rename_i brought after ran
        rw [ran] at meets
        rcases ih meets.orderly with ⟨included, distinct, within⟩
        refine ⟨included, distinct, ?_⟩
        rw [meets.listed, ← List.append_assoc, ← List.reverse_append] at within
        exact within
      · rename_i refusal after ran
        rw [ran] at meets
        rcases ih meets.orderly with ⟨included, distinct, within⟩
        refine ⟨included, distinct, List.Sublist.trans ?_ within⟩
        exact List.Sublist.append_left (meets.kept.sublist.map some) _

/-- Of texts preprocessed one after the other, those that are not refused have
markers that are proper brackets, nested no deeper than files may be.  Over all
these texts together, the markers name files, and never the same file twice. -/
theorem bracketed_and_nodup_outcomes (setup : Setup) (macros : Macro.Table)
    (submissions : List Submission) (unmarked : macros.HoldsNoMarker) :
    let answers := accepted (outcomes setup (.initial macros) submissions)
    (∀ tokens ∈ answers, Bracketed depthLimit tokens) ∧
      ∃ locations : List Location, locations.Nodup ∧
        (answers.flatMap splicedPaths).map (location? setup.view) = locations.map some := by
  intro answers
  have orderly : (State.initial macros).Orderly := ⟨unmarked, List.nodup_nil⟩
  refine ⟨bracketed_of_mem_accepted_outcomes setup orderly submissions, ?_⟩
  rcases exists_included_of_outcomes setup orderly submissions with ⟨included, distinct, within⟩
  have files : answers.flatMap (splicedFiles setup.view) =
      (answers.flatMap splicedPaths).map (location? setup.view) :=
    (List.map_flatMap).symm
  have spliced : List.Sublist
      ((answers.flatMap splicedPaths).map (location? setup.view)).reverse
      (included.map some) := by
    have nothingBefore : (State.initial macros).included.map some = [] := rfl
    rw [nothingBefore, List.append_nil] at within
    rwa [← files]
  rcases List.sublist_map_iff.mp spliced with ⟨reversed, kept, equal⟩
  refine ⟨reversed.reverse, List.nodup_reverse.mpr (distinct.sublist kept), ?_⟩
  rw [List.map_reverse, ← equal, List.reverse_reverse]

/-- Two files that include each other, and one that stands alone. -/
def entangledFiles : Tree :=
  (((Tree.empty ["w"]).install "a.h" "#include \"c.h\"\nA".toUTF8.toList).install "b.h"
    "B".toUTF8.toList).install "c.h" "#include \"../w/a.h\"\nC".toUTF8.toList

/-- A text that is refused after it has spliced a file, and one that asks for this
file again. -/
def refusedFirst : List Submission :=
  [⟨"m.h", "#include \"b.h\"\n#endif".toUTF8.toList⟩,
    ⟨"n.h", "#include \"./a.h\"\n#include \"../w/b.h\"\ny".toUTF8.toList⟩]

theorem bracketed_and_nodup_outcomes_refusedFirst :
    Macro.Table.builtins.HoldsNoMarker ∧
      let answers :=
        accepted (outcomes ⟨entangledFiles.view, []⟩ (.initial .builtins) refusedFirst)
      answers.map splicedPaths = [["./a.h", "./c.h"]] ∧
        (∀ tokens ∈ answers, Bracketed depthLimit tokens) ∧
        ∃ locations : List Location, locations.Nodup ∧
          (answers.flatMap splicedPaths).map (location? entangledFiles.view) =
            locations.map some := by
  have spliced : (accepted (outcomes ⟨entangledFiles.view, []⟩ (.initial .builtins)
      refusedFirst)).map splicedPaths = [["./a.h", "./c.h"]] := by decide +kernel
  exact ⟨Macro.holdsNoMarker_builtins, spliced,
    bracketed_and_nodup_outcomes ⟨entangledFiles.view, []⟩ .builtins refusedFirst
      Macro.holdsNoMarker_builtins⟩

end Preprocess
end ObjectWrapper
