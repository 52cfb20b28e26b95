import Mathlib.Data.List.Basic
import ObjectWrapper.CommandLine.Resolution
import ObjectWrapper.Proofs.Except

namespace ObjectWrapper
namespace CommandLine

open Files

/-!
# What a command line declares

Switches are obeyed one after the other, and later ones change what earlier ones have
set.  What comes of a whole command line can be said without following them.  It is
read as a list of parts: options with the text that belongs to them, and arguments that
are no options.  Each setting is then a function of that list: the value of the last
option of a letter, the values of a letter in order, or the one argument that is there.

Only command lines that lead to a run are described; in others a later part may not
have been looked at.
-/

/-! ## Parts of a command line -/

/-- An argument that is no option, or the letter of an option and the text that belongs
to it. -/
inductive Part where
  | bare (argument : String)
  | option (letter : Char) (text : String)
deriving DecidableEq, Repr

/-- Whether the text of an option is the next argument where none is attached to the
letter. -/
def takesValue (letter : Char) : Bool :=
  ['o', 'b', 'p', 'I', 'F', 'D', 'U'].contains letter

/-- The parts of a command line, from left to right.  A value may be any argument, be it
empty or look like an option. -/
def parts (ignoresClashes : Bool) : List String -> List Part
  | [] => []
  | argument :: rest =>
    match argument.toList with
    | [] | ['-'] => parts ignoresClashes rest
    | '-' :: letter :: suffix =>
      if argument = "--ignore-option-clashes" then parts true rest
      else if ignoresClashes && clashes letter then parts ignoresClashes rest
      else if takesValue letter && suffix.isEmpty then
        match rest with
        | [] => []
        | value :: more => .option letter value :: parts ignoresClashes more
      else .option letter (String.ofList suffix) :: parts ignoresClashes rest
    | _ => .bare argument :: parts ignoresClashes rest

namespace Part

def bare? : Part -> Option String
  | bare argument => some argument
  | option _ _ => none

/-- The text of an option of the letter. -/
def text? (letter : Char) : Part -> Option String
  | bare _ => none
  | option other text => if other = letter then some text else none

/-- The directory that an option adds to the search path. -/
def directory? : Part -> Option SearchDirectory
  | option 'I' path => some ⟨path, false⟩
  | option 'F' path => some ⟨path, true⟩
  | _ => none

/-- The macro name that an option decides on, and what the name stands for then.  Names
and values have the form of header text. -/
def macroEntry? : Part -> Option (String × Option Macro.Definition)
  | option 'D' definition =>
    let named := definitionParts definition
    some (ByteText.ofUnicode named.1, some (.ofValue (ByteText.ofUnicode named.2)))
  | option 'U' name => some (ByteText.ofUnicode name, none)
  | _ => none

/-- The mode of including that an option asks for. -/
def mode? : Part -> Option IncludeMode
  | option 'i' _ => some .suppressed
  | option 'f' _ => some .explicit
  | _ => none

end Part

/-- The texts of the options of a letter, in order. -/
def texts (letter : Char) (parts : List Part) : List String :=
  parts.filterMap (Part.text? letter)

/-- The files that are given to the option that forces them to be included. -/
def forcedFiles (parts : List Part) : List String :=
  (texts 'f' parts).filter (! ·.isEmpty)

/-- What a macro name stands for by the last option that decides on it, or else from the
beginning. -/
def declaredMacro? (parts : List Part) (name : String) : Option Macro.Definition :=
  match ((parts.filterMap Part.macroEntry?).filter (·.1 = name)).getLast? with
  | some entry => entry.2
  | none => Macro.Table.builtins.find? name

/-- The settings are those that the parts of a command line declare. -/
structure Declares (workingDirectory : String) (parts : List Part) (settings : Settings) :
    Prop where
  input : parts.filterMap Part.bare? = settings.input?.toList
  output : settings.output? = (texts 'o' parts).getLast?
  includePrefix : settings.includePrefix? = (texts 'p' parts).getLast?
  searchPath : settings.searchPath = parts.filterMap Part.directory?
  macros : ∀ name, settings.macros.find? name = declaredMacro? parts name
  includeFiles : settings.includeFiles =
    (texts 'b' parts).reverse ++ forcedFiles parts ++
      if forcedFiles parts = [] then
        (settings.input?.map (IncludePolicy.inputFile workingDirectory settings)).toList
      else []
  includeMode : settings.includeMode = (parts.filterMap Part.mode?).getLast?.getD
    (if settings.input?.any hasHeaderExtension then .automatic else .suppressed)
  preprocessOnly : settings.preprocessOnly = ! (texts 'E' parts).isEmpty
  notices : settings.notices = ⟨(texts 'n' parts).isEmpty, ! (texts 'n' parts).contains "w"⟩

/-! ## What a part asks for -/

/-- The switch that a part of a command line is, unless it is invalid or asks for no
run. -/
inductive Part.Asks : Part -> Switch -> Prop where
  | input (argument : String) : Asks (.bare argument) (.input argument)
  | output (path : String) : Asks (.option 'o' path) (.output path)
  | prependInclude (file : String) : Asks (.option 'b' file) (.prependInclude file)
  | includePrefix (path : String) : Asks (.option 'p' path) (.includePrefix path)
  | directory (path : String) : Asks (.option 'I' path) (.search ⟨path, false⟩)
  | framework (path : String) : Asks (.option 'F' path) (.search ⟨path, true⟩)
  | define (definition : String) : Asks (.option 'D' definition)
      (.define (definitionParts definition).1 (definitionParts definition).2)
  | undefine (name : String) : Asks (.option 'U' name) (.undefine name)
  | preprocessOnly (ignored : String) : Asks (.option 'E' ignored) .preprocessOnly
  | forceInclude (file : String) : Asks (.option 'f' file) (.forceInclude file)
  | suppressInclude : Asks (.option 'i' "") .suppressInclude
  | suppressNotes : Asks (.option 'n' "n") .suppressNotes
  | suppressWarnings : Asks (.option 'n' "w") .suppressWarnings

/-- After the switch nothing is obeyed any more. -/
def Switch.Stops : Switch -> Prop
  | .showVersion | .showHelp | .invalid _ => True
  | _ => False

theorem Part.asks_of_valueSwitch? {letter : Char} {switch : Option String -> Switch}
    (found : valueSwitch? letter = some switch) {text : String}
    (goesOn : ¬ (switch (some text)).Stops) : Part.Asks (.option letter text) (switch (some text)) := by
  unfold valueSwitch? at found
  split at found
  · cases found; exact .output text
  · cases found; exact .prependInclude text
  · cases found; exact .includePrefix text
  · cases found; exact .directory text
  · cases found; exact .framework text
  · cases found
    change ¬ (defineSwitch text).Stops at goesOn
    change Part.Asks _ (defineSwitch text)
    by_cases nameless : (definitionParts text).1.isEmpty = true
    · rw [defineSwitch, if_pos nameless] at goesOn
      exact absurd trivial goesOn
    · rw [defineSwitch, if_neg nameless]
      exact .define text
  · cases found
    change ¬ (undefineSwitch text).Stops at goesOn
    change Part.Asks _ (undefineSwitch text)
    by_cases nameless : text.isEmpty = true
    · rw [undefineSwitch, if_pos nameless] at goesOn
      exact absurd trivial goesOn
    · rw [undefineSwitch, if_neg nameless]
      exact .undefine text
  · cases found

theorem Part.asks_plainSwitch {letter : Char} {text : String}
    (goesOn : ¬ (plainSwitch letter text).Stops) :
    Part.Asks (.option letter text) (plainSwitch letter text) := by
  unfold plainSwitch at *
  split at goesOn
  · exact .preprocessOnly _
  · exact .forceInclude _
  · exact .suppressInclude
  · exact .suppressNotes
  · exact .suppressWarnings
  all_goals exact absurd trivial goesOn

/-! ## From arguments to parts -/

theorem switches_cons (ignoresClashes : Bool) (argument : String) (rest : List String) :
    switches ignoresClashes (argument :: rest) =
      (readArgument ignoresClashes argument rest.head?).switch?.toList ++
        switches (readArgument ignoresClashes argument rest.head?).ignoresClashes
          (rest.drop (if (readArgument ignoresClashes argument rest.head?).takesNext then 1 else 0)) := by
  rw [switches]

/-- The letters whose options take a value are those of the switches by a value. -/
theorem takesValue_eq_isSome_valueSwitch? (letter : Char) :
    takesValue letter = (valueSwitch? letter).isSome := by
  unfold valueSwitch?
  split
  case h_8 => simp_all [takesValue]
  all_goals rfl

theorem stops_of_valueSwitch?_none {letter : Char} {switch : Option String -> Switch}
    (found : valueSwitch? letter = some switch) : (switch none).Stops := by
  unfold valueSwitch? at found
  split at found <;> first | (cases found; trivial) | cases found

theorem eq_ignoreClashes_iff {argument : String} {letter : Char} {suffix : List Char}
    (written : argument.toList = '-' :: letter :: suffix) :
    argument = "--ignore-option-clashes" ↔
      letter = '-' ∧ String.ofList suffix = "ignore-option-clashes" := by
  have ignored : "--ignore-option-clashes".toList =
      '-' :: '-' :: "ignore-option-clashes".toList := by decide
  rw [← String.toList_inj, ignored, written, ← String.toList_inj]
  simp

/-- An option that is not passed over, read in front of the next argument. -/
theorem readArgument_option {ignoresClashes : Bool} {argument : String} {letter : Char}
    {suffix : List Char} (written : argument.toList = '-' :: letter :: suffix)
    (other : argument ≠ "--ignore-option-clashes")
    (kept : ¬ (ignoresClashes && clashes letter) = true) (next? : Option String) :
    readArgument ignoresClashes argument next? =
      match valueSwitch? letter with
      | some switch =>
        ⟨some (switch (optionValue (String.ofList suffix) next?).1),
          (optionValue (String.ofList suffix) next?).2, ignoresClashes⟩
      | none => ⟨some (plainSwitch letter (String.ofList suffix)), false, ignoresClashes⟩ := by
  simp only [readArgument, written, readOption]
  exact (if_neg (mt (eq_ignoreClashes_iff written).mpr other)).trans (if_neg kept)

/-- An argument with a switch that a part asks for, and the arguments after it. -/
theorem forall₂_asks_switches_cons {ignoresClashes takesNext ignoresLater : Bool}
    {argument : String} {rest : List String} {switch : Switch} {part : Part} {later : List Part}
    (read : readArgument ignoresClashes argument rest.head? =
      ⟨some switch, takesNext, ignoresLater⟩)
    (goesOn : ∀ switch ∈ switches ignoresClashes (argument :: rest), ¬ switch.Stops)
    (asks : ¬ switch.Stops -> part.Asks switch)
    (continued : (∀ switch ∈ switches ignoresLater (rest.drop (if takesNext then 1 else 0)),
        ¬ switch.Stops) ->
      List.Forall₂ Part.Asks later
        (switches ignoresLater (rest.drop (if takesNext then 1 else 0)))) :
    List.Forall₂ Part.Asks (part :: later) (switches ignoresClashes (argument :: rest)) := by
  rw [switches_cons, read] at goesOn ⊢
  rcases List.forall_mem_cons.mp goesOn with ⟨here, onward⟩
  exact .cons (asks here) (continued onward)

theorem forall₂_asks_switches {ignoresClashes : Bool} {arguments : List String}
    (goesOn : ∀ switch ∈ switches ignoresClashes arguments, ¬ switch.Stops) :
    List.Forall₂ Part.Asks (parts ignoresClashes arguments) (switches ignoresClashes arguments) := by
  fun_induction parts ignoresClashes arguments with
  | case1 ignoresClashes =>
      rw [switches]
      exact .nil
  | case2 ignoresClashes argument rest empty continued =>
      have read : readArgument ignoresClashes argument rest.head? =
          ⟨none, false, ignoresClashes⟩ := by
        simp only [readArgument, empty]
      rw [switches_cons, read] at goesOn ⊢
      exact continued goesOn
  | case3 ignoresClashes argument rest hyphen =>
      have read : readArgument ignoresClashes argument rest.head? =
          ⟨some (.invalid .invalidArgument), false, ignoresClashes⟩ := by
        simp only [readArgument, hyphen]
      rw [switches_cons, read] at goesOn
      exact absurd trivial (goesOn _ (List.mem_append_left _ (List.mem_singleton_self _)))
  | case4 ignoresClashes rest letter suffix written continued =>
      have read : readArgument ignoresClashes "--ignore-option-clashes" rest.head? =
          ⟨none, false, true⟩ := by
        simp only [readArgument, written, readOption]
        rw [if_pos ((eq_ignoreClashes_iff written).mp rfl)]
      rw [switches_cons, read] at goesOn ⊢
      exact continued goesOn
  | case5 ignoresClashes argument rest letter suffix written other clash continued =>
      have read : readArgument ignoresClashes argument rest.head? =
          ⟨none, false, ignoresClashes⟩ := by
        simp only [readArgument, written, readOption]
        rw [if_neg (mt (eq_ignoreClashes_iff written).mpr other), if_pos clash]
      rw [switches_cons, read] at goesOn ⊢
      exact continued goesOn
  | case6 ignoresClashes argument letter suffix written other kept valued =>
      rw [Bool.and_eq_true, takesValue_eq_isSome_valueSwitch?, Option.isSome_iff_exists,
        List.isEmpty_iff] at valued
      rcases valued with ⟨⟨switch, found⟩, rfl⟩
      have read := readArgument_option written other kept none
      simp only [found] at read
      rw [switches_cons, List.head?_nil, read] at goesOn
      exact absurd (stops_of_valueSwitch?_none found)
        (goesOn _ (List.mem_append_left _ (List.mem_singleton_self _)))
  | case7 ignoresClashes argument letter suffix written other kept valued value more continued =>
      rw [Bool.and_eq_true, takesValue_eq_isSome_valueSwitch?, Option.isSome_iff_exists,
        List.isEmpty_iff] at valued
      rcases valued with ⟨⟨switch, found⟩, rfl⟩
      have read := readArgument_option written other kept (some value)
      simp only [found] at read
      exact forall₂_asks_switches_cons read goesOn (Part.asks_of_valueSwitch? found) continued
  | case8 ignoresClashes argument rest letter suffix written other kept unvalued continued =>
      have read := readArgument_option written other kept rest.head?
      cases found : valueSwitch? letter with
      | none =>
          simp only [found] at read
          exact forall₂_asks_switches_cons read goesOn Part.asks_plainSwitch continued
      | some switch =>
          have attached : (String.ofList suffix).isEmpty = false := by
            rw [takesValue_eq_isSome_valueSwitch?, found] at unvalued
            cases suffix with
            | nil => exact absurd rfl unvalued
            | cons first rest => simp
          simp only [found, optionValue, attached] at read
          exact forall₂_asks_switches_cons read goesOn (Part.asks_of_valueSwitch? found) continued
  | case9 ignoresClashes argument rest filled notHyphen notOption continued =>
      have read : readArgument ignoresClashes argument rest.head? =
          ⟨some (.input argument), false, ignoresClashes⟩ := by
        unfold readArgument
        split
        · exact absurd ‹_› filled
        · exact absurd ‹_› notHyphen
        · exact absurd ‹_› (notOption _ _)
        · rfl
      exact forall₂_asks_switches_cons read goesOn (fun _ => .input argument) continued

/-! ## One part more -/

/-- A draft in which the parts seen so far have been obeyed. -/
structure Draft.Follows (parts : List Part) (draft : Draft) : Prop where
  input : parts.filterMap Part.bare? = draft.settings.input?.toList
  output : draft.settings.output? = (texts 'o' parts).getLast?
  includePrefix : draft.settings.includePrefix? = (texts 'p' parts).getLast?
  searchPath : draft.settings.searchPath = parts.filterMap Part.directory?
  macros : ∀ name, draft.settings.macros.find? name = declaredMacro? parts name
  includeFiles : draft.settings.includeFiles = (texts 'b' parts).reverse ++ forcedFiles parts
  includesInput : draft.policy.includesInput = (forcedFiles parts).isEmpty
  includeMode : (parts.filterMap Part.mode?).getLast? =
    if draft.policy.followsExtension then none else some draft.settings.includeMode
  preprocessOnly : draft.settings.preprocessOnly = ! (texts 'E' parts).isEmpty
  notices : draft.settings.notices =
    ⟨(texts 'n' parts).isEmpty, ! (texts 'n' parts).contains "w"⟩

theorem Draft.follows_nil : ({} : Draft).Follows [] where
  input := rfl
  output := rfl
  includePrefix := rfl
  searchPath := rfl
  macros _ := rfl
  includeFiles := rfl
  includesInput := rfl
  includeMode := rfl
  preprocessOnly := rfl
  notices := rfl

theorem filterMap_append_singleton {Given Kept : Type} (select : Given -> Option Kept)
    (before : List Given) (last : Given) :
    (before ++ [last]).filterMap select = before.filterMap select ++ (select last).toList := by
  rw [List.filterMap_append]
  cases chosen : select last <;> simp [chosen]

theorem texts_append_singleton (letter : Char) (before : List Part) (last : Part) :
    texts letter (before ++ [last]) = texts letter before ++ (last.text? letter).toList :=
  filterMap_append_singleton _ before last

theorem getLast?_append_toList {Kept : Type} (before : List Kept) (last? : Option Kept) :
    (before ++ last?.toList).getLast? = last?.or before.getLast? := by
  cases last? <;> simp

theorem isEmpty_append {Kept : Type} (before after : List Kept) :
    (before ++ after).isEmpty = (before.isEmpty && after.isEmpty) := by
  cases before <;> simp

theorem forcedFiles_append_singleton (before : List Part) (last : Part) :
    forcedFiles (before ++ [last]) =
      forcedFiles before ++ (last.text? 'f').toList.filter (! ·.isEmpty) := by
  rw [forcedFiles, texts_append_singleton, List.filter_append]
  rfl

theorem declaredMacro?_append_singleton (before : List Part) (last : Part) (name : String) :
    declaredMacro? (before ++ [last]) name =
      match last.macroEntry?.filter (·.1 = name) with
      | some entry => entry.2
      | none => declaredMacro? before name := by
  unfold declaredMacro?
  rw [filterMap_append_singleton, List.filter_append]
  cases last.macroEntry? with
  | none => simp
  | some entry => by_cases named : entry.1 = name <;> simp [Option.filter, named]

section Obeying

variable {part : Part} {switch : Switch}

/-! Each setting after a switch, by what its part holds for it. -/

theorem Part.Asks.input?_obey (asks : part.Asks switch) (draft : Draft) :
    (draft.obey switch).settings.input? = part.bare?.or draft.settings.input? := by
  cases asks <;> rfl

theorem Part.Asks.output?_obey (asks : part.Asks switch) (draft : Draft) :
    (draft.obey switch).settings.output? = (part.text? 'o').or draft.settings.output? := by
  cases asks <;> rfl

theorem Part.Asks.includePrefix?_obey (asks : part.Asks switch) (draft : Draft) :
    (draft.obey switch).settings.includePrefix? =
      (part.text? 'p').or draft.settings.includePrefix? := by
  cases asks <;> rfl

theorem Part.Asks.searchPath_obey (asks : part.Asks switch) (draft : Draft) :
    (draft.obey switch).settings.searchPath =
      draft.settings.searchPath ++ part.directory?.toList := by
  cases asks
  case directory | framework => rfl
  all_goals exact (List.append_nil _).symm

theorem Part.Asks.find?_macros_obey (asks : part.Asks switch) (draft : Draft) (name : String) :
    (draft.obey switch).settings.macros.find? name =
      match part.macroEntry?.filter (·.1 = name) with
      | some entry => entry.2
      | none => draft.settings.macros.find? name := by
  cases asks
  case define definition =>
    simp only [Draft.obey, Draft.change, Macro.Table.find?_define, Part.macroEntry?,
      Option.filter_some, eq_comm]
    split <;> simp [*]
  case undefine undefined =>
    simp only [Draft.obey, Draft.change, Macro.Table.find?_erase, Part.macroEntry?,
      Option.filter_some, eq_comm]
    split <;> simp [*]
  all_goals rfl

theorem Part.Asks.includeFiles_obey (asks : part.Asks switch) (draft : Draft) :
    (draft.obey switch).settings.includeFiles =
      (part.text? 'b').toList ++ draft.settings.includeFiles ++
        (part.text? 'f').toList.filter (! ·.isEmpty) := by
  cases asks
  case forceInclude file =>
    by_cases empty : file.isEmpty <;> simp [Draft.obey, Draft.forceInclude, Part.text?, empty]
  case prependInclude => simp [Draft.obey, Draft.change, Part.text?]
  all_goals exact (List.append_nil _).symm

theorem Part.Asks.includesInput_obey (asks : part.Asks switch) (draft : Draft) :
    (draft.obey switch).policy.includesInput =
      (draft.policy.includesInput && ((part.text? 'f').toList.filter (! ·.isEmpty)).isEmpty) := by
  cases asks
  case forceInclude file =>
    by_cases empty : file.isEmpty <;> simp [Draft.obey, Draft.forceInclude, Part.text?, empty]
  all_goals exact (Bool.and_true _).symm

theorem Part.Asks.includeMode_obey (asks : part.Asks switch) (draft : Draft) :
    (if (draft.obey switch).policy.followsExtension then none
      else some (draft.obey switch).settings.includeMode) =
    part.mode?.or (if draft.policy.followsExtension then none
      else some draft.settings.includeMode) := by
  cases asks <;> rfl

theorem Part.Asks.preprocessOnly_obey (asks : part.Asks switch) (draft : Draft) :
    (draft.obey switch).settings.preprocessOnly =
      (draft.settings.preprocessOnly || ! (part.text? 'E').toList.isEmpty) := by
  cases asks
  case preprocessOnly => exact (Bool.or_true _).symm
  all_goals exact (Bool.or_false _).symm

theorem Part.Asks.notices_obey (asks : part.Asks switch) (draft : Draft) :
    (draft.obey switch).settings.notices =
      ⟨draft.settings.notices.notes && (part.text? 'n').toList.isEmpty,
        draft.settings.notices.warnings && ! (part.text? 'n').toList.contains "w"⟩ := by
  cases asks
  case suppressNotes | suppressWarnings =>
    simp [Draft.obey, Draft.change, Part.text?, Notice.Filter.suppressNotes,
      Notice.Filter.suppressWarnings]
  all_goals simp [Draft.obey, Draft.change, Draft.forceInclude, Draft.suppressInclude, Part.text?]

/-- A draft that follows some parts follows one part more when the switch of that part has
been obeyed. -/
theorem Draft.Follows.obey {seen : List Part} {draft : Draft} (follows : draft.Follows seen)
    (asks : part.Asks switch) (single : part.bare? = none ∨ draft.settings.input? = none) :
    (draft.obey switch).Follows (seen ++ [part]) where
  input := by
    rw [asks.input?_obey, filterMap_append_singleton, follows.input]
    rcases single with none | none <;> rw [none] <;> simp
  output := by
    rw [asks.output?_obey, texts_append_singleton, getLast?_append_toList, follows.output]
  includePrefix := by
    rw [asks.includePrefix?_obey, texts_append_singleton, getLast?_append_toList,
      follows.includePrefix]
  searchPath := by
    rw [asks.searchPath_obey, filterMap_append_singleton, follows.searchPath]
  macros name := by
    rw [asks.find?_macros_obey, declaredMacro?_append_singleton, follows.macros]
  includeFiles := by
    rw [asks.includeFiles_obey, texts_append_singleton, forcedFiles_append_singleton,
      follows.includeFiles, List.reverse_append]
    cases part.text? 'b' <;> simp
  includesInput := by
    rw [asks.includesInput_obey, forcedFiles_append_singleton, follows.includesInput,
      isEmpty_append]
  includeMode := by
    rw [asks.includeMode_obey, filterMap_append_singleton, getLast?_append_toList,
      follows.includeMode]
  preprocessOnly := by
    rw [asks.preprocessOnly_obey, texts_append_singleton, follows.preprocessOnly,
      isEmpty_append, Bool.not_and]
  notices := by
    rw [asks.notices_obey, texts_append_singleton, follows.notices, isEmpty_append,
      List.contains_append, Bool.not_or]

end Obeying

/-! ## Whole command lines -/

/-- A step of a resolution that comes to a run. -/
theorem resolveSwitches_cons_of_run {workingDirectory : String} {draft : Draft} {switch : Switch}
    {rest : List Switch} {settings : Settings}
    (ran : resolveSwitches workingDirectory draft (switch :: rest) = .ok (.run settings)) :
    ¬ switch.Stops ∧ (∀ path, switch = .input path -> draft.settings.input? = none) ∧
      resolveSwitches workingDirectory (draft.obey switch) rest = .ok (.run settings) := by
  cases switch
  case showVersion | showHelp | invalid => cases ran
  case input path =>
    rw [resolveSwitches] at ran
    split at ran
    · cases ran
    · rename_i single
      exact ⟨id, fun _ _ => Option.not_isSome_iff_eq_none.mp single, ran⟩
  all_goals exact ⟨id, fun _ equal => Switch.noConfusion equal, ran⟩

theorem not_stops_of_resolveSwitches {workingDirectory : String} {draft : Draft}
    {switches : List Switch} {settings : Settings}
    (ran : resolveSwitches workingDirectory draft switches = .ok (.run settings)) :
    ∀ switch ∈ switches, ¬ switch.Stops := by
  induction switches generalizing draft with
  | nil => exact fun _ absent => absurd absent List.not_mem_nil
  | cons first rest ih =>
      rcases resolveSwitches_cons_of_run ran with ⟨goesOn, _, ranOn⟩
      exact List.forall_mem_cons.mpr ⟨goesOn, ih ranOn⟩

theorem Draft.Follows.declares_finish {parts : List Part} {draft : Draft}
    (follows : draft.Follows parts) (workingDirectory : String) :
    Declares workingDirectory parts (draft.finish workingDirectory) where
  input := follows.input
  output := follows.output
  includePrefix := follows.includePrefix
  searchPath := follows.searchPath
  macros := follows.macros
  includeFiles := by
    change draft.policy.files workingDirectory draft.settings = _
    rw [IncludePolicy.files, follows.includesInput, follows.includeFiles]
    simp only [List.isEmpty_iff]
    split
    · rfl
    · exact (List.append_nil _).symm
  includeMode := by
    change draft.policy.mode draft.settings = _
    rw [IncludePolicy.mode, follows.includeMode]
    cases draft.policy.followsExtension <;> rfl
  preprocessOnly := follows.preprocessOnly
  notices := follows.notices

theorem Draft.Follows.declares_of_resolveSwitches {workingDirectory : String}
    {seen parts : List Part} {switches : List Switch} {draft : Draft} {settings : Settings}
    (follows : draft.Follows seen) (asks : List.Forall₂ Part.Asks parts switches)
    (ran : resolveSwitches workingDirectory draft switches = .ok (.run settings)) :
    Declares workingDirectory (seen ++ parts) settings := by
  induction asks generalizing seen draft with
  | nil =>
      cases ran
      rw [List.append_nil]
      exact follows.declares_finish workingDirectory
  | @cons part switch parts switches asks _ ih =>
      rcases resolveSwitches_cons_of_run ran with ⟨_, single, ranOn⟩
      have follows' : (draft.obey switch).Follows (seen ++ [part]) := by
        refine follows.obey asks ?_
        cases asks
        case input => exact .inr (single _ rfl)
        all_goals exact .inl rfl
      rw [List.append_cons]
      exact ih follows' ranOn

/-- Arguments that name no option file stand for themselves. -/
theorem expandOptionFiles_eq_ok {view : View} {arguments : List String}
    (plain : ∀ argument ∈ arguments, argument.toList.head? ≠ some '@') :
    expandOptionFiles view arguments = .ok arguments := by
  induction arguments with
  | nil => rfl
  | cons argument rest ih =>
      rcases List.forall_mem_cons.mp plain with ⟨first, others⟩
      have itself : expandArgument view argument = .ok [argument] := by
        unfold expandArgument optionFile?
        split
        · rename_i named
          split at named
          · rename_i written
            exact absurd (by rw [written]; rfl) first
          · cases named
        · rfl
      rw [expandOptionFiles, itself, ih others]
      rfl

/-- Without option files, the settings of a run are the ones that the parts of its command
line declare. -/
theorem declares_of_resolve (workingDirectory : String) (view : View) (arguments : List String)
    (settings : Settings) (plain : ∀ argument ∈ arguments, argument.toList.head? ≠ some '@')
    (ran : resolve workingDirectory view arguments = .ok (.run settings)) :
    Declares workingDirectory (parts false arguments) settings := by
  rw [resolve, expandOptionFiles_eq_ok plain] at ran
  change resolveSwitches workingDirectory {} (switches false arguments) = _ at ran
  have asks := forall₂_asks_switches (not_stops_of_resolveSwitches ran)
  exact Draft.follows_nil.declares_of_resolveSwitches asks ran

/-- A command line with values of every kind: attached, taken from the next argument, empty,
and passed over. -/
def mixedArguments : List String :=
  ["-o", "out.cpp", "-b", "pre.h", "-fx.h", "-DA=1", "-UA", "-D__cplusplus", "-F", "-I", "-i",
    "-p", "", "--ignore-option-clashes", "-pthread", "-fPIC", "", "a.h"]

def mixedSettings : Settings :=
  { input? := some "a.h"
    output? := some "out.cpp"
    includeMode := .suppressed
    includeFiles := ["pre.h", "x.h"]
    includePrefix? := some ""
    macros := (Macro.Table.builtins.erase "A").define "__cplusplus" (.ofValue "1")
    searchPath := [⟨"-I", true⟩] }

theorem declares_of_resolve_mixedArguments :
    (∀ argument ∈ mixedArguments, argument.toList.head? ≠ some '@') ∧
      resolve "/work" (fun _ => none) mixedArguments = .ok (.run mixedSettings) ∧
      Declares "/work" (parts false mixedArguments) mixedSettings := by
  have plain : ∀ argument ∈ mixedArguments, argument.toList.head? ≠ some '@' := by
    decide +kernel
  have ran : resolve "/work" (fun _ => none) mixedArguments = .ok (.run mixedSettings) := by
    decide +kernel
  exact ⟨plain, ran, declares_of_resolve "/work" (fun _ => none) mixedArguments mixedSettings
    plain ran⟩

end CommandLine
end ObjectWrapper
