import Mathlib.Data.List.TakeDrop
import ObjectWrapper.Proofs.CommandLine.Clashes
import ObjectWrapper.Proofs.CommandLine.OptionFiles
import ObjectWrapper.Proofs.Text.HeaderText

namespace ObjectWrapper
namespace CommandLine

open Files

/-!
# Macro options at the end of a command line

A command line that leads to a run goes on leading to one when an option with its value
attached is added at its end.  Its last argument was no option that still awaits a value, since
that would be wrong.  So the added option is read as one, and changes the settings as it would
change any.
-/

/-! ## One option more -/

/-- An option without its value at the end of a command line is wrong. -/
theorem exists_stops_of_isForValue {arguments : List String} {ignoresClashes ignoresLater : Bool}
    (awaits : arguments.foldl Place.behind ⟨ignoresClashes, false⟩ = ⟨ignoresLater, true⟩) :
    ∃ switch ∈ switches ignoresClashes arguments, switch.Stops := by
  match arguments with
  | [] => cases awaits
  | argument :: rest =>
      rw [List.foldl_cons, Place.behind, if_neg Bool.false_ne_true] at awaits
      rw [switches_cons]
      cases own : awaitsValue ignoresClashes argument with
      | false =>
          rcases exists_readArgument_of_not_awaitsValue own with ⟨switch?, read⟩
          rw [own] at awaits
          rw [read]
          rcases exists_stops_of_isForValue awaits with ⟨switch, member, stops⟩
          exact ⟨switch, List.mem_append_right _ member, stops⟩
      | true =>
          rcases exists_readArgument_of_awaitsValue own with ⟨other, switch, stops, read⟩
          rw [own, beq_eq_false_iff_ne.mpr other, Bool.or_false] at awaits
          rw [read]
          cases rest with
          | nil => exact ⟨_, List.mem_append_left _ (List.mem_singleton_self _), stops⟩
          | cons value more =>
              rw [List.foldl_cons, Place.behind, if_pos rfl] at awaits
              rcases exists_stops_of_isForValue awaits with ⟨later, member, laterStops⟩
              exact ⟨later, List.mem_append_right _ member, laterStops⟩
termination_by arguments.length

theorem resolveSwitches_cons {workingDirectory : String} {draft : Draft} {switch : Switch}
    (goesOn : ¬ switch.Stops)
    (single : ∀ path, switch = .input path -> draft.settings.input? = none) (rest : List Switch) :
    resolveSwitches workingDirectory draft (switch :: rest) =
      resolveSwitches workingDirectory (draft.obey switch) rest := by
  cases switch
  case showVersion | showHelp | invalid => exact absurd trivial goesOn
  case input path =>
    rw [resolveSwitches, single path rfl]
    rfl
  all_goals rfl

/-- A switch at the end changes the settings that there are without it. -/
theorem resolveSwitches_append_singleton {workingDirectory : String} {draft : Draft}
    {switches : List Switch} {settings : Settings} {last : Switch} {change : Settings -> Settings}
    (ran : resolveSwitches workingDirectory draft switches = .ok (.run settings))
    (goesOn : ¬ last.Stops) (noInput : ∀ path, last ≠ .input path)
    (changes : ∀ draft : Draft,
      (draft.obey last).finish workingDirectory = change (draft.finish workingDirectory)) :
    resolveSwitches workingDirectory draft (switches ++ [last]) = .ok (.run (change settings)) := by
  induction switches generalizing draft with
  | nil =>
      cases ran
      rw [List.nil_append, resolveSwitches_cons goesOn fun path same => absurd same (noInput path),
        ← changes]
      rfl
  | cons switch rest ih =>
      rcases resolveSwitches_cons_of_run ran with ⟨firstGoesOn, single, ranOn⟩
      rw [List.cons_append, resolveSwitches_cons firstGoesOn single]
      exact ih ranOn

/-- An option at the end, with its value attached, changes the settings that there are without
it. -/
theorem resolve_append_singleton {workingDirectory : String} {view : View}
    {arguments : List String} {settings : Settings} {option : String} {last : Switch}
    (change : Settings -> Settings)
    (ran : resolve workingDirectory view arguments = .ok (.run settings))
    (noOptionFile : option.toList.head? ≠ some '@')
    (read : ∀ ignoresClashes, readArgument ignoresClashes option none =
      ⟨some last, false, ignoresClashes⟩)
    (goesOn : ¬ last.Stops) (noInput : ∀ path, last ≠ .input path)
    (changes : ∀ draft : Draft,
      (draft.obey last).finish workingDirectory = change (draft.finish workingDirectory)) :
    resolve workingDirectory view (arguments ++ [option]) = .ok (.run (change settings)) := by
  rcases exists_of_bind_eq_ok ran with ⟨expanded, expands, ranOn⟩
  have alone : expandOptionFiles view [option] = .ok [option] :=
    expandOptionFiles_eq_ok (List.forall_mem_singleton.mpr noOptionFile)
  have behind : placeBehind expanded = ⟨(placeBehind expanded).ignoresClashes, false⟩ := by
    cases awaits : (placeBehind expanded).isForValue with
    | false => rw [← awaits]
    | true =>
        have ends : placeBehind expanded = ⟨(placeBehind expanded).ignoresClashes, true⟩ := by
          rw [← awaits]
        rcases exists_stops_of_isForValue ends with ⟨switch, member, stops⟩
        exact absurd stops (not_stops_of_resolveSwitches ranOn switch member)
  have single : ∀ ignoresClashes, switches ignoresClashes [option] = [last] := by
    intro ignoresClashes
    rw [switches_cons, List.head?_nil, read]
    simp [switches]
  rw [resolve, expandOptionFiles_append, expands, alone]
  change resolveSwitches workingDirectory {} (switches false (expanded ++ [option])) = _
  rw [switches_append behind, single]
  exact resolveSwitches_append_singleton ranOn goesOn noInput changes

theorem resolve_nil (workingDirectory : String) (view : View) :
    resolve workingDirectory view [] = .ok (.run (({} : Draft).finish workingDirectory)) := by
  have alone : expandOptionFiles view [] = .ok [] := rfl
  rw [resolve, alone]
  change resolveSwitches workingDirectory {} (switches false []) = _
  rw [switches]
  rfl

/-! ## Defining and undefining names -/

/-- Settings with another table of macros. -/
def withMacros (settings : Settings) (change : Macro.Table -> Macro.Table) : Settings :=
  { settings with macros := change settings.macros }

section

variable {name : String}

/-- An option with its value attached that is never passed over. -/
theorem readArgument_attached {option : String} {letter : Char} {value : String}
    {switch : Option String -> Switch} (written : option.toList = '-' :: letter :: value.toList)
    (isOption : letter ≠ '-') (kept : clashes letter = false)
    (takesValue : valueSwitch? letter = some switch) (nonempty : value ≠ "")
    (ignoresClashes : Bool) (next? : Option String) :
    readArgument ignoresClashes option next? =
      ⟨some (switch (some value)), false, ignoresClashes⟩ := by
  have other : option ≠ "--ignore-option-clashes" :=
    fun same => isOption ((eq_ignoreClashes_iff written).mp same).1
  have filled : value.isEmpty = false := by simpa using nonempty
  rw [readArgument_option written other (by simp [kept]), String.ofList_toList, takesValue]
  simp only [optionValue, filled, Bool.false_eq_true, if_false]

theorem definitionParts_of_notMem (plain : '=' ∉ name.toList) :
    definitionParts name = (name, "1") := by
  have whole : ∀ character ∈ name.toList, (character != '=') = true :=
    fun character member => bne_iff_ne.mpr fun same => plain (same ▸ member)
  rw [definitionParts, List.span_eq_takeWhile_dropWhile, List.takeWhile_eq_self_iff.mpr whole,
    List.dropWhile_eq_nil_iff.mpr whole]

theorem readArgument_define (nonempty : name ≠ "") (plain : '=' ∉ name.toList)
    (ignoresClashes : Bool) (next? : Option String) :
    readArgument ignoresClashes ("-D" ++ name) next? =
      ⟨some (.define name "1"), false, ignoresClashes⟩ := by
  have written : ("-D" ++ name).toList = '-' :: 'D' :: name.toList := String.toList_append
  have filled : name.isEmpty = false := by simpa using nonempty
  rw [readArgument_attached written (by decide) rfl rfl nonempty, Option.getD_some, defineSwitch,
    definitionParts_of_notMem plain, filled]
  rfl

theorem readArgument_undefine (nonempty : name ≠ "") (ignoresClashes : Bool)
    (next? : Option String) :
    readArgument ignoresClashes ("-U" ++ name) next? =
      ⟨some (.undefine name), false, ignoresClashes⟩ := by
  have written : ("-U" ++ name).toList = '-' :: 'U' :: name.toList := String.toList_append
  have filled : name.isEmpty = false := by simpa using nonempty
  rw [readArgument_attached written (by decide) rfl rfl nonempty, Option.getD_some, undefineSwitch,
    filled]
  rfl

variable {workingDirectory : String} {view : View} {arguments : List String} {settings : Settings}
  (ran : resolve workingDirectory view arguments = .ok (.run settings))
include ran

/-- A name without a value stands for one, and is defined in the form of header text. -/
theorem resolve_append_define (nonempty : name ≠ "") (plain : '=' ∉ name.toList) :
    resolve workingDirectory view (arguments ++ ["-D" ++ name]) =
      .ok (.run (withMacros settings (·.define (ByteText.ofUnicode name) (.ofValue "1")))) := by
  have one : ByteText.ofUnicode "1" = "1" := ByteText.ofUnicode_of_ascii (by decide)
  refine resolve_append_singleton (withMacros · _) ran ?_
    (readArgument_define nonempty plain · none) id (fun _ same => Switch.noConfusion same)
    fun draft => ?_
  · rw [String.toList_append]
    exact fun begins => nomatch begins
  · rw [← one]
    rfl

theorem resolve_append_undefine (nonempty : name ≠ "") :
    resolve workingDirectory view (arguments ++ ["-U" ++ name]) =
      .ok (.run (withMacros settings (·.erase (ByteText.ofUnicode name)))) := by
  refine resolve_append_singleton (withMacros · _) ran ?_ (readArgument_undefine nonempty · none) id
    (fun _ same => Switch.noConfusion same) fun _ => rfl
  rw [String.toList_append]
  exact fun begins => nomatch begins

end

end CommandLine
end ObjectWrapper
