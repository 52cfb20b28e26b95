import ObjectWrapper.Proofs.CommandLine.Parts

namespace ObjectWrapper
namespace CommandLine

open Files

/-!
# Options that are passed over

An argument is read as an option only where it is not the value of the option before it.
Where that is so can be told from the arguments in front of a place alone, since no option
takes more than the next argument.  A command line can be cut at such a place: its switches
are those of the arguments in front of the cut, followed by those of the arguments behind it.

Once clashing options are ignored, a clashing argument at such a place is no switch, and it
takes no argument with it.  What the command line asks for is therefore the same without it,
whatever that is, and be it an error.  At the place of a value the argument is a value, and
before clashing options are ignored it is an option, so both conditions are needed.
-/

/-! ## Places for options -/

/-- What the arguments in front of a place decide about it. -/
structure Place where
  /-- Clashing options are ignored. -/
  ignoresClashes : Bool
  /-- An argument here is the value of the option in front of it. -/
  isForValue : Bool
deriving DecidableEq, Repr

/-- Whether an argument, read as an option, has its value in the next one: it is the letter of
an option with a value, and nothing else. -/
def awaitsValue (ignoresClashes : Bool) (argument : String) : Bool :=
  match argument.toList with
  | ['-', letter] => takesValue letter && ! (ignoresClashes && clashes letter)
  | _ => false

/-- The place behind an argument. -/
def Place.behind (place : Place) (argument : String) : Place :=
  if place.isForValue then ⟨place.ignoresClashes, false⟩
  else
    ⟨place.ignoresClashes || argument == "--ignore-option-clashes",
      awaitsValue place.ignoresClashes argument⟩

/-- The place behind the arguments with which a command line begins. -/
def placeBehind (arguments : List String) : Place :=
  arguments.foldl Place.behind ⟨false, false⟩

theorem placeBehind_append (first second : List String) :
    placeBehind (first ++ second) = second.foldl Place.behind (placeBehind first) :=
  List.foldl_append

/-- Clashing options stay ignored. -/
theorem ignoresClashes_foldl_behind {place : Place} (ignored : place.ignoresClashes = true)
    (arguments : List String) :
    (arguments.foldl Place.behind place).ignoresClashes = true := by
  induction arguments generalizing place with
  | nil => exact ignored
  | cons argument rest ih =>
      apply ih
      unfold Place.behind
      split
      · exact ignored
      · simp [ignored]

/-! ## Arguments in front of others -/

/-- An option that awaits its value is read together with the next argument, and wrong without
one. -/
theorem exists_readArgument_of_awaitsValue {ignoresClashes : Bool} {argument : String}
    (awaits : awaitsValue ignoresClashes argument = true) :
    argument ≠ "--ignore-option-clashes" ∧ ∃ switch : Option String -> Switch,
      (switch none).Stops ∧ ∀ next?, readArgument ignoresClashes argument next? =
        ⟨some (switch next?), next?.isSome, ignoresClashes⟩ := by
  unfold awaitsValue at awaits
  split at awaits
  · rename_i letter written
    rw [Bool.and_eq_true, takesValue_eq_isSome_valueSwitch?, Option.isSome_iff_exists,
      Bool.not_eq_true'] at awaits
    rcases awaits with ⟨⟨switch, found⟩, kept⟩
    have other : argument ≠ "--ignore-option-clashes" := by
      intro same
      exact absurd ((eq_ignoreClashes_iff written).mp same).2 (by decide)
    refine ⟨other, switch, stops_of_valueSwitch?_none found, fun next? => ?_⟩
    rw [readArgument_option written other (ne_true_of_eq_false kept)]
    simp only [found]
    rfl
  · cases awaits

/-- Any other argument is read without the next one. -/
theorem exists_readArgument_of_not_awaitsValue {ignoresClashes : Bool} {argument : String}
    (alone : awaitsValue ignoresClashes argument = false) :
    ∃ switch?, ∀ next?, readArgument ignoresClashes argument next? =
      ⟨switch?, false, ignoresClashes || argument == "--ignore-option-clashes"⟩ := by
  by_cases ignore : argument = "--ignore-option-clashes"
  · refine ⟨none, fun next? => ?_⟩
    rw [ignore, beq_self_eq_true, Bool.or_true]
    rfl
  rw [beq_eq_false_iff_ne.mpr ignore, Bool.or_false]
  refine ⟨(readArgument ignoresClashes argument none).switch?, fun next? => ?_⟩
  unfold readArgument
  split
  · rfl
  · rfl
  · rename_i letter suffix written
    simp only [readOption, if_neg (mt (eq_ignoreClashes_iff written).mpr ignore)]
    split
    · rfl
    · rename_i kept
      cases found : valueSwitch? letter with
      | none => rfl
      | some switch =>
          have attached : (String.ofList suffix).isEmpty = false := by
            cases suffix with
            | nil => simp_all [awaitsValue, takesValue_eq_isSome_valueSwitch?]
            | cons first rest => simp
          simp only [optionValue, attached, Bool.false_eq_true, if_false]
  · rfl

/-! ## Command lines cut in two -/

/-- The switches of a command line are those of the arguments in front of a place for an option,
followed by those of the arguments behind it. -/
theorem switches_append {first : List String} {ignoresClashes ignoresLater : Bool}
    (ends : first.foldl Place.behind ⟨ignoresClashes, false⟩ = ⟨ignoresLater, false⟩)
    (second : List String) :
    switches ignoresClashes (first ++ second) =
      switches ignoresClashes first ++ switches ignoresLater second := by
  match first with
  | [] =>
      cases ends
      rw [switches]
      rfl
  | argument :: rest =>
      rw [List.foldl_cons] at ends
      rw [List.cons_append, switches_cons, switches_cons]
      cases awaits : awaitsValue ignoresClashes argument with
      | false =>
          rcases exists_readArgument_of_not_awaitsValue awaits with ⟨switch?, read⟩
          rw [Place.behind, if_neg Bool.false_ne_true, awaits] at ends
          rw [read, read]
          simp only [Bool.false_eq_true, if_false, List.drop_zero]
          rw [switches_append ends second, List.append_assoc]
      | true =>
          rcases exists_readArgument_of_awaitsValue awaits with ⟨other, switch, _, read⟩
          rw [Place.behind, if_neg Bool.false_ne_true, awaits, beq_eq_false_iff_ne.mpr other,
            Bool.or_false] at ends
          -- the arguments in front of the cut hold the value as well
          cases rest with
          | nil => cases ends
          | cons value more =>
              rw [List.foldl_cons, Place.behind, if_pos rfl] at ends
              rw [read, read]
              simp only [List.cons_append, List.head?_cons, Option.isSome_some, if_true,
                List.drop_succ_cons, List.drop_zero]
              rw [switches_append ends second, List.append_assoc]
termination_by first.length

/-- At the place of an option, an ignored argument is no switch. -/
theorem switches_cons_of_clashes {letter : Char} {clashing : String}
    (begins : ['-', letter] <+: clashing.toList) (clash : clashes letter = true)
    (rest : List String) : switches true (clashing :: rest) = switches true rest := by
  rcases begins with ⟨suffix, written⟩
  have other : ¬ (letter = '-' ∧ String.ofList suffix = "ignore-option-clashes") := by
    rintro ⟨rfl, _⟩
    cases clash
  have read : readArgument true clashing rest.head? = ⟨none, false, true⟩ := by
    simp only [readArgument, ← written, List.cons_append, List.nil_append, readOption]
    rw [if_neg other, Bool.true_and, if_pos clash]
  rw [switches_cons, read]
  rfl

/-! ## Command lines with one argument more -/

/-- The place behind arguments among which clashing options have been ignored from some place
for an option on. -/
theorem ignoresClashes_placeBehind {first : List String}
    (option : (placeBehind first).isForValue = false) (middle : List String) :
    (placeBehind (first ++ "--ignore-option-clashes" :: middle)).ignoresClashes = true := by
  rw [placeBehind_append, List.foldl_cons]
  apply ignoresClashes_foldl_behind
  rw [Place.behind, option, if_neg Bool.false_ne_true, beq_self_eq_true, Bool.or_true]

/-- Where clashing options are ignored, a clashing argument at a place for an option changes
nothing: the command line asks for what it asks for without it, or is wrong as it is without
it. -/
theorem resolve_insert_clashing (workingDirectory : String) (view : View)
    {first middle last : List String} {letter : Char} {clashing : String}
    (plain : ∀ argument ∈ first ++ "--ignore-option-clashes" :: middle ++ last,
      argument.toList.head? ≠ some '@')
    (ignored : (placeBehind first).isForValue = false)
    (option : (placeBehind (first ++ "--ignore-option-clashes" :: middle)).isForValue = false)
    (clash : letter ∈ ['f', 'b', 'p', 'n']) (begins : ['-', letter] <+: clashing.toList) :
    resolve workingDirectory view
        (first ++ "--ignore-option-clashes" :: middle ++ clashing :: last) =
      resolve workingDirectory view (first ++ "--ignore-option-clashes" :: middle ++ last) := by
  have clashesLetter : clashes letter = true := by
    simpa [clashes, or_assoc] using clash
  have noOptionFile : clashing.toList.head? ≠ some '@' := by
    rcases begins with ⟨suffix, written⟩
    simp [← written]
  have stillPlain : ∀ argument ∈ first ++ "--ignore-option-clashes" :: middle ++ clashing :: last,
      argument.toList.head? ≠ some '@' := by
    simp only [List.forall_mem_append, List.forall_mem_cons] at plain ⊢
    exact ⟨plain.1, noOptionFile, plain.2⟩
  have behind : placeBehind (first ++ "--ignore-option-clashes" :: middle) = ⟨true, false⟩ := by
    rw [← ignoresClashes_placeBehind ignored middle, ← option]
  have same : switches false (first ++ "--ignore-option-clashes" :: middle ++ clashing :: last) =
      switches false (first ++ "--ignore-option-clashes" :: middle ++ last) := by
    rw [switches_append behind, switches_append behind,
      switches_cons_of_clashes begins clashesLetter]
  rw [resolve, resolve, expandOptionFiles_eq_ok stillPlain, expandOptionFiles_eq_ok plain]
  exact congrArg (resolveSwitches workingDirectory {}) same

/-- Options around a clashing one that take the arguments next to it for their values. -/
def clashesIgnored : List String :=
  ["-b", "-D", "-U", "--ignore-option-clashes"]

theorem resolve_insert_clashing_nologo :
    (∀ argument ∈ clashesIgnored ++ "--ignore-option-clashes" :: ["-o", "-nologo"] ++
        ["-I", "-fast", "a.h"], argument.toList.head? ≠ some '@') ∧
      (placeBehind clashesIgnored).isForValue = false ∧
      (placeBehind (clashesIgnored ++ "--ignore-option-clashes" :: ["-o", "-nologo"])).isForValue =
        false ∧
      'n' ∈ ['f', 'b', 'p', 'n'] ∧ ['-', 'n'] <+: "-nologo".toList ∧
      resolve "/work" (fun _ => none) (clashesIgnored ++
          "--ignore-option-clashes" :: ["-o", "-nologo"] ++ "-nologo" :: ["-I", "-fast", "a.h"]) =
        resolve "/work" (fun _ => none) (clashesIgnored ++
          "--ignore-option-clashes" :: ["-o", "-nologo"] ++ ["-I", "-fast", "a.h"]) := by
  have plain : ∀ argument ∈ clashesIgnored ++ "--ignore-option-clashes" :: ["-o", "-nologo"] ++
      ["-I", "-fast", "a.h"], argument.toList.head? ≠ some '@' := by decide +kernel
  have ignored : (placeBehind clashesIgnored).isForValue = false := by decide +kernel
  have option : (placeBehind (clashesIgnored ++
      "--ignore-option-clashes" :: ["-o", "-nologo"])).isForValue = false := by decide +kernel
  have begins : ['-', 'n'] <+: "-nologo".toList := by decide +kernel
  exact ⟨plain, ignored, option, by decide, begins,
    resolve_insert_clashing "/work" (fun _ => none) plain ignored option (by decide) begins⟩

end CommandLine
end ObjectWrapper
