import ObjectWrapper.Proofs.CommandLine.MacroOptions
import ObjectWrapper.Proofs.Preprocess.GuardedText

namespace ObjectWrapper
namespace Run

open CommandLine Files Preprocess

/-!
# Names on the command line and in headers

A name comes to the table of macros from the command line, which is Unicode, and is looked up
there by a directive of a header, which is read byte by byte.  Both ways bring it into the form
of header text, in which different names stay different.  So a header finds the names that the
command line defines, and no others.
-/

/-- The built-in names are ASCII, and so they are the same in the form of header text. -/
theorem find?_builtins_ofUnicode (name : String) :
    Macro.Table.builtins.find? (ByteText.ofUnicode name) = Macro.Table.builtins.find? name := by
  have keeps : ∀ builtin : String, builtin.toList.all (·.toNat < 128) = true ->
      (ByteText.ofUnicode name = builtin ↔ name = builtin) := by
    intro builtin ascii
    have same := @Function.Injective.eq_iff _ _ _ ByteText.ofUnicode_injective name builtin
    rwa [ByteText.ofUnicode_of_ascii ascii] at same
  simp only [Macro.Table.builtins, Macro.Table.find?_define, Macro.Table.find?_empty,
    keeps "__attribute__" (by decide), keeps "__cplusplus" (by decide),
    keeps "Q_MOC_RUN" (by decide)]

/-- The text that depends on a new name is there if it is this name that is defined. -/
theorem preprocess_guarded_define {defined asked text : String} {macros : Macro.Table}
    (fresh : macros.find? (ByteText.ofUnicode asked) = none) (isAsked : IsMacroName asked)
    (isLine : IsTextLine text) (definition : Macro.Definition) (setup : Setup) (file : String)
    (isEnded : Bool) :
    let table := macros.define (ByteText.ofUnicode defined) definition
    preprocess setup file (Unicode.encode (guarded asked text isEnded)) (.initial table) =
      .ok ((if defined = asked then Macro.expand table (between text) else []) ++
        closing isEnded) (.initial table) := by
  intro table
  have found : (State.initial table).macros.contains (ByteText.ofUnicode asked) =
      decide (defined = asked) := by
    change ((macros.define (ByteText.ofUnicode defined) definition).find? _).isSome = _
    rw [Macro.Table.find?_define, fresh]
    by_cases same : defined = asked
    · simp [same]
    · simp [same, Ne.symm same, ByteText.ofUnicode_injective.eq_iff]
  rw [preprocess_guarded setup file (.initial table) isAsked isLine, found]
  simp only [decide_eq_true_eq]
  rfl

/-- With one name defined on the command line, the text that a header makes depend on a name
is there if and only if the names are the same.  It is there as it is written if it names no
macro itself.  Taking a name back leaves exactly that name undefined, and when an option has
just defined it, everything else is as before that option. -/
theorem preprocess_resolve_define {defined asked text : String}
    (isDefined : IsMacroName defined) (isAsked : IsMacroName asked)
    (notBuiltin : Macro.Table.builtins.contains asked = false) (isLine : IsTextLine text)
    (workingDirectory : String) (view : View) (file : String) (isEnded : Bool) :
    (∃ settings, resolve workingDirectory view ["-D" ++ defined] = .ok (.run settings) ∧
      preprocess ⟨view, settings.searchPath⟩ file (Unicode.encode (guarded asked text isEnded))
          (.initial settings.macros) =
        .ok ((if defined = asked then Macro.expand settings.macros (between text) else []) ++
          closing isEnded) (.initial settings.macros) ∧
      ((∀ token ∈ between text, token.isIdentifier = true ->
          settings.macros.find? token.lexeme = none) ->
        Macro.expand settings.macros (between text) = between text)) ∧
    ∀ arguments settings, resolve workingDirectory view arguments = .ok (.run settings) ->
      ∃ undefined restored,
        resolve workingDirectory view (arguments ++ ["-U" ++ asked]) =
          .ok (.run { settings with macros := undefined }) ∧
        resolve workingDirectory view (arguments ++ ["-D" ++ asked, "-U" ++ asked]) =
          .ok (.run { settings with macros := restored }) ∧
        ∀ name, restored.find? name = undefined.find? name ∧ undefined.find? name =
          if name = ByteText.ofUnicode asked then none else settings.macros.find? name := by
  constructor
  · have fresh : Macro.Table.builtins.find? (ByteText.ofUnicode asked) = none := by
      rw [find?_builtins_ofUnicode]
      exact Option.isSome_eq_false_iff.mp notBuiltin |> Option.isNone_iff_eq_none.mp
    have ran := resolve_append_define (resolve_nil workingDirectory view) isDefined.nonempty
      isDefined.equals_notMem
    exact ⟨_, ran, preprocess_guarded_define fresh isAsked isLine _ _ file isEnded,
      Macro.expand_eq_self⟩
  · intro arguments settings ran
    have defines := resolve_append_define ran isAsked.nonempty isAsked.equals_notMem
    have takesBack := resolve_append_undefine defines isAsked.nonempty
    rw [List.append_assoc] at takesBack
    refine ⟨_, _, resolve_append_undefine ran isAsked.nonempty, takesBack, fun name => ?_⟩
    simp only [withMacros, Macro.Table.find?_erase, Macro.Table.find?_define]
    by_cases same : name = ByteText.ofUnicode asked <;> simp [same]

/-- A name with bytes that are a line end and a space in Latin-1. -/
def accented : String :=
  "T\u0105\u00e0"

theorem preprocess_resolve_define_accented :
    IsMacroName accented ∧ Macro.Table.builtins.contains accented = false ∧
      IsTextLine "class T;" ∧
      ∃ settings, resolve "/w" (fun _ => none) ["-D" ++ accented] = .ok (.run settings) ∧
        preprocess ⟨fun _ => none, settings.searchPath⟩ "a.h"
            (Unicode.encode (guarded accented "class T;" true)) (.initial settings.macros) =
          .ok (Macro.expand settings.macros (between "class T;") ++ closing true)
            (.initial settings.macros) ∧
        ∃ undefined, resolve "/w" (fun _ => none) ["-D" ++ accented, "-U" ++ accented] =
            .ok (.run { settings with macros := undefined }) ∧
          undefined.find? (ByteText.ofUnicode accented) = none := by
  have isName : IsMacroName accented := by decide +kernel
  have fresh : Macro.Table.builtins.contains accented = false := by decide +kernel
  have isLine : IsTextLine "class T;" :=
    ⟨by decide, by decide +kernel, by decide +kernel, by decide +kernel⟩
  rcases preprocess_resolve_define isName isName fresh isLine "/w" (fun _ => none) "a.h" true with
    ⟨⟨settings, ran, came, _⟩, takenBack⟩
  rcases takenBack _ settings ran with ⟨undefined, _, takesBack, _, answers⟩
  refine ⟨isName, fresh, isLine, settings, ran, came, undefined, takesBack, ?_⟩
  rw [(answers _).2, if_pos rfl]

end Run
end ObjectWrapper
