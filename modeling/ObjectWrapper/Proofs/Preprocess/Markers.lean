import ObjectWrapper.CommandLine.Resolution
import ObjectWrapper.Preprocess.Run
import ObjectWrapper.Proofs.Directive.Piece
import ObjectWrapper.Proofs.Except
import ObjectWrapper.Proofs.Macro.Origin
import ObjectWrapper.Proofs.Source.Lines

namespace ObjectWrapper

open Source

/-!
# Tokens without markers

The markers of included files do not come from any text: no token of a source is
one, and so none gets into a macro, be it defined in a source or on the command
line, nor out of the expansion of one.  A table that was never given a marker never
holds any.
-/

/-- No token is a marker. -/
def Source.Unmarked (tokens : List Token) : Prop :=
  ∀ token ∈ tokens, token.kind.isMarker = false

instance : DecidablePred Source.Unmarked :=
  fun tokens => inferInstanceAs (Decidable (∀ token ∈ tokens, token.kind.isMarker = false))

theorem Source.Unmarked.of_subset {first second : List Token} (unmarked : Unmarked second)
    (subset : first ⊆ second) : Unmarked first :=
  fun token member => unmarked token (subset member)

namespace Macro

/-- No replacement has a marker among its tokens. -/
def Table.HoldsNoMarker (table : Table) : Prop :=
  ∀ name definition, table.find? name = some definition -> Unmarked definition.replacement

theorem Table.HoldsNoMarker.define {table : Table} (unmarked : table.HoldsNoMarker)
    (name : String) {definition : Definition} (replacement : Unmarked definition.replacement) :
    (table.define name definition).HoldsNoMarker :=
  Table.Holds.define unmarked name replacement

theorem Table.HoldsNoMarker.erase {table : Table} (unmarked : table.HoldsNoMarker)
    (name : String) : (table.erase name).HoldsNoMarker :=
  Table.Holds.erase unmarked name

theorem Definition.unmarked_ofValue (value : String) :
    Unmarked (Definition.ofValue value).replacement := by
  intro token member
  rw [List.mem_singleton.mp member]
  rfl

theorem holdsNoMarker_builtins : Table.builtins.HoldsNoMarker :=
  Table.holds_builtins

/-- Expansion brings no marker into a text. -/
theorem unmarked_expand {table : Table} (tableUnmarked : table.HoldsNoMarker)
    {tokens : List Token} (unmarked : Unmarked tokens) : Unmarked (expand table tokens) :=
  Table.Holds.of_mem_expand tableUnmarked (fun _ _ holds => holds) unmarked

end Macro

/-! ## Tables of command lines -/

namespace CommandLine

theorem Draft.holdsNoMarker_obey {draft : Draft}
    (unmarked : draft.settings.macros.HoldsNoMarker) (switch : Switch) :
    (draft.obey switch).settings.macros.HoldsNoMarker := by
  cases switch with
  | define name value => exact unmarked.define _ (Macro.Definition.unmarked_ofValue _)
  | undefine name => exact unmarked.erase _
  | _ => exact unmarked

theorem holdsNoMarker_of_resolveSwitches {workingDirectory : String} {draft : Draft}
    {given : List Switch} {settings : Settings}
    (unmarked : draft.settings.macros.HoldsNoMarker)
    (resolved : resolveSwitches workingDirectory draft given = .ok (.run settings)) :
    settings.macros.HoldsNoMarker := by
  fun_induction resolveSwitches workingDirectory draft given with
  | case1 draft =>
      cases resolved
      exact unmarked
  | case2 => cases resolved
  | case3 => cases resolved
  | case4 => cases resolved
  | case5 => cases resolved
  | case6 draft path rest alone ih => exact ih (Draft.holdsNoMarker_obey unmarked _) resolved
  | case7 draft other rest _ _ _ _ ih => exact ih (Draft.holdsNoMarker_obey unmarked _) resolved

/-- No command line puts a marker into the macros of a run. -/
theorem holdsNoMarker_of_resolve {workingDirectory : String} {view : Files.View}
    {arguments : List String} {settings : Settings}
    (resolved : resolve workingDirectory view arguments = .ok (.run settings)) :
    settings.macros.HoldsNoMarker := by
  rcases exists_of_bind_eq_ok resolved with ⟨expanded, _, decided⟩
  exact holdsNoMarker_of_resolveSwitches Macro.holdsNoMarker_builtins decided

end CommandLine

/-! ## Directives -/

namespace Directive

/-- What a directive defines is written in it. -/
theorem subset_of_ofTokens_eq_define {tokens defined : List Token}
    (asked : Request.ofTokens tokens = .define defined) : defined ⊆ tokens := by
  unfold Request.ofTokens at asked
  have skipped := (List.dropWhile_suffix (l := tokens) Token.isWhitespace).subset
  split at asked
  · cases asked
  · rename_i first rest shape
    rw [shape] at skipped
    split at asked
    · have rests : defined = rest := by
        unfold Request.ofName at asked
        split at asked <;> cases asked
        rfl
      rw [rests]
      exact List.Subset.trans (List.subset_cons_self first rest) skipped
    · cases asked

theorem after_subset_of_parameters {isVariadic : Bool} {tokens : List Token}
    {list : ParameterList} (read : parameters isVariadic tokens = .ok list) :
    list.after ⊆ tokens := by
  fun_induction parameters isVariadic tokens generalizing list with
  | case1 => cases read
  | case2 isVariadic token rest skips ih => exact List.subset_cons_of_subset token (ih read)
  | case3 isVariadic token rest reads closes =>
      cases read
      exact List.subset_cons_self token rest
  | case4 isVariadic token rest reads goesOn named ih =>
      rcases exists_of_map_eq_ok read with ⟨more, moreRead, rfl⟩
      have within : more.after ⊆ rest := ih moreRead
      exact List.subset_cons_of_subset token within
  | case5 isVariadic token rest reads goesOn unnamed dots ih =>
      rcases exists_of_map_eq_ok read with ⟨more, moreRead, rfl⟩
      have within : more.after ⊆ rest := ih moreRead
      exact List.subset_cons_of_subset token within
  | case6 => cases read

theorem replacement_subset_of_definition {tokens : List Token} {defined : Macro.Definition}
    (read : definition tokens = .ok defined) : defined.replacement ⊆ tokens := by
  unfold definition at read
  split at read
  · cases read
    exact List.nil_subset _
  · rename_i token rest
    split at read
    · rcases exists_of_bind_eq_ok read with ⟨list, listRead, result⟩
      cases result
      exact List.Subset.trans (Macro.trimBlanks_subset list.after)
        (List.subset_cons_of_subset token (after_subset_of_parameters listRead))
    · cases read
      exact Macro.trimBlanks_subset _

/-- A definition replaces a name by tokens of its directive. -/
theorem replacement_subset_of_namedDefinition {tokens : List Token}
    {named : String × Macro.Definition} (read : namedDefinition tokens = .ok named) :
    named.2.replacement ⊆ tokens := by
  unfold namedDefinition at read
  have skipped := (List.dropWhile_suffix (l := tokens) Token.isWhitespace).subset
  split at read
  · cases read
  · rename_i first rest shape
    rw [shape] at skipped
    split at read
    · rcases exists_of_bind_eq_ok read with ⟨defined, definedRead, result⟩
      cases result
      exact List.Subset.trans (replacement_subset_of_definition definedRead)
        (List.Subset.trans (List.subset_cons_self first rest) skipped)
    · cases read

end Directive
end ObjectWrapper
