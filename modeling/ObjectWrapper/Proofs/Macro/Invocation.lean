import Mathlib.Data.List.TakeWhile
import ObjectWrapper.Proofs.Macro.Origin

namespace ObjectWrapper
namespace Macro

open Source

/-!
# What an invocation takes

An invocation takes the first tokens of those that follow its name: the ones up to
the parenthesis that closes its argument list.  Arguments consist of taken tokens,
and whatever follows the taken ones has no influence on them.  How the tokens are
divided into arguments depends on the definition; which ones are taken does not.
-/

/-- An argument list is read off the tokens it consists of, whatever follows them. -/
theorem exists_taken_of_collect {separators : Option Nat} {depth : Nat} {tokens : List Token}
    {invocation : Invocation} (found : collect separators depth tokens = some invocation) :
    ∃ taken, tokens = taken ++ invocation.after ∧
      (∀ argument ∈ invocation.arguments, argument ⊆ taken) ∧
      ∀ rest, collect separators depth (taken ++ rest) = some { invocation with after := rest } := by
  induction tokens generalizing separators depth invocation with
  | nil => simp [collect] at found
  | cons token rest ih =>
      have extended {separators : Option Nat} {depth : Nat}
          (found : (collect separators depth rest).map (Invocation.extend token) =
            some invocation) :
          ∃ taken, token :: rest = token :: taken ++ invocation.after ∧
            (∀ argument ∈ invocation.arguments, argument ⊆ token :: taken) ∧
            ∀ other, (collect separators depth (taken ++ other)).map (Invocation.extend token) =
              some { invocation with after := other } := by
        rcases Option.map_eq_some_iff.mp found with ⟨inner, innerFound, rfl⟩
        rcases ih innerFound with ⟨taken, parts, within, again⟩
        refine ⟨taken, by rw [parts]; rfl, ?_, fun other => by rw [again other]; rfl⟩
        intro argument member
        rcases List.mem_cons.mp member with rfl | later
        · apply List.cons_subset_cons
          cases shape : inner.arguments with
          | nil => exact List.nil_subset taken
          | cons first more => exact within first (by rw [shape]; exact List.mem_cons_self)
        · exact List.subset_cons_of_subset token (within argument (List.mem_of_mem_drop later))
      unfold collect at found
      split at found
      · rename_i opens
        rcases extended found with ⟨taken, parts, within, again⟩
        refine ⟨token :: taken, parts, within, fun other => ?_⟩
        rw [List.cons_append, collect.eq_def]
        simp only [opens, if_true]
        exact again other
      rename_i noOpening
      split at found
      · rename_i closes
        split at found
        · cases found
          refine ⟨[token], rfl, by simp, fun other => ?_⟩
          rw [List.singleton_append, collect, if_neg noOpening, if_pos closes]
        · rcases extended found with ⟨taken, parts, within, again⟩
          refine ⟨token :: taken, parts, within, fun other => ?_⟩
          rw [List.cons_append, collect, if_neg noOpening, if_pos closes]
          exact again other
      rename_i noClosing
      split at found
      · rename_i separates
        rcases Option.map_eq_some_iff.mp found with ⟨inner, innerFound, rfl⟩
        rcases ih innerFound with ⟨taken, parts, within, again⟩
        refine ⟨token :: taken, by rw [parts]; rfl, ?_, fun other => ?_⟩
        · intro argument member
          rcases List.mem_cons.mp member with rfl | later
          · exact List.nil_subset _
          · exact List.subset_cons_of_subset token (within argument later)
        · rw [List.cons_append, collect.eq_def]
          simp only [noOpening, noClosing, separates, if_true, if_false, again other,
            Bool.false_eq_true]
          rfl
      · rename_i noSeparator
        rcases extended found with ⟨taken, parts, within, again⟩
        refine ⟨token :: taken, parts, within, fun other => ?_⟩
        rw [List.cons_append, collect.eq_def]
        simp only [noOpening, noClosing, noSeparator, if_false, Bool.false_eq_true]
        exact again other

/-- Blanks before the parenthesis are taken as well. -/
theorem Definition.exists_taken_of_invocation? {definition : Definition} {tokens : List Token}
    {invocation : Invocation} (found : definition.invocation? tokens = some invocation) :
    ∃ taken, tokens = taken ++ invocation.after ∧
      (∀ position, invocation.argument position ⊆ taken) ∧
      ∀ rest, definition.invocation? (taken ++ rest) = some { invocation with after := rest } := by
  unfold Definition.invocation? at found
  split at found
  · cases found
  rename_i opening rest shape
  split at found
  · rename_i opens
    rcases Option.map_eq_some_iff.mp found with ⟨raw, rawFound, rfl⟩
    rcases exists_taken_of_collect rawFound with ⟨taken, parts, within, again⟩
    have whole : tokens = tokens.takeWhile Token.isBlank ++ opening :: (taken ++ raw.after) := by
      rw [← parts, ← shape, List.takeWhile_append_dropWhile]
    have noBlank : opening.isBlank = false := Token.isBlank_of_isPunctuator opens
    refine ⟨tokens.takeWhile Token.isBlank ++ opening :: taken, ?_, ?_, ?_⟩
    · simpa using whole
    · intro position
      have inTaken : Invocation.argument
          { raw with arguments := raw.arguments.map trimBlanks } position ⊆ taken := by
        unfold Invocation.argument
        rw [List.getD_eq_getElem?_getD, List.getElem?_map]
        cases given : raw.arguments[position]? with
        | none => exact List.nil_subset taken
        | some argument =>
            exact List.Subset.trans (trimBlanks_subset argument)
              (within argument (List.mem_of_getElem? given))
      exact List.subset_append_of_subset_right _ (List.subset_cons_of_subset opening inTaken)
    · intro other
      have skipped : (tokens.takeWhile Token.isBlank ++ opening :: taken ++ other).dropWhile
          Token.isBlank = opening :: (taken ++ other) := by
        rw [List.append_assoc, List.dropWhile_append_of_pos fun _ => List.mem_takeWhile_imp]
        simp [noBlank]
      unfold Definition.invocation?
      rw [skipped]
      simp only [opens, if_true, again other]
      rfl
  · cases found

/-! ## Argument lists -/

/-- Where commas separate arguments makes no difference to where they end. -/
theorem map_after_collect (first second : Option Nat) (depth : Nat) (tokens : List Token) :
    (collect first depth tokens).map Invocation.after =
      (collect second depth tokens).map Invocation.after := by
  have extended (token : Token) (found : Option Invocation) :
      (found.map (Invocation.extend token)).map Invocation.after = found.map Invocation.after := by
    cases found <;> rfl
  have separated (found : Option Invocation) :
      (found.map Invocation.separate).map Invocation.after = found.map Invocation.after := by
    cases found <;> rfl
  induction tokens generalizing first second depth with
  | nil => rfl
  | cons token rest ih =>
      rw [collect.eq_def, collect.eq_def second]
      simp only
      split
      · rw [extended, extended]
        exact ih _ _ _
      split
      · split
        · rfl
        · rw [extended, extended]
          exact ih _ _ _
      · split <;> split <;> simp only [extended, separated] <;> exact ih _ _ _

/-- The argument list that tokens begin with, blanks before it included. -/
def argumentList? (tokens : List Token) : Option (List Token) :=
  (Definition.empty.invocation? tokens).map fun invocation =>
    tokens.take (tokens.length - invocation.after.length)

theorem Definition.map_after_invocation? (first second : Definition) (tokens : List Token) :
    (first.invocation? tokens).map Invocation.after =
      (second.invocation? tokens).map Invocation.after := by
  unfold Definition.invocation?
  split
  · rfl
  · split
    · rw [Option.map_map, Option.map_map]
      exact map_after_collect _ _ 0 _
    · rfl

theorem take_length_sub_of_append {taken after : List Token} :
    (taken ++ after).take ((taken ++ after).length - after.length) = taken := by
  rw [List.length_append, Nat.add_sub_cancel, List.take_left]

/-- An invocation takes the argument list. -/
theorem Definition.exists_argumentList_of_invocation? {definition : Definition}
    {tokens : List Token} {invocation : Invocation}
    (found : definition.invocation? tokens = some invocation) :
    ∃ taken, argumentList? tokens = some taken ∧ tokens = taken ++ invocation.after := by
  rcases Definition.exists_taken_of_invocation? found with ⟨taken, parts, _, _⟩
  have sameAfter := Definition.map_after_invocation? .empty definition tokens
  rw [found, Option.map_some] at sameAfter
  rcases Option.map_eq_some_iff.mp sameAfter with ⟨other, otherFound, equal⟩
  refine ⟨taken, ?_, parts⟩
  rw [argumentList?, otherFound, Option.map_some, equal, parts, take_length_sub_of_append]

/-- An argument list ends where it does, whatever follows. -/
theorem argumentList?_append {tokens taken : List Token}
    (found : argumentList? tokens = some taken) (more : List Token) :
    argumentList? (tokens ++ more) = some taken := by
  rcases Option.map_eq_some_iff.mp found with ⟨invocation, invoked, rfl⟩
  rcases Definition.exists_taken_of_invocation? invoked with ⟨taken, parts, _, again⟩
  have longer := again (invocation.after ++ more)
  rw [← List.append_assoc, ← parts] at longer
  rcases Definition.exists_argumentList_of_invocation? longer with ⟨others, otherFound, otherParts⟩
  rw [otherFound]
  congr 1
  rw [parts, take_length_sub_of_append]
  rw [parts, List.append_assoc] at otherParts
  exact (List.append_cancel_right otherParts).symm

end Macro
end ObjectWrapper
