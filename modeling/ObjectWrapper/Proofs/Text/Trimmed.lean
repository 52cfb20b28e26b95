import Mathlib.Data.List.DropRight

namespace ObjectWrapper
namespace Text

/-!
# What trimming leaves

Blanks around a list are those of some test, before its first element that fails the test and
behind its last one.  Trimming takes them away from both ends, and leaves any list that neither
begins nor ends with a blank, whatever blanks stand around it.
-/

variable {Element : Type} {isBlank : Element -> Bool} {before inner after : List Element}

theorem rdropWhile_dropWhile_append (front : ∀ element ∈ before, isBlank element = true)
    (back : ∀ element ∈ after, isBlank element = true)
    (begins : ∀ element ∈ inner.head?, isBlank element = false)
    (ends : ∀ element ∈ inner.getLast?, isBlank element = false) :
    ((before ++ inner ++ after).dropWhile isBlank).rdropWhile isBlank = inner := by
  cases inner with
  | nil =>
      have blanks : ∀ element ∈ before ++ [] ++ after, isBlank element = true := by
        rw [List.append_nil]
        exact List.forall_mem_append.mpr ⟨front, back⟩
      rw [List.dropWhile_eq_nil_iff.mpr blanks, List.rdropWhile_nil]
  | cons first rest =>
      have skipped : (before ++ first :: rest ++ after).dropWhile isBlank =
          first :: rest ++ after := by
        rw [List.append_assoc, List.dropWhile_append_of_pos front, List.cons_append,
          List.dropWhile_cons, begins first rfl, if_neg Bool.false_ne_true]
      have whole : (first :: rest).rdropWhile isBlank = first :: rest := by
        rw [List.rdropWhile_eq_self_iff]
        intro nonempty
        rw [ends _ (List.getLast?_eq_some_getLast nonempty)]
        exact Bool.false_ne_true
      rw [skipped, List.rdropWhile, List.reverse_append, List.dropWhile_append_of_pos
        fun element member => back element (List.mem_reverse.mp member)]
      exact whole

end Text
end ObjectWrapper
