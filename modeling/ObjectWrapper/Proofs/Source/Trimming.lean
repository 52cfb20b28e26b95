import ObjectWrapper.Proofs.Text.Trimmed
import ObjectWrapper.Source.Token

namespace ObjectWrapper
namespace Source

/-!
# Tokens without the blanks around them

Blanks around an argument or a replacement do not belong to it.  What belongs to it is
described here from both ends: it lies between two stretches of blanks, and neither begins
nor ends with one.  Exactly one list of tokens does, and it is the one that trimming yields.
-/

/-- The tokens consist of `inner` and of blanks before and behind it, and `inner` begins and
ends with other tokens, unless there are none. -/
structure Trims (tokens inner : List Token) : Prop where
  surrounded : ∃ before after, tokens = before ++ inner ++ after ∧
    (∀ token ∈ before, token.isBlank = true) ∧ ∀ token ∈ after, token.isBlank = true
  begins : ∀ token ∈ inner.head?, token.isBlank = false
  ends : ∀ token ∈ inner.getLast?, token.isBlank = false

theorem trimBlanks_eq_rdropWhile (tokens : List Token) :
    trimBlanks tokens = (tokens.dropWhile Token.isBlank).rdropWhile Token.isBlank :=
  rfl

theorem trims_trimBlanks (tokens : List Token) : Trims tokens (trimBlanks tokens) where
  surrounded := by
    refine ⟨tokens.takeWhile Token.isBlank,
      (tokens.dropWhile Token.isBlank).rtakeWhile Token.isBlank,
      ?_, fun token => List.mem_takeWhile_imp, fun token => List.mem_rtakeWhile_imp⟩
    rw [trimBlanks_eq_rdropWhile, List.append_assoc, List.rdropWhile_append_rtakeWhile,
      List.takeWhile_append_dropWhile]
  begins := by
    intro token head
    have kept : trimBlanks tokens <+: tokens.dropWhile Token.isBlank :=
      List.rdropWhile_prefix Token.isBlank _
    have first : (tokens.dropWhile Token.isBlank).head? = some token := by
      rcases kept with ⟨after, whole⟩
      rw [← whole]
      exact List.mem_head?_append_of_mem_head? head
    have stopped := List.head?_dropWhile_not Token.isBlank tokens
    rw [first] at stopped
    simpa using stopped
  ends := by
    intro token last
    rcases List.mem_getLast?_eq_getLast last with ⟨nonempty, rfl⟩
    have stopped := List.rdropWhile_last_not Token.isBlank (tokens.dropWhile Token.isBlank) nonempty
    exact Bool.not_eq_true _ ▸ stopped

/-- Whatever lies between blanks like this is what trimming yields. -/
theorem Trims.trimBlanks_eq {tokens inner : List Token} (trims : Trims tokens inner) :
    trimBlanks tokens = inner := by
  rcases trims.surrounded with ⟨before, after, rfl, front, back⟩
  rw [trimBlanks_eq_rdropWhile]
  exact Text.rdropWhile_dropWhile_append front back trims.begins trims.ends

theorem trimBlanks_eq_iff {tokens inner : List Token} :
    trimBlanks tokens = inner ↔ Trims tokens inner := by
  refine ⟨?_, Trims.trimBlanks_eq⟩
  rintro rfl
  exact trims_trimBlanks tokens

end Source
end ObjectWrapper
