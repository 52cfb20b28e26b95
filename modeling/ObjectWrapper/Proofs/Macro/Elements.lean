import ObjectWrapper.Proofs.Macro.Invocation

namespace ObjectWrapper
namespace Macro

open Source

/-!
# Expansion part by part

Expansion goes through a text from front to back.  It copies the tokens that stand for
themselves, and puts other tokens in the place of an invocation, which is a name alone
or a name with its argument list.  An element is one such part of the text together
with what has become of it.

The elements of a text cover it without gaps, and what they have become is the
expansion.  However deeply replacements are nested, a token that replaces an invocation
stands on the line of some token of that invocation.
-/

/-- A part of a text, and what has become of it. -/
inductive Element where
  /-- A token that stands for itself. -/
  | copied (token : Token)
  /-- Tokens that others have replaced. -/
  | replaced (source result : List Token)
deriving DecidableEq, Repr

namespace Element

/-- The tokens of the text. -/
def source : Element -> List Token
  | .copied token => [token]
  | .replaced source _ => source

/-- What they have become. -/
def result : Element -> List Token
  | .copied token => [token]
  | .replaced _ result => result

/-- Every line of the result is one of the source. -/
def KeepsLines (element : Element) : Prop :=
  ∀ token ∈ element.result, ∃ placed ∈ element.source, token.line = placed.line

theorem keepsLines_copied (token : Token) : (Element.copied token).KeepsLines :=
  fun other member => ⟨other, member, rfl⟩

end Element

/-- The elements of a text. -/
def elements (table : Table) : List Token -> List Element
  | [] => []
  | token :: rest =>
    match _used : table.usage token rest with
    | .plain => .copied token :: elements table rest
    | .object definition =>
      .replaced [token]
          (expand (table.erase token.lexeme) (definition.replacementAt token.line)) ::
        elements table rest
    | .function definition invocation =>
      .replaced (token :: rest.take (rest.length - invocation.after.length))
          (expand (table.erase token.lexeme) (definition.substitute token.line fun position =>
            expand table (invocation.argument position))) ::
        elements table invocation.after
termination_by tokens => tokens.length
decreasing_by
  · exact Nat.lt_succ_self _
  · exact Nat.lt_succ_self _
  · have bounds := Definition.invocation?_bounds (of_usage_function _used).2
    exact Nat.lt_succ_of_lt bounds.1

/-- The elements of a text cover it. -/
theorem flatMap_source_elements (table : Table) (tokens : List Token) :
    (elements table tokens).flatMap Element.source = tokens := by
  fun_induction elements table tokens with
  | case1 => rfl
  | case2 token rest used ih => rw [List.flatMap_cons, ih]; rfl
  | case3 token rest definition used ih => rw [List.flatMap_cons, ih]; rfl
  | case4 token rest definition invocation used ih =>
      rcases Definition.exists_taken_of_invocation? (of_usage_function used).2 with
        ⟨taken, parts, _, _⟩
      rw [List.flatMap_cons, ih]
      conv => rhs; rw [parts]
      rw [Element.source, parts, take_length_sub_of_append]
      rfl

/-- The results of all elements are the expansion. -/
theorem flatMap_result_elements (table : Table) (tokens : List Token) :
    (elements table tokens).flatMap Element.result = expand table tokens := by
  fun_induction elements table tokens with
  | case1 => rw [expand_nil]; rfl
  | case2 token rest used ih => rw [expand_cons, used, List.flatMap_cons, ih]; rfl
  | case3 token rest definition used ih => rw [expand_cons, used, List.flatMap_cons, ih]; rfl
  | case4 token rest definition invocation used ih =>
      rw [expand_cons, used, List.flatMap_cons, ih]
      rfl

/-- Whatever replaces an invocation stands on its lines. -/
theorem keepsLines_of_mem_elements {table : Table} {tokens : List Token} {element : Element}
    (member : element ∈ elements table tokens) : element.KeepsLines := by
  fun_induction elements table tokens with
  | case1 => cases member
  | case2 token rest used ih =>
      rcases List.mem_cons.mp member with rfl | later
      · exact Element.keepsLines_copied token
      · exact ih later
  | case3 token rest definition used ih =>
      rcases List.mem_cons.mp member with rfl | later
      · intro produced inResult
        rcases (supplies_of_mem_expand _ _ produced inResult).exists_line with
          ⟨replaced, inBody, sameLine⟩
        rcases List.mem_map.mp inBody with ⟨original, _, rfl⟩
        exact ⟨token, List.mem_cons_self, sameLine⟩
      · exact ih later
  | case4 token rest definition invocation used ih =>
      rcases Definition.exists_taken_of_invocation? (of_usage_function used).2 with
        ⟨taken, parts, within, _⟩
      have source : rest.take (rest.length - invocation.after.length) = taken := by
        rw [parts, take_length_sub_of_append]
      rcases List.mem_cons.mp member with rfl | later
      · intro produced inResult
        rcases (supplies_of_mem_expand _ _ produced inResult).exists_line with
          ⟨substituted, inBody, sameLine⟩
        rw [Element.source, source, sameLine]
        rcases Definition.mem_substitute inBody with ⟨original, _, rfl⟩ | ⟨position, inArgument⟩
        · exact ⟨token, List.mem_cons_self, rfl⟩
        · rcases (supplies_of_mem_expand _ _ substituted inArgument).exists_line with
            ⟨placed, inPlace, samePlace⟩
          exact ⟨placed, List.mem_cons_of_mem token (within position inPlace), samePlace⟩
      · exact ih later

end Macro
end ObjectWrapper
