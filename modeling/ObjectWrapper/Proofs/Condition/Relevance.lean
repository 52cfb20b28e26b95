import ObjectWrapper.Condition.Evaluation
import ObjectWrapper.Proofs.Macro.Reachability
import ObjectWrapper.Source.Tokenize

namespace ObjectWrapper
namespace Condition

open Source Macro

/-!
# What a condition depends on

A condition looks at macros in two ways.  The operator `defined` only asks whether a name
has a definition, and never looks at it.  Whatever is left once these questions are
answered is expanded, and expansion looks at the definitions that it can reach.  Nothing
else in the table matters, be it for the value of a condition or for the fault that is
found in it.

The statements compare two tables.  They may differ anywhere, recursively defined macros
included, as long as they agree on what is looked at.
-/

/-- The names that the uses of `defined` ask about.  Behind a use that names nothing, no
question is asked. -/
def askedNames : List Token -> List String
  | [] => []
  | token :: rest =>
    if token.isName "defined" then
      match _found : question rest with
      | .error _ => []
      | .ok asked => asked.name :: askedNames asked.after
    else askedNames rest
termination_by tokens => tokens.length
decreasing_by
  · exact Nat.lt_succ_of_lt (question_after_length _found)
  · exact Nat.lt_succ_self _

/-- The first token and the answer to its question, if it asks one. -/
theorem answerDefined_cons (table : Table) (token : Token) (rest : List Token) :
    answerDefined table (token :: rest) =
      (if token.isName "defined" then do
        let asked <- question rest
        let answered <- answerDefined table asked.after
        let answer := if table.contains asked.name then "1" else "0"
        .ok (⟨.number, token.line, answer⟩ :: answered)
      else do
        let answered <- answerDefined table rest
        .ok (token :: answered)) := by
  rw [answerDefined]
  split
  · split <;> rename_i found <;> rw [found] <;> rfl
  · rfl

/-- Tables that define the same of the names asked about give the same answers. -/
theorem answerDefined_congr {first second : Table} {tokens : List Token}
    (agree : ∀ name ∈ askedNames tokens, first.contains name = second.contains name) :
    answerDefined first tokens = answerDefined second tokens := by
  fun_induction askedNames tokens with
  | case1 => rw [answerDefined, answerDefined]
  | case2 token rest uses fault found =>
      rw [answerDefined_cons, answerDefined_cons, found, if_pos uses, if_pos uses]
      rfl
  | case3 token rest uses asked found ih =>
      have here := agree asked.name List.mem_cons_self
      have later := ih fun name member => agree name (List.mem_cons_of_mem _ member)
      simp only [answerDefined_cons, uses, if_true, found, bind, Except.bind, here, later]
  | case4 token rest unused ih =>
      rw [answerDefined_cons, answerDefined_cons, if_neg unused, if_neg unused, ih agree]

/-- Tables that agree on what a condition looks at give it the same value or find the same
fault in it. -/
theorem evaluate_congr {first second : Table} {tokens : List Token}
    (asked : ∀ name ∈ askedNames tokens, first.contains name = second.contains name)
    (reached : ∀ answered, answerDefined first tokens = .ok answered ->
      first.AgreesFrom second answered) :
    evaluate first tokens = evaluate second tokens := by
  unfold evaluate
  rw [← answerDefined_congr asked]
  cases answers : answerDefined first tokens with
  | error fault => rfl
  | ok answered =>
      have expanded := expand_congr_of_agreesFrom (reached answered answers)
      simp only [bind, Except.bind, expanded]

/-- Macros that cannot be reached have no influence.  A text is expanded alike by any two
tables that agree on the names it reaches.  A condition has the same value, or the same
fault, for any two tables that define the same of the names it asks about and agree on
the names that are reached from what is left once these questions are answered. -/
theorem expand_eq_and_evaluate_eq (first second : Table) (tokens : List Token) :
    (first.AgreesFrom second tokens -> expand first tokens = expand second tokens) ∧
      ((∀ name ∈ askedNames tokens, first.contains name = second.contains name) ->
        (∀ answered, answerDefined first tokens = .ok answered ->
          first.AgreesFrom second answered) ->
        evaluate first tokens = evaluate second tokens) :=
  ⟨expand_congr_of_agreesFrom, evaluate_congr⟩

/-- Two names that stand for each other, one that is only asked about, and one that is not
looked at. -/
def recursive : Table :=
  ⟨[("A", { replacement := tokenize "B" }), ("B", { replacement := tokenize "A 1" }),
    ("D", { replacement := tokenize "1" }), ("U", { replacement := tokenize "A" })]⟩

/-- The same two names, and another definition of the one that is asked about. -/
def otherwiseDefined : Table :=
  ⟨[("D", { replacement := tokenize "(" }), ("B", { replacement := tokenize "A 1" }),
    ("A", { replacement := tokenize "B" })]⟩

theorem expand_eq_and_evaluate_eq_recursive :
    recursive.AgreesFrom otherwiseDefined (tokenize "A x B") ∧
      recursive.find? "D" ≠ otherwiseDefined.find? "D" ∧
      expand recursive (tokenize "A x B") = expand otherwiseDefined (tokenize "A x B") ∧
      evaluate recursive (tokenize "defined(D) && A") =
        evaluate otherwiseDefined (tokenize "defined(D) && A") := by
  have closed : ∀ entry ∈ recursive.entries, entry.1 ∈ ["A", "B", "x"] ->
      ∀ token ∈ entry.2.replacement, token.isIdentifier = true ->
        token.lexeme ∈ ["A", "B", "x"] := by decide +kernel
  have same : ∀ name ∈ ["A", "B", "x"],
      recursive.find? name = otherwiseDefined.find? name := by decide +kernel
  have fromText : recursive.AgreesFrom otherwiseDefined (tokenize "A x B") :=
    Table.agreesFrom_of_closed (by decide +kernel) closed same
  have asked : ∀ name ∈ askedNames (tokenize "defined(D) && A"),
      recursive.contains name = otherwiseDefined.contains name := by decide +kernel
  have answers : ∀ answered, answerDefined recursive (tokenize "defined(D) && A") = .ok answered ->
      recursive.AgreesFrom otherwiseDefined answered := by
    have reads : (answerDefined recursive (tokenize "defined(D) && A")).toOption =
        some (tokenize "1 && A") := by decide +kernel
    intro answered found
    rw [found] at reads
    cases reads
    exact Table.agreesFrom_of_closed (by decide +kernel) closed same
  exact ⟨fromText, by decide +kernel,
    (expand_eq_and_evaluate_eq recursive otherwiseDefined _).1 fromText,
    (expand_eq_and_evaluate_eq recursive otherwiseDefined _).2 asked answers⟩

end Condition
end ObjectWrapper
