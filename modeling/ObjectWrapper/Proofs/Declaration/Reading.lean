import ObjectWrapper.Declaration.Scan

namespace ObjectWrapper
namespace Declaration

open Source

/-!
# Reading one token

A scan reads a token, and behind a word that begins a head the whole head.  What this can
do to the scopes is told here once for all tokens, without a look at the token: a scope is
entered, left or marked, or all stay as they are.  The scan goes on with an end of the
tokens.
-/

/-! ## What reading a token can do -/

/-- What the reading of one token on the given line turns the scopes into, and what is
found with it. -/
inductive ReadStep (line : Nat) : List Scope -> List Finding -> List Scope -> Prop where
  | passes (scopes : List Scope) : ReadStep line scopes [] scopes
  | entersNamed (names : List String) (scopes : List Scope) :
      ReadStep line scopes [] (.named names :: scopes)
  | entersBody (name : String) (bases : List String) (scopes : List Scope) :
      ReadStep line scopes [] (.body ⟨name, enclosingNames scopes, bases, line, none⟩ :: scopes)
  | entersBlock (scopes : List Scope) : ReadStep line scopes [] (.block :: scopes)
  | leaves (scope : Scope) (outer : List Scope) :
      ReadStep line (scope :: outer) scope.closed outer
  | unbalanced : ReadStep line [] [.warning line .unbalancedBrace] []
  | marks (candidate : Candidate) (kind : WrapperKind) (outer : List Scope) :
      ReadStep line (.body candidate :: outer) []
        (.body { candidate with kind? := some kind } :: outer)
  | strays (marker : String) (scopes : List Scope) :
      ReadStep line scopes [.warning line (.markerOutsideClass marker)] scopes

theorem readStep_readClosing (scopes : List Scope) (line : Nat) :
    ReadStep line scopes (readClosing scopes line).1 (readClosing scopes line).2 := by
  cases scopes with
  | nil => exact .unbalanced
  | cons scope outer => exact .leaves scope outer

theorem readStep_readMarker (scopes : List Scope) (line : Nat) (marker : String)
    (kind : WrapperKind) :
    ReadStep line scopes (readMarker scopes line marker kind).1
      (readMarker scopes line marker kind).2 := by
  match scopes with
  | .body candidate :: outer => exact .marks candidate kind outer
  | .named names :: outer => exact .strays marker _
  | .block :: outer => exact .strays marker _
  | [] => exact .strays marker []

/-- Each token opens one scope, closes one, marks one, or leaves them as they are. -/
theorem readStep_read (afterEnum : Bool) (scopes : List Scope) (token : Token)
    (rest : List Token) :
    ReadStep token.line scopes (read afterEnum scopes token rest).findings
      (read afterEnum scopes token rest).scopes := by
  unfold read
  split
  · unfold readNamespace
    split
    · exact .passes scopes
    · exact .entersNamed _ scopes
  split
  · unfold readClass
    split
    · exact .passes scopes
    · exact .entersBody _ _ scopes
  split
  · exact .entersBlock scopes
  split
  · exact readStep_readClosing scopes token.line
  split
  · exact readStep_readMarker scopes token.line token.lexeme _
  · exact .passes scopes

/-! ## What is left of the tokens -/

theorem namespaceHead?_after_suffix {tokens : List Token} {head : NamespaceHead}
    (found : namespaceHead? tokens = some head) : head.after <:+ tokens := by
  induction tokens generalizing head with
  | nil => cases found
  | cons token rest inductionHypothesis =>
      unfold namespaceHead? at found
      split at found
      · cases found
        exact List.suffix_cons token rest
      split at found
      · rcases Option.map_eq_some_iff.mp found with ⟨inner, innerFound, rfl⟩
        exact (inductionHypothesis innerFound).trans (List.suffix_cons token rest)
      split at found
      · exact (inductionHypothesis found).trans (List.suffix_cons token rest)
      · cases found

theorem classNames?_left_suffix {tokens : List Token} {head : ClassNames}
    (found : classNames? tokens = some head) : head.left <:+ tokens := by
  induction tokens generalizing head with
  | nil => cases found
  | cons token rest inductionHypothesis =>
      unfold classNames? at found
      split at found
      · cases found
        exact List.suffix_rfl
      split at found
      · rcases Option.map_eq_some_iff.mp found with ⟨inner, innerFound, rfl⟩
        exact (inductionHypothesis innerFound).trans (List.suffix_cons token rest)
      split at found
      · exact (inductionHypothesis found).trans (List.suffix_cons token rest)
      · cases found

theorem bases?_after_suffix {depth : Nat} {begun : String} {tokens : List Token} {bases : Bases}
    (found : bases? depth begun tokens = some bases) : bases.after <:+ tokens := by
  induction tokens generalizing depth begun bases with
  | nil => cases found
  | cons token rest inductionHypothesis =>
      unfold bases? at found
      split at found
      · cases found
        exact List.suffix_cons token rest
      split at found
      · cases found
      simp only at found
      split at found
      · rcases Option.map_eq_some_iff.mp found with ⟨inner, innerFound, rfl⟩
        exact (inductionHypothesis innerFound).trans (List.suffix_cons token rest)
      split at found
      · exact (inductionHypothesis found).trans (List.suffix_cons token rest)
      · exact (inductionHypothesis found).trans (List.suffix_cons token rest)

theorem classHead?_after_suffix {tokens : List Token} {head : ClassHead}
    (found : classHead? tokens = some head) : head.after <:+ tokens := by
  unfold classHead? at found
  rcases Option.bind_eq_some_iff.mp found with ⟨identifiers, identifiersFound, named⟩
  rcases Option.bind_eq_some_iff.mp named with ⟨name, _, opened⟩
  have inside := classNames?_left_suffix identifiersFound
  split at opened
  · cases opened
  rename_i token rest shape
  rw [shape] at inside
  have behind := (List.suffix_cons token rest).trans inside
  split at opened
  · rcases Option.bind_eq_some_iff.mp opened with ⟨bases, basesFound, same⟩
    cases same
    exact (bases?_after_suffix basesFound).trans behind
  · cases opened
    exact behind

/-- The scan goes on with an end of the tokens. -/
theorem read_left_suffix (afterEnum : Bool) (scopes : List Scope) (token : Token)
    (rest : List Token) : (read afterEnum scopes token rest).left <:+ rest := by
  unfold read
  split
  · unfold readNamespace
    split
    · exact List.suffix_rfl
    · rename_i head found
      exact namespaceHead?_after_suffix found
  split
  · unfold readClass
    split
    · exact List.suffix_rfl
    · rename_i head found
      exact classHead?_after_suffix found
  split
  · exact List.suffix_rfl
  split
  · exact List.suffix_rfl
  split
  · exact List.suffix_rfl
  · exact List.suffix_rfl

end Declaration
end ObjectWrapper
