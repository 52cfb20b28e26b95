import Mathlib.Algebra.BigOperators.Group.List.Basic
import Mathlib.Algebra.Ring.Int.Defs
import ObjectWrapper.Macro.Arguments
import ObjectWrapper.Proofs.Source.Trimming

namespace ObjectWrapper
namespace Macro

open Source

/-!
# Argument lists by counting parentheses

Arguments are collected in one pass that keeps the depth of parentheses and the commas that
may still separate.  What is collected can be told without following the tokens.  A token is
outside inner parentheses if as many of them are closed as are opened before it.  The first
closing parenthesis of which this is so matches the one that begins the list, and the commas
of which it is so are where the tokens between the two are cut, or only the first of them
where the last parameter takes the rest.

The pass is compared with this at any depth, by following the tokens once.  Parentheses
change the count on both sides, and every token moves the places behind it by one.
-/

/-! ## Places outside inner parentheses -/

/-- The change that a token makes to the number of open parentheses. -/
def parenthesis (token : Token) : Int :=
  if token.isPunctuator "(" then 1 else if token.isPunctuator ")" then -1 else 0

/-- How many more parentheses the tokens open than they close. -/
def level (tokens : List Token) : Int :=
  (tokens.map parenthesis).sum

/-- The given punctuator stands at the place and is outside all parentheses, if `depth` of
them are open before the tokens. -/
def isOuter (depth : Int) (text : String) (tokens : List Token) (place : Nat) : Bool :=
  tokens[place]?.any (·.isPunctuator text) && depth + level (tokens.take place) == 0

/-- The places at which it does. -/
def outerPlaces (depth : Int) (text : String) (tokens : List Token) : List Nat :=
  (List.range tokens.length).filter (isOuter depth text tokens)

/-- The stretches of tokens between the places, which are left out themselves. -/
def cutAt (start : Nat) (places : List Nat) (tokens : List Token) : List (List Token) :=
  match places with
  | [] => [tokens.drop start]
  | place :: more => (tokens.take place).drop start :: cutAt (place + 1) more tokens

section Places

variable {depth : Int} {text : String} {token : Token} {rest : List Token}

theorem level_cons : level (token :: rest) = parenthesis token + level rest := by
  rw [level, List.map_cons, List.sum_cons, level]

theorem isOuter_cons_zero :
    isOuter depth text (token :: rest) 0 = (token.isPunctuator text && depth == 0) := by
  rw [isOuter, List.take_zero, level, List.map_nil, List.sum_nil, Int.add_zero]
  rfl

theorem isOuter_cons_succ (place : Nat) : isOuter depth text (token :: rest) (place + 1) =
    isOuter (depth + parenthesis token) text rest place := by
  rw [isOuter, isOuter, List.getElem?_cons_succ, List.take_succ_cons, level_cons, Int.add_assoc]

theorem outerPlaces_cons : outerPlaces depth text (token :: rest) =
    (if token.isPunctuator text && depth == 0 then [0] else []) ++
      (outerPlaces (depth + parenthesis token) text rest).map (· + 1) := by
  have later : isOuter depth text (token :: rest) ∘ Nat.succ =
      isOuter (depth + parenthesis token) text rest := funext isOuter_cons_succ
  rw [outerPlaces, List.length_cons, List.range_succ_eq_map, List.filter_cons, List.filter_map,
    isOuter_cons_zero, later]
  split
  · rfl
  · rfl

theorem cutAt_cons_succ (start : Nat) (places : List Nat) :
    cutAt (start + 1) (places.map (· + 1)) (token :: rest) = cutAt start places rest := by
  induction places generalizing start with
  | nil => rfl
  | cons place more ih =>
      rw [List.map_cons, cutAt, cutAt, ih]
      rfl

/-- One more token in front belongs to the first stretch. -/
theorem extend_cutAt (places : List Nat) (after : List Token) :
    Invocation.extend token ⟨cutAt 0 places rest, after⟩ =
      ⟨cutAt 0 (places.map (· + 1)) (token :: rest), after⟩ := by
  cases places with
  | nil => rfl
  | cons place more =>
      rw [List.map_cons, cutAt, cutAt, cutAt_cons_succ]
      rfl

/-- A cut in front leaves an empty stretch before it. -/
theorem separate_cutAt (places : List Nat) (after : List Token) :
    Invocation.separate ⟨cutAt 0 places rest, after⟩ =
      ⟨cutAt 0 (0 :: places.map (· + 1)) (token :: rest), after⟩ := by
  rw [cutAt, cutAt_cons_succ]
  rfl

end Places

/-! ## Collecting -/

/-- The first places, as many as there may be. -/
def atMost (count? : Option Nat) (places : List Nat) : List Nat :=
  match count? with
  | none => places
  | some count => places.take count

theorem atMost_nil (count? : Option Nat) : atMost count? [] = [] := by
  cases count? with
  | none => rfl
  | some count => exact List.take_nil

theorem atMost_map (count? : Option Nat) (places : List Nat) (change : Nat -> Nat) :
    atMost count? (places.map change) = (atMost count? places).map change := by
  cases count? with
  | none => rfl
  | some count => exact List.map_take.symm

theorem atMost_cons {count? : Option Nat} (allowed : count? ≠ some 0) (place : Nat)
    (places : List Nat) :
    atMost count? (place :: places) = place :: atMost (count?.map (· - 1)) places := by
  cases count? with
  | none => rfl
  | some count =>
      cases count with
      | zero => exact absurd rfl allowed
      | succ count => rfl

/-- Places that are not cut do not count. -/
theorem atMost_append_of_not_cut {count? : Option Nat} {isComma : Bool}
    (noCut : (isComma && count? != some 0) = false) (places : List Nat) :
    atMost count? ((if isComma then [0] else []) ++ places) = atMost count? places := by
  cases isComma with
  | false => rfl
  | true =>
      have none : count? = some 0 := by simpa using noCut
      rw [none, atMost, atMost, List.take_zero, List.take_zero]

/-- What is collected ends at the first closing parenthesis outside the others, and is cut at
the commas outside them. -/
theorem collect_eq (separators : Option Nat) (depth : Nat) (tokens : List Token) :
    collect separators depth tokens =
      (outerPlaces depth ")" tokens).head?.map fun place =>
        ⟨cutAt 0 (atMost separators (outerPlaces depth "," (tokens.take place)))
          (tokens.take place), tokens.drop (place + 1)⟩ := by
  induction tokens generalizing separators depth with
  | nil => rfl
  | cons token rest ih =>
      -- A token that neither ends the list nor cuts it only moves the places behind it.
      have extended : ∀ changed : Nat, (changed : Int) = depth + parenthesis token ->
          (token.isPunctuator ")" && (depth : Int) == 0) = false ->
          (token.isPunctuator "," && (depth : Int) == 0 && separators != some 0) = false ->
          (collect separators changed rest).map (Invocation.extend token) =
            (outerPlaces depth ")" (token :: rest)).head?.map fun place =>
              ⟨cutAt 0 (atMost separators (outerPlaces depth "," ((token :: rest).take place)))
                ((token :: rest).take place), (token :: rest).drop (place + 1)⟩ := by
        intro changed same noEnd noCut
        rw [ih, outerPlaces_cons, noEnd, ← same]
        simp only [Bool.false_eq_true, if_false, List.nil_append, List.head?_map, Option.map_map]
        congr 1
        funext place
        simp only [Function.comp_apply, List.take_succ_cons, List.drop_succ_cons]
        rw [extend_cutAt, outerPlaces_cons, ← same, atMost_append_of_not_cut noCut, atMost_map]
      have sameDepth : ∀ depth : Nat, ((depth : Int) == 0) = (depth == 0) := by
        intro depth
        cases depth <;> rfl
      rw [collect.eq_def]
      simp only
      split
      · rename_i opens
        refine extended (depth + 1) ?_ ?_ ?_
        · rw [parenthesis, if_pos opens]
          rfl
        · rw [Token.isPunctuator_of_ne opens (by decide), Bool.false_and]
        · rw [Token.isPunctuator_of_ne opens (by decide), Bool.false_and, Bool.false_and]
      rename_i noOpening
      split
      · rename_i closes
        cases depth with
        | zero =>
            have ends : (token.isPunctuator ")" && ((0 : Nat) : Int) == 0) = true := by
              rw [closes]
              rfl
            rw [outerPlaces_cons, ends, if_pos rfl]
            change _ = some (Invocation.mk (cutAt 0 (atMost separators []) []) rest)
            rw [atMost_nil]
            rfl
        | succ depth =>
            refine extended depth ?_ ?_ ?_
            · rw [parenthesis, if_neg noOpening, if_pos closes]
              omega
            · rw [sameDepth]
              exact Bool.and_false _
            · rw [Token.isPunctuator_of_ne closes (by decide), Bool.false_and, Bool.false_and]
      rename_i noClosing
      have unchanged : (depth : Int) = depth + parenthesis token := by
        rw [parenthesis, if_neg noOpening, if_neg noClosing, Int.add_zero]
      have noEnd : (token.isPunctuator ")" && (depth : Int) == 0) = false := by
        rw [Bool.eq_false_iff.mpr noClosing, Bool.false_and]
      split
      · rename_i separates
        simp only [Bool.and_eq_true, bne_iff_ne] at separates
        have cuts : (token.isPunctuator "," && (depth : Int) == 0) = true := by
          rw [sameDepth, separates.1.1, separates.1.2]
          rfl
        rw [ih, outerPlaces_cons, noEnd, ← unchanged]
        simp only [Bool.false_eq_true, if_false, List.nil_append, List.head?_map, Option.map_map]
        congr 1
        funext place
        simp only [Function.comp_apply, List.take_succ_cons, List.drop_succ_cons]
        rw [separate_cutAt, outerPlaces_cons, cuts, ← unchanged, if_pos rfl,
          List.singleton_append, atMost_cons separates.2, atMost_map]
      · rename_i joins
        refine extended depth unchanged noEnd ?_
        rw [sameDepth]
        exact Bool.eq_false_iff.mpr joins

/-! ## The matching parenthesis -/

section Matching

variable {depth : Int} {text : String} {inside after : List Token} {closing : Token}

/-- What follows has no influence on the places before it. -/
theorem isOuter_append {place : Nat} (within : place < inside.length) (rest : List Token) :
    isOuter depth text (inside ++ rest) place = isOuter depth text inside place := by
  rw [isOuter, isOuter, List.getElem?_append_left within, List.take_append_of_le_length within.le]

theorem isOuter_append_cons : isOuter depth text (inside ++ closing :: after) inside.length =
    (closing.isPunctuator text && depth + level inside == 0) := by
  rw [isOuter, List.getElem?_append_right le_rfl, Nat.sub_self, List.take_left]
  rfl

theorem outerPlaces_eq_nil_iff :
    outerPlaces depth text inside = [] ↔
      ∀ place < inside.length, isOuter depth text inside place = false := by
  simp [outerPlaces]

/-- The first place is the one behind tokens among which there is none. -/
theorem head?_outerPlaces_eq_some_iff {tokens : List Token} {place : Nat} :
    (outerPlaces depth text tokens).head? = some place ↔
      ∃ inside closing after, tokens = inside ++ closing :: after ∧ inside.length = place ∧
        closing.isPunctuator text = true ∧ depth + level inside = 0 ∧
          outerPlaces depth text inside = [] := by
  rw [outerPlaces, List.head?_filter, List.find?_range_eq_some]
  simp only [Bool.not_eq_true']
  constructor
  · rintro ⟨isPlace, within, isFirst⟩
    rw [List.mem_range] at within
    refine ⟨tokens.take place, tokens[place], tokens.drop (place + 1), ?_⟩
    have whole : tokens = tokens.take place ++ tokens[place] :: tokens.drop (place + 1) := by
      rw [← List.drop_eq_getElem_cons within, List.take_append_drop]
    have long : (tokens.take place).length = place := List.length_take_of_le within.le
    have here := isPlace
    rw [isOuter, List.getElem?_eq_getElem within, Option.any_some, Bool.and_eq_true,
      beq_iff_eq] at here
    refine ⟨whole, long, here.1, here.2, outerPlaces_eq_nil_iff.mpr fun earlier isEarlier => ?_⟩
    rw [← isOuter_append isEarlier, ← whole]
    exact isFirst earlier (long ▸ isEarlier)
  · rintro ⟨inside, closing, after, rfl, rfl, isText, leveled, noEarlier⟩
    refine ⟨?_, ?_, fun earlier isEarlier => ?_⟩
    · rw [isOuter_append_cons, isText, leveled]
      rfl
    · rw [List.mem_range, List.length_append, List.length_cons]
      omega
    · rw [isOuter_append isEarlier]
      exact outerPlaces_eq_nil_iff.mp noEarlier earlier isEarlier

end Matching

/-! ## Invocations -/

/-- The tokens begin with a parenthesis behind blanks; `inside` stands between it and the one
that matches it, and `after` behind that. -/
def Parenthesizes (tokens inside after : List Token) : Prop :=
  ∃ blanks opening closing, tokens = blanks ++ opening :: (inside ++ closing :: after) ∧
    (∀ token ∈ blanks, token.isBlank = true) ∧ opening.isPunctuator "(" = true ∧
      closing.isPunctuator ")" = true ∧ level inside = 0 ∧ outerPlaces 0 ")" inside = []

/-- The commas at which the tokens between the parentheses are cut: all those outside inner
parentheses, or the first ones up to the last parameter where that takes the rest. -/
def Definition.cuts (definition : Definition) (inside : List Token) : List Nat :=
  if definition.isVariadic then (outerPlaces 0 "," inside).take (definition.parameters.length - 1)
  else outerPlaces 0 "," inside

theorem Definition.atMost_separators (definition : Definition) (inside : List Token) :
    atMost definition.separators (outerPlaces 0 "," inside) = definition.cuts inside := by
  unfold Definition.separators Definition.cuts
  split
  · rfl
  · rfl

/-- A list between parentheses is an argument list, whatever it consists of. -/
theorem Parenthesizes.invocation?_eq {tokens inside after : List Token}
    (encloses : Parenthesizes tokens inside after) (definition : Definition) :
    definition.invocation? tokens =
      some ⟨(cutAt 0 (definition.cuts inside) inside).map trimBlanks, after⟩ := by
  rcases encloses with ⟨blanks, opening, closing, rfl, blank, opens, closes, leveled, noEarlier⟩
  have skipped : (blanks ++ opening :: (inside ++ closing :: after)).dropWhile Token.isBlank =
      opening :: (inside ++ closing :: after) := by
    rw [List.dropWhile_append_of_pos blank, List.dropWhile_cons,
      Token.isBlank_of_isPunctuator opens, if_neg Bool.false_ne_true]
  have ends : (outerPlaces ((0 : Nat) : Int) ")" (inside ++ closing :: after)).head? =
      some inside.length :=
    head?_outerPlaces_eq_some_iff.mpr
      ⟨inside, closing, after, rfl, rfl, closes, by rw [leveled]; rfl, noEarlier⟩
  unfold Definition.invocation?
  rw [skipped]
  simp only [opens, if_true]
  rw [collect_eq, ends, Option.map_some, Option.map_some, List.take_left, Nat.cast_zero,
    definition.atMost_separators, List.drop_length_add_append]
  rfl

theorem Definition.exists_parenthesizes_of_invocation? {definition : Definition}
    {tokens : List Token} {invocation : Invocation}
    (found : definition.invocation? tokens = some invocation) :
    ∃ inside, Parenthesizes tokens inside invocation.after := by
  unfold Definition.invocation? at found
  split at found
  · cases found
  rename_i opening rest shape
  split at found
  · rename_i opens
    rcases Option.map_eq_some_iff.mp found with ⟨raw, rawFound, rfl⟩
    rw [collect_eq] at rawFound
    rcases Option.map_eq_some_iff.mp rawFound with ⟨place, isFirst, rfl⟩
    rcases head?_outerPlaces_eq_some_iff.mp isFirst with
      ⟨inside, closing, after, rfl, rfl, closes, leveled, noEarlier⟩
    refine ⟨inside, tokens.takeWhile Token.isBlank, opening, closing, ?_,
      fun token => List.mem_takeWhile_imp, opens, closes, ?_, noEarlier⟩
    · have behind : (inside ++ closing :: after).drop (inside.length + 1) = after := by
        rw [List.drop_length_add_append]
        rfl
      rw [behind, ← shape, List.takeWhile_append_dropWhile]
    · rw [← leveled]
      exact (Int.zero_add _).symm
  · cases found

/-- There is an argument list exactly if the first token that is not blank is a parenthesis
that is closed.  Then the arguments are what stands between the two parentheses, cut at its
commas and each without the blanks around it, and nothing behind the second parenthesis is
taken. -/
theorem Definition.invocation?_iff_parenthesizes (definition : Definition) (tokens : List Token) :
    ((∃ invocation, definition.invocation? tokens = some invocation) ↔
        ∃ inside after, Parenthesizes tokens inside after) ∧
      ∀ inside after, Parenthesizes tokens inside after ->
        ∃ arguments, definition.invocation? tokens = some ⟨arguments, after⟩ ∧
          List.Forall₂ Trims (cutAt 0 (definition.cuts inside) inside) arguments := by
  refine ⟨⟨?_, ?_⟩, fun inside after encloses => ?_⟩
  · rintro ⟨invocation, found⟩
    rcases exists_parenthesizes_of_invocation? found with ⟨inside, encloses⟩
    exact ⟨inside, invocation.after, encloses⟩
  · rintro ⟨inside, after, encloses⟩
    exact ⟨_, encloses.invocation?_eq definition⟩
  · refine ⟨_, encloses.invocation?_eq definition, ?_⟩
    rw [List.forall₂_map_right_iff, List.forall₂_same]
    exact fun stretch _ => trims_trimBlanks stretch

/-- A macro with a parameter and one that takes the rest. -/
def logging : Definition :=
  { parameters := ["level", Definition.variadicName], isFunction := true, isVariadic := true }

/-- The tokens ` (1, f(a, b), c) d`. -/
def behindLogging : List Token :=
  [⟨.whitespace, 1, " "⟩, ⟨.punctuator, 1, "("⟩, ⟨.number, 1, "1"⟩, ⟨.punctuator, 1, ","⟩,
    ⟨.whitespace, 1, " "⟩, ⟨.identifier, 1, "f"⟩, ⟨.punctuator, 1, "("⟩, ⟨.identifier, 1, "a"⟩,
    ⟨.punctuator, 1, ","⟩, ⟨.identifier, 1, "b"⟩, ⟨.punctuator, 1, ")"⟩, ⟨.punctuator, 1, ","⟩,
    ⟨.identifier, 1, "c"⟩, ⟨.punctuator, 1, ")"⟩, ⟨.whitespace, 1, " "⟩, ⟨.identifier, 1, "d"⟩]

/-- The arguments `1` and `f(a,b),c`. -/
def loggedArguments : List (List Token) :=
  [[⟨.number, 1, "1"⟩],
    [⟨.identifier, 1, "f"⟩, ⟨.punctuator, 1, "("⟩, ⟨.identifier, 1, "a"⟩, ⟨.punctuator, 1, ","⟩,
      ⟨.identifier, 1, "b"⟩, ⟨.punctuator, 1, ")"⟩, ⟨.punctuator, 1, ","⟩, ⟨.identifier, 1, "c"⟩]]

/-- The last argument takes all that is left, but not the blank in front of it. -/
theorem invocation?_iff_parenthesizes_logging :
    Parenthesizes behindLogging ((behindLogging.drop 2).take 11) (behindLogging.drop 14) ∧
      logging.invocation? behindLogging = some ⟨loggedArguments, behindLogging.drop 14⟩ ∧
      List.Forall₂ Trims (cutAt 0 (logging.cuts ((behindLogging.drop 2).take 11))
        ((behindLogging.drop 2).take 11)) loggedArguments := by
  have encloses : Parenthesizes behindLogging ((behindLogging.drop 2).take 11)
      (behindLogging.drop 14) :=
    ⟨[⟨.whitespace, 1, " "⟩], ⟨.punctuator, 1, "("⟩, ⟨.punctuator, 1, ")"⟩, by decide, by decide,
      by decide, by decide, by decide, by decide⟩
  have found : logging.invocation? behindLogging =
      some ⟨loggedArguments, behindLogging.drop 14⟩ := by decide +kernel
  rcases (logging.invocation?_iff_parenthesizes behindLogging).2 _ _ encloses with
    ⟨arguments, taken, trims⟩
  cases found.symm.trans taken
  exact ⟨encloses, found, trims⟩

end Macro
end ObjectWrapper
