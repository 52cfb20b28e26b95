namespace ObjectWrapper

/-!
# Readings and steps that may fail

What a reading that consists of others yields, it yields by way of what they yield, and it
fails because one of them does.  A step that begins with another one goes on from where that
ends.
-/

variable {fault α β : Type} {first : Except fault α} {result : β}

theorem exists_of_bind_eq_ok {next : α -> Except fault β} (ran : first >>= next = .ok result) :
    ∃ outcome, first = .ok outcome ∧ next outcome = .ok result := by
  cases first with
  | error cause => cases ran
  | ok outcome => exact ⟨outcome, rfl, ran⟩

theorem exists_of_map_eq_ok {change : α -> β} (ran : first.map change = .ok result) :
    ∃ outcome, first = .ok outcome ∧ change outcome = result := by
  cases first with
  | error cause => cases ran
  | ok outcome => exact ⟨outcome, rfl, Except.ok.inj ran⟩

theorem eq_error_of_map_eq_error {change : α -> β} {cause : fault}
    (failed : first.map change = .error cause) : first = .error cause := by
  cases first with
  | ok outcome => cases failed
  | error other =>
      cases failed
      rfl

theorem eq_error_of_bind_eq_error {next : α -> β} {cause : fault}
    (failed : (first >>= fun outcome => .ok (next outcome)) = .error cause) :
    first = .error cause :=
  eq_error_of_map_eq_error failed

/-! ## Steps -/

section

variable {trouble state : Type} {step other : EStateM trouble state α}
  {next otherNext : α -> EStateM trouble state β} {before elsewhere after : state}

theorem bind_of_ok {outcome : α} (succeeds : step before = .ok outcome after) :
    (step >>= next) before = next outcome after := by
  change EStateM.bind step next before = _
  rw [EStateM.bind, succeeds]

theorem bind_of_error {cause : trouble} (fails : step before = .error cause after) :
    (step >>= next) before = .error cause after := by
  change EStateM.bind step next before = _
  rw [EStateM.bind, fails]

/-- A step that only turns the outcome of another one into its own. -/
theorem exists_of_bind_pure_eq_ok {change : α -> β} {outcome : β}
    (ran : (step >>= fun value => pure (change value)) before = .ok outcome after) :
    ∃ value, step before = .ok value after ∧ change value = outcome := by
  cases first : step before with
  | error cause middle => cases (bind_of_error first).symm.trans ran
  | ok value middle =>
      rw [bind_of_ok first] at ran
      cases ran
      exact ⟨value, rfl, rfl⟩

/-- Steps that begin in the same way go on in the same way if they do so from what the first
of them can come to. -/
theorem bind_eq_bind (same : step before = other elsewhere)
    (go : ∀ outcome after, step before = .ok outcome after ->
      next outcome after = otherNext outcome after) :
    (step >>= next) before = (other >>= otherNext) elsewhere := by
  cases ran : step before with
  | ok outcome after =>
      rw [bind_of_ok ran, bind_of_ok (same.symm.trans ran)]
      exact go outcome after ran
  | error cause after => rw [bind_of_error ran, bind_of_error (same.symm.trans ran)]

theorem get_bind_apply {next : state -> EStateM trouble state β} :
    (get >>= next) before = next before before :=
  rfl

theorem set_bind_apply {next : PUnit -> EStateM trouble state β} :
    (set elsewhere >>= next) before = next ⟨⟩ elsewhere :=
  rfl

theorem modify_bind_apply {change : state -> state} {next : PUnit -> EStateM trouble state β} :
    (modify change >>= next) before = next ⟨⟩ (change before) :=
  rfl

end

end ObjectWrapper
