import ObjectWrapper.Proofs.Preprocess.Faults
import ObjectWrapper.Proofs.Preprocess.Procedure
import ObjectWrapper.Proofs.Preprocess.Splicing

namespace ObjectWrapper
namespace Preprocess

open Source Files Directive

/-!
# Counting nested files from one text to the next

A preprocessor that is used for many texts can keep a counter of the included files that it is
reading, instead of telling from what is interrupted how deep it is.  Entering a file adds one,
and leaving it takes one away.  A file is also left when it is refused, and then all the files
that it interrupts are left one after the other, so the counter has to be brought back in each
of them.  A file that cannot be read is refused between the two: it has been let in and listed,
but not counted, and only the files that it would have interrupted are left.  Whether a file may
be entered is decided by the counter alone; should it ever be left too high, later texts would be
refused for no fault of their own.

It is not.  While a file is read or left, the counter is the number of interrupted files, so it
is back at zero whenever a text has been dealt with.  What is made of each text is then what
`preprocess` makes of it, and a text is refused for nesting too deeply only if it nests too
deeply itself.
-/

/-! ## A preprocessor with a counter -/

/-- What a preprocessor keeps from one text to the next. -/
structure Memory where
  state : State
  /-- How many included files are being read, as far as has been counted. -/
  depth : Nat

/-- A file is left. -/
def Memory.leave (memory : Memory) : Memory :=
  { memory with depth := memory.depth - 1 }

/-- What a preprocessor is doing. -/
inductive Activity where
  /-- It reads a file, as in `Situation.reading`. -/
  | reading (current : Reading) (interrupted : List Interruption) (memory : Memory)
      (brought : List Token)
  /-- It leaves the files that are interrupted, because of a refusal. -/
  | leaving (refusal : Refusal) (interrupted : List Interruption) (memory : Memory)
  /-- It has dealt with the text. -/
  | ended (answer : Except Refusal (List Token)) (memory : Memory)

namespace Activity

/-- A text before it is read. -/
def start (submission : Submission) (memory : Memory) : Activity :=
  .reading (.start submission.file (tokenize (ByteText.ofBytes submission.bytes))) [] memory []

/-- Obey a directive.  A file is entered, or refused, by what the counter says, which is raised
only when the file has been read. -/
def obey (setup : Setup) (current : Reading) (interrupted : List Interruption) (memory : Memory)
    (brought : List Token) (heading : Heading) : Activity :=
  match enteredFile? setup current heading.request memory.state with
  | some (found, entered) =>
    if memory.depth < depthLimit then
      match found.content with
      | .unreadable failure =>
        .leaving ⟨current.file, heading.line, .unreadable failure.reason⟩ interrupted
          { memory with state := entered }
      | .bytes content =>
        .reading (.start found.path (tokenize (ByteText.ofBytes content)))
          (⟨current.behind heading current.groups, heading.line⟩ :: interrupted)
          ⟨entered, memory.depth + 1⟩ (brought ++ [⟨.includeBegin, heading.line, found.path⟩])
    else
      .leaving ⟨current.file, heading.line, .includesTooDeep⟩ interrupted
        { memory with state := entered }
  | none =>
    match perform setup none ⟨current.file, heading.line⟩ current.groups heading.request
        memory.state with
    | .ok done after =>
      .reading (current.behind heading done.1) interrupted { memory with state := after }
        (brought ++ done.2)
    | .error refusal after => .leaving refusal interrupted { memory with state := after }

/-- What follows the end of a file: the innermost file that it interrupts goes on. -/
def after (interrupted : List Interruption) (memory : Memory) (brought : List Token) : Activity :=
  match interrupted with
  | [] => .ended (.ok brought) memory
  | outer :: rest =>
    .reading outer.reading rest memory.leave (brought ++ [⟨.includeEnd, outer.line, ""⟩])

/-- The next round. -/
def next (setup : Setup) : Activity -> Activity
  | .reading current interrupted memory brought =>
    let expanded := brought ++ Macro.expand memory.state.macros current.pending
    match current.heading? with
    | some heading => obey setup current interrupted memory expanded heading
    | none =>
      match current.left with
      | token :: rest => .reading (current.takeUp token rest) interrupted memory brought
      | [] =>
        if current.groups.isEmpty then after interrupted memory expanded
        else .leaving ⟨current.file, current.lastLine, .unterminated⟩ interrupted memory
  | .leaving refusal (_ :: outer) memory => .leaving refusal outer memory.leave
  | .leaving refusal [] memory => .ended (.error refusal) memory
  | .ended answer memory => .ended answer memory

/-- What is kept. -/
def memory : Activity -> Memory
  | .reading _ _ memory _ | .leaving _ _ memory | .ended _ memory => memory

/-- The second activity arises from the first one, some rounds later. -/
def LeadsTo (setup : Setup) (first second : Activity) : Prop :=
  ∃ rounds, (next setup)^[rounds] first = second

/-! ## What a round does -/

/-- How many files are interrupted. -/
def interruptions : Activity -> Nat
  | .reading _ interrupted _ _ | .leaving _ interrupted _ => interrupted.length
  | .ended _ _ => 0

/-- The counter is the number of files that are interrupted, of which there are not too many. -/
structure Counts (activity : Activity) : Prop where
  counted : activity.memory.depth = activity.interruptions
  bounded : activity.interruptions ≤ depthLimit

end Activity

/-- At this point of a text, as many files are interrupted as may be, and an active directive
includes a file that has not been included.  The refusal names the directive. -/
inductive NestsTooDeeply (setup : Setup) : Activity -> Refusal -> Prop where
  | intro {current : Reading} {interrupted : List Interruption} {memory : Memory}
      {brought tokens : List Token} {heading : Heading} {found : NamedFile} {entered : State}
      (full : interrupted.length = depthLimit) (active : isActive current.groups = true)
      (here : current.heading? = some heading) (includes : heading.request = .include tokens)
      (finds : newFile? setup current.file tokens memory.state = some (found, entered))
      (isNew : found.location ∉ memory.state.included) :
      NestsTooDeeply setup (.reading current interrupted memory brought)
        ⟨current.file, heading.line, .includesTooDeep⟩

/-- What a round can lead to. -/
inductive Turn (setup : Setup) : Activity -> Activity -> Prop where
  /-- The file goes on. -/
  | forward {current later : Reading} {interrupted : List Interruption} {memory : Memory}
      {after : State} {brought more : List Token} (same : after.included = memory.state.included) :
      Turn setup (.reading current interrupted memory brought)
        (.reading later interrupted { memory with state := after } more)
  /-- The file is interrupted by one that has not been included. -/
  | enters {current inner : Reading} {interrupted : List Interruption} {outer : Interruption}
      {memory : Memory} {found : NamedFile} {entered : State} {brought more : List Token}
      (allowed : interrupted.length < depthLimit)
      (listed : entered.included = found.location :: memory.state.included) :
      Turn setup (.reading current interrupted memory brought)
        (.reading inner (outer :: interrupted) ⟨entered, memory.depth + 1⟩ more)
  /-- The file is done, and the one that it interrupts goes on. -/
  | returns {current : Reading} {rest : List Interruption} {outer : Interruption}
      {memory : Memory} {brought more : List Token} :
      Turn setup (.reading current (outer :: rest) memory brought)
        (.reading outer.reading rest memory.leave more)
  /-- The file is done, and it interrupts none. -/
  | ends {current : Reading} {memory : Memory} {brought more : List Token} :
      Turn setup (.reading current [] memory brought) (.ended (.ok more) memory)
  | refused {current : Reading} {interrupted : List Interruption} {memory : Memory}
      {after : State} {brought : List Token} {refusal : Refusal}
      (kept : memory.state.included <:+ after.included)
      (blames : refusal.fault = .includesTooDeep ->
        NestsTooDeeply setup (.reading current interrupted memory brought) refusal) :
      Turn setup (.reading current interrupted memory brought)
        (.leaving refusal interrupted { memory with state := after })
  /-- A refused file is left, and next the one that it interrupts. -/
  | leaves {refusal : Refusal} {outer : Interruption} {rest : List Interruption}
      {memory : Memory} :
      Turn setup (.leaving refusal (outer :: rest) memory) (.leaving refusal rest memory.leave)
  | answers {refusal : Refusal} {memory : Memory} :
      Turn setup (.leaving refusal [] memory) (.ended (.error refusal) memory)
  | rests {answer : Except Refusal (List Token)} {memory : Memory} :
      Turn setup (.ended answer memory) (.ended answer memory)

section

variable {setup : Setup} {current : Reading} {interrupted : List Interruption} {memory : Memory}
  {brought : List Token}

/-- Whatever the step comes to, it has included no file and is not refused for nesting too
deeply. -/
def StaysInside {α : Type} (step : Step α) (state : State) : Prop :=
  Meets step state (fun _ after => after.included = state.included)
    (fun refusal after => after.included = state.included ∧ refusal.fault ≠ .includesTooDeep)

theorem LeavesState.staysInside {α : Type} {step : Step α} (leaves : LeavesState step)
    (reads : ReadsTokens step) (state : State) : StaysInside step state := by
  apply ((leaves state).and (reads state)).mono
  · exact fun _ _ same => congrArg State.included same.1
  · rintro refusal after ⟨rfl, inTokens⟩
    refine ⟨rfl, fun tooDeep => ?_⟩
    rw [tooDeep] at inTokens
    cases inTokens

theorem StaysInside.map {α β : Type} {step : Step α} {state : State}
    (stays : StaysInside step state) (chosen : α -> β) :
    StaysInside (step >>= fun answer => pure (chosen answer)) state := by
  unfold StaysInside
  rw [meets_bind]
  exact stays

theorem staysInside_splice {place : Place} {tokens : List Token} {state : State}
    (finds : newFile? setup place.file tokens state = none) :
    StaysInside (splice setup none place tokens) state := by
  unfold StaysInside Meets
  rcases splice_of_newFile?_eq_none finds with refused | ⟨consulted, skipped⟩
  · rw [refused none]
    exact ⟨rfl, fun tooDeep => nomatch tooDeep⟩
  · rw [skipped none]

theorem staysInside_obey {place : Place} {request : Request} {state : State}
    (finds : ∀ tokens, request = .include tokens ->
      newFile? setup place.file tokens state = none) :
    StaysInside (Preprocess.obey setup none place request) state := by
  by_cases includes : ∃ tokens, request = .include tokens
  · rcases includes with ⟨tokens, rfl⟩
    exact staysInside_splice (finds tokens rfl)
  · have plain : ∀ tokens, request ≠ .include tokens := fun tokens asked =>
      includes ⟨tokens, asked⟩
    have kept : Meets (Preprocess.obey setup none place request) state
        (fun _ after => after.included = state.included)
        (fun _ after => after.included = state.included) := by
      apply meets_obey_of_splice
      · rfl
      · exact fun _ => rfl
      · exact fun _ _ _ _ => rfl
      · exact fun _ => rfl
      · exact fun tokens asked => absurd asked (plain tokens)
    apply (kept.and (readsTokens_obey request plain state)).mono
    · exact fun _ _ same => same.1
    · rintro refusal after ⟨same, inTokens⟩
      refine ⟨same, fun tooDeep => ?_⟩
      rw [tooDeep] at inTokens
      cases inTokens

/-- A directive that enters no file includes none, and is not refused for nesting too deeply. -/
theorem staysInside_perform {request : Request} {state : State}
    (stays : enteredFile? setup current request state = none) (line : Nat) :
    StaysInside (perform setup none ⟨current.file, line⟩ current.groups request) state := by
  have finds : isActive current.groups = true -> ∀ tokens, request = .include tokens ->
      newFile? setup current.file tokens state = none := by
    rintro active tokens rfl
    simpa only [enteredFile?, active, if_true] using stays
  generalize current.groups = groups at finds ⊢
  have unchanged : ∀ done : List Group × List Token, StaysInside (pure done) state :=
    fun _ => rfl
  have obeys : isActive groups = true ->
      StaysInside (Preprocess.obey setup none ⟨current.file, line⟩ request) state :=
    fun active => staysInside_obey (finds active)
  have asks : ∀ (question : Step Bool) (chosen : Bool -> List Group × List Token),
      LeavesState question -> ReadsTokens question ->
      StaysInside (question >>= fun holds => pure (chosen holds)) state :=
    fun question chosen leaves reads => (leaves.staysInside reads state).map chosen
  have misplaced : ∀ fault : Fault, fault ≠ .includesTooDeep ->
      StaysInside (refuse ⟨current.file, line⟩ fault : Step (List Group × List Token)) state :=
    fun _ other => ⟨rfl, other⟩
  unfold perform
  simp only
  split
  · split
    · exact asks _ _ (leavesState_conditionHolds _ _) (readsTokens_conditionHolds _ _)
    · exact unchanged _
  · split
    · exact asks _ _ (leavesState_nameHolds _ _ _) (readsTokens_nameHolds _ _ _)
    · exact unchanged _
  · exact misplaced _ fun other => Fault.noConfusion other
  · split
    · exact misplaced _ fun other => Fault.noConfusion other
    · split
      · exact asks _ _ (leavesState_conditionHolds _ _) (readsTokens_conditionHolds _ _)
      · exact unchanged _
  · exact misplaced _ fun other => Fault.noConfusion other
  · split
    · exact misplaced _ fun other => Fault.noConfusion other
    · exact unchanged _
  · exact misplaced _ fun other => Fault.noConfusion other
  · exact unchanged _
  · split
    · rename_i active
      exact (obeys active).map fun brought => (groups, brought)
    · exact unchanged _

theorem Activity.turn_obey {heading : Heading} (found : current.heading? = some heading)
    (counts : Counts (.reading current interrupted memory brought)) (more : List Token) :
    Turn setup (.reading current interrupted memory brought)
      (obey setup current interrupted memory more heading) := by
  have counted : memory.depth = interrupted.length := counts.counted
  have bounded : interrupted.length ≤ depthLimit := counts.bounded
  unfold obey
  split
  · rename_i file entered enters
    rcases of_enteredFile?_eq_some enters with ⟨isNew, listed⟩
    split
    · rename_i allowed
      split
      · exact .refused (listed ▸ List.suffix_cons _ _) fun tooDeep => nomatch tooDeep
      · exact .enters (counted ▸ allowed) listed
    · rename_i full
      refine .refused (listed ▸ List.suffix_cons _ _) fun _ => ?_
      unfold enteredFile? at enters
      split at enters
      · rename_i tokens includes
        split at enters
        · rename_i active
          exact .intro (by omega) active found includes enters isNew
        · cases enters
      · cases enters
  · rename_i stays
    have meets := staysInside_perform stays heading.line
    unfold StaysInside Meets at meets
    split at meets
    · rename_i done after ran
      rw [ran]
      exact .forward meets
    · rename_i refusal after ran
      rw [ran]
      exact .refused (meets.1 ▸ List.suffix_rfl) fun tooDeep => absurd tooDeep meets.2

theorem Activity.turn_next {activity : Activity} (counts : activity.Counts) :
    Turn setup activity (activity.next setup) := by
  match activity with
  | .ended answer memory => exact .rests
  | .leaving refusal [] memory => exact .answers
  | .leaving refusal (outer :: rest) memory => exact .leaves
  | .reading current interrupted memory brought =>
      unfold next
      simp only
      split
      · rename_i heading found
        exact turn_obey found counts _
      · split
        · exact .forward rfl
        · split
          · cases interrupted with
            | nil => exact .ends
            | cons outer rest => exact .returns
          · exact .refused List.suffix_rfl fun tooDeep => nomatch tooDeep

end

theorem Turn.counts {setup : Setup} {first second : Activity} (turn : Turn setup first second)
    (counts : first.Counts) : second.Counts := by
  rcases counts with ⟨counted, bounded⟩
  cases turn with
  | forward | ends | refused | answers | rests => exact ⟨counted, bounded⟩
  | enters allowed => exact ⟨congrArg (· + 1) counted, allowed⟩
  | returns | leaves =>
      exact ⟨congrArg (· - 1) counted, Nat.le_of_succ_le bounded⟩

theorem Turn.included {setup : Setup} {first second : Activity} (turn : Turn setup first second) :
    first.memory.state.included <:+ second.memory.state.included := by
  cases turn with
  | forward same => exact same ▸ List.suffix_rfl
  | enters _ listed => exact listed ▸ List.suffix_cons _ _
  | refused kept => exact kept
  | returns | ends | leaves | answers | rests => exact List.suffix_rfl

/-! ## What a whole run does -/

/-- An answer, with the state that is left behind. -/
def ending (answer : Except Refusal (List Token)) (state : State) : Ending :=
  match answer with
  | .ok tokens => .ok tokens state
  | .error refusal => .error refusal state

namespace Activity

/-- What the activity amounts to without the counter: once a file is refused, nothing is read
any more. -/
def situation : Activity -> Situation
  | .reading current interrupted memory brought =>
    .reading current interrupted memory.state brought
  | .leaving refusal _ memory => .ended (.error refusal memory.state)
  | .ended answer memory => .ended (ending answer memory.state)

/-- The refusal that has ended the text, or is about to. -/
def refusal? : Activity -> Option Refusal
  | .leaving refusal _ _ | .ended (.error refusal) _ => some refusal
  | .reading _ _ _ _ | .ended (.ok _) _ => none

section

variable {setup : Setup} {first second : Activity}

theorem situation_obey {current : Reading} {interrupted : List Interruption} {memory : Memory}
    (counted : memory.depth = interrupted.length) (brought : List Token) (heading : Heading) :
    (obey setup current interrupted memory brought heading).situation =
      current.obey setup interrupted memory.state brought heading := by
  unfold obey Reading.obey
  cases enteredFile? setup current heading.request memory.state with
  | some entry =>
      rcases entry with ⟨⟨path, location, content⟩, entered⟩
      simp only [counted]
      split
      · cases content <;> rfl
      · rfl
  | none =>
      simp only
      cases perform setup none ⟨current.file, heading.line⟩ current.groups heading.request
        memory.state <;> rfl

/-- As long as the counter is right, a round does what it does without one. -/
theorem situation_next {activity : Activity} (counts : activity.Counts) :
    (activity.next setup).situation = activity.situation.next setup := by
  match activity with
  | .ended (.ok _) _ | .ended (.error _) _ | .leaving _ [] _ | .leaving _ (_ :: _) _ => rfl
  | .reading current interrupted memory brought =>
      unfold next Situation.next situation
      simp only
      cases current.heading? with
      | some heading => exact situation_obey counts.counted _ heading
      | none =>
          cases current.left with
          | cons token rest => rfl
          | nil =>
              cases current.groups.isEmpty with
              | false => rfl
              | true =>
                  cases interrupted <;>
                    simp [after, Situation.after, ending, Memory.leave]

end

end Activity

theorem Turn.blames {setup : Setup} {first second : Activity} (turn : Turn setup first second)
    {refusal : Refusal} (refused : second.refusal? = some refusal)
    (tooDeep : refusal.fault = .includesTooDeep) :
    first.refusal? = some refusal ∨ NestsTooDeeply setup first refusal := by
  cases turn with
  | forward | enters | returns | ends => cases refused
  | refused kept blames =>
      cases refused
      exact .inr (blames tooDeep)
  | leaves | answers | rests => exact .inl refused

namespace Activity

/-- What has come of an activity some rounds later. -/
structure Reaches (setup : Setup) (first : Activity) (rounds : Nat) (reached : Activity) : Prop
    where
  counts : reached.Counts
  situation : reached.situation = (Situation.next setup)^[rounds] first.situation
  kept : first.memory.state.included <:+ reached.memory.state.included
  /-- If the text is refused for nesting too deeply, then it has done so on the way. -/
  blames : ∀ refusal, reached.refusal? = some refusal -> refusal.fault = .includesTooDeep ->
    ∃ before, LeadsTo setup first before ∧ NestsTooDeeply setup before refusal

section

variable {setup : Setup}

theorem reaches_iterate (setup : Setup) {first : Activity} (counts : first.Counts)
    (unrefused : first.refusal? = none) (rounds : Nat) :
    Reaches setup first rounds ((next setup)^[rounds] first) := by
  induction rounds with
  | zero =>
      refine ⟨counts, rfl, List.suffix_rfl, fun refusal refused => ?_⟩
      cases unrefused.symm.trans refused
  | succ rounds ih =>
      have turn : Turn setup _ _ := turn_next ih.counts
      rw [Function.iterate_succ_apply']
      refine ⟨turn.counts ih.counts, ?_, ih.kept.trans turn.included, ?_⟩
      · rw [situation_next ih.counts, ih.situation, Function.iterate_succ_apply']
      · intro refusal refused tooDeep
        rcases turn.blames refused tooDeep with already | nests
        · exact ih.blames refusal already tooDeep
        · exact ⟨_, ⟨rounds, rfl⟩, nests⟩

/-- All files that a refused one interrupts are left. -/
theorem leadsTo_of_leaving (refusal : Refusal) {interrupted : List Interruption} {memory : Memory}
    (counted : memory.depth = interrupted.length) :
    LeadsTo setup (.leaving refusal interrupted memory)
      (.ended (.error refusal) ⟨memory.state, 0⟩) := by
  induction interrupted generalizing memory with
  | nil =>
      rcases memory with ⟨state, depth⟩
      cases counted
      exact ⟨1, rfl⟩
  | cons outer rest ih =>
      rcases @ih memory.leave (congrArg (· - 1) counted) with ⟨rounds, arises⟩
      exact ⟨rounds + 1, arises⟩

theorem LeadsTo.trans {first second third : Activity} (before : LeadsTo setup first second)
    (behind : LeadsTo setup second third) : LeadsTo setup first third := by
  rcases before with ⟨rounds, rfl⟩
  rcases behind with ⟨more, rfl⟩
  exact ⟨more + rounds, Function.iterate_add_apply _ more rounds first⟩

/-- What has ended stays as it is. -/
theorem iterate_ended (answer : Except Refusal (List Token)) (memory : Memory) (rounds : Nat) :
    (next setup)^[rounds] (.ended answer memory) = .ended answer memory :=
  Function.iterate_fixed rfl rounds

/-- A text has one answer. -/
theorem LeadsTo.ended_unique {first : Activity} {answer other : Except Refusal (List Token)}
    {memory otherMemory : Memory} (leads : LeadsTo setup first (.ended answer memory))
    (otherLeads : LeadsTo setup first (.ended other otherMemory)) :
    answer = other ∧ memory = otherMemory := by
  rcases leads with ⟨rounds, arises⟩
  rcases otherLeads with ⟨otherRounds, otherArises⟩
  have both := Function.iterate_add_apply (next setup) otherRounds rounds first
  rw [Nat.add_comm, Function.iterate_add_apply, arises, otherArises, iterate_ended,
    iterate_ended] at both
  cases both
  exact ⟨rfl, rfl⟩

theorem counts_start (submission : Submission) {memory : Memory} (atTop : memory.depth = 0) :
    (start submission memory).Counts :=
  ⟨atTop, Nat.zero_le depthLimit⟩

/-- Begun at the top, a text ends with what `preprocess` makes of it, at the top again. -/
theorem exists_leadsTo_ended (setup : Setup) (submission : Submission) {memory : Memory}
    (atTop : memory.depth = 0) :
    ∃ answer after, LeadsTo setup (start submission memory) (.ended answer ⟨after, 0⟩) ∧
      preprocess setup submission.file submission.bytes memory.state = ending answer after := by
  have through := leadsThrough setup depthLimit submission.file
    (tokenize (ByteText.ofBytes submission.bytes)) [] memory.state [] rfl
  change Leads setup (start submission memory).situation
    (.after [] [] (preprocess setup submission.file submission.bytes memory.state)) at through
  have toEnd : Situation.after [] []
      (preprocess setup submission.file submission.bytes memory.state) =
      .ended (preprocess setup submission.file submission.bytes memory.state) := by
    cases preprocess setup submission.file submission.bytes memory.state <;> rfl
  rw [toEnd] at through
  rcases through with ⟨rounds, arises⟩
  have reaches := reaches_iterate setup (counts_start submission atTop) rfl rounds
  have leads : LeadsTo setup (start submission memory)
      ((next setup)^[rounds] (start submission memory)) := ⟨rounds, rfl⟩
  have counts := reaches.counts
  have same := reaches.situation.trans arises
  generalize (next setup)^[rounds] (start submission memory) = reached at counts same leads
  cases reached with
  | reading => cases same
  | leaving refusal interrupted later =>
      exact ⟨.error refusal, later.state,
        leads.trans (leadsTo_of_leaving refusal counts.counted), (Situation.ended.inj same).symm⟩
  | ended answer later =>
      rcases later with ⟨after, depth⟩
      cases counts.counted
      exact ⟨answer, after, leads, (Situation.ended.inj same).symm⟩

end

end Activity

/-! ## Texts one after the other -/

/-- A text that is dealt with, and what is kept before and after. -/
structure Call where
  submission : Submission
  before : Memory
  answer : Except Refusal (List Token)
  after : Memory

/-- The preprocessor begins to read the text, and gives the answer at last. -/
def Call.Happens (setup : Setup) (call : Call) : Prop :=
  Activity.LeadsTo setup (.start call.submission call.before) (.ended call.answer call.after)

/-- Each call begins with what the one before it keeps, whatever that has answered. -/
inductive Calls (setup : Setup) : Memory -> List Call -> Prop where
  | nil {memory : Memory} : Calls setup memory []
  | cons {call : Call} {rest : List Call} :
      call.Happens setup -> Calls setup call.after rest -> Calls setup call.before (call :: rest)

/-- Of a call: it does what `preprocess` does, ends at the top, forgets no included file, and
is refused for nesting too deeply only if its own text does so. -/
structure Call.Sound (setup : Setup) (call : Call) : Prop where
  agrees : preprocess setup call.submission.file call.submission.bytes call.before.state =
    ending call.answer call.after.state
  atTop : call.after.depth = 0
  kept : call.before.state.included ⊆ call.after.state.included
  blames : ∀ refusal, call.answer = .error refusal -> refusal.fault = .includesTooDeep ->
    ∃ reached, Activity.LeadsTo setup (.start call.submission call.before) reached ∧
      NestsTooDeeply setup reached refusal

theorem Call.Happens.sound {setup : Setup} {call : Call} (happens : call.Happens setup)
    (atTop : call.before.depth = 0) : call.Sound setup := by
  rcases Activity.exists_leadsTo_ended setup call.submission atTop with
    ⟨answer, after, ends, agrees⟩
  rcases Activity.LeadsTo.ended_unique happens ends with ⟨sameAnswer, sameMemory⟩
  rcases happens with ⟨rounds, arises⟩
  have reaches := Activity.reaches_iterate setup
    (Activity.counts_start call.submission atTop) rfl rounds
  rw [arises] at reaches
  refine ⟨?_, reaches.counts.counted, reaches.kept.subset, ?_⟩
  · rw [agrees, sameAnswer, sameMemory]
  · intro refusal answered tooDeep
    apply reaches.blames refusal _ tooDeep
    rw [answered]
    rfl

theorem Calls.sound {setup : Setup} {memory : Memory} {calls : List Call}
    (happen : Calls setup memory calls) (atTop : memory.depth = 0) :
    ∀ call ∈ calls, call.Sound setup := by
  induction happen with
  | nil => exact fun call member => nomatch member
  | cons happens _ ih =>
      have sound := happens.sound atTop
      intro other member
      rcases List.mem_cons.mp member with rfl | later
      · exact sound
      · exact ih sound.atTop other later

theorem exists_calls (setup : Setup) (submissions : List Submission) {memory : Memory}
    (atTop : memory.depth = 0) :
    ∃ calls : List Call,
      calls.map Call.submission = submissions ∧ Calls setup memory calls := by
  induction submissions generalizing memory with
  | nil => exact ⟨[], rfl, .nil⟩
  | cons submission rest ih =>
      rcases Activity.exists_leadsTo_ended setup submission atTop with
        ⟨answer, after, leads, _⟩
      rcases @ih ⟨after, 0⟩ rfl with ⟨calls, same, follow⟩
      let call : Call := ⟨submission, memory, answer, ⟨after, 0⟩⟩
      have happens : call.Happens setup := leads
      exact ⟨call :: calls, congrArg (submission :: ·) same, .cons happens follow⟩

/-- Whatever texts are preprocessed one after the other, and wherever any of them is refused,
every text is dealt with.  After each of them no file is being read as far as has been counted,
and the files that were listed as included before it still are.  A text is refused for nesting
too deeply only if it comes to an include of a new file itself, inside as many files of its own
as may be. -/
theorem calls_happen_and_sound (setup : Setup) (macros : Macro.Table) :
    (∀ submissions : List Submission, ∃ calls : List Call,
        calls.map Call.submission = submissions ∧ Calls setup ⟨.initial macros, 0⟩ calls) ∧
      ∀ calls : List Call, Calls setup ⟨.initial macros, 0⟩ calls ->
        ∀ call ∈ calls, call.Sound setup :=
  ⟨fun submissions => exists_calls setup submissions rfl, fun _ happen => happen.sound rfl⟩

/-- The file system holds one file, which nobody may read. -/
def onlyClosedFile : View := fun path =>
  if path = "b.h" then some (.file ["b.h"] (.unreadable ⟨false, "Permission denied"⟩)) else none

/-- The call is refused at the file and lists it; the counter is where it has been. -/
example :
    let reached := (Activity.next ⟨onlyClosedFile, []⟩)^[4]
      (.start ⟨"a.h", "x\n#include \"b.h\"\n".toUTF8.toList⟩ ⟨.initial .empty, 0⟩)
    reached.refusal? = some ⟨"a.h", 2, .unreadable "Permission denied"⟩ ∧
      reached.memory.state.included = [["b.h"]] ∧ reached.memory.depth = 0 := by
  decide +kernel

end Preprocess
end ObjectWrapper
