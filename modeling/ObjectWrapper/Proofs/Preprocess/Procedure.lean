import Mathlib.Logic.Function.Iterate
import ObjectWrapper.Proofs.Preprocess.Clause
import ObjectWrapper.Proofs.Preprocess.Steps

namespace ObjectWrapper
namespace Preprocess

open Source Files Directive

/-!
# Preprocessing round by round

Preprocessing can also be read as a procedure that goes through the tokens of a file from front
to back, in rounds.  A round takes up one token, or obeys a directive at the start of a line.
An include directive that finds a file which has not been included interrupts the file in which
it stands, unless the new file cannot be read; when the tokens of the new file are used up, the
file that it interrupts goes on behind the directive.

Nothing here presupposes that this comes to an end.  The main statement is that it does, with
what `preprocess` yields, whichever files include each other and under whatever paths: each
round uses up tokens of the file it belongs to, and a file is entered only if it has not been
included and can be read, and if fewer files are interrupted than may be.
-/

/-! ## The procedure -/

/-- How far a file has been read. -/
structure Reading where
  file : String
  lastLine : Nat
  /-- The groups that are open. -/
  groups : List Group
  /-- The text read since the last directive, as far as it counts. -/
  pending : List Token
  /-- The tokens that are left. -/
  left : List Token
  /-- The tokens that are left begin a line. -/
  lineStart : Bool

/-- A file that is interrupted by an include directive. -/
structure Interruption where
  /-- Where the file goes on. -/
  reading : Reading
  /-- The line of the directive. -/
  line : Nat

/-- What preprocessing comes to. -/
abbrev Ending := EStateM.Result Refusal State (List Token)

/-- How far preprocessing has come. -/
inductive Situation where
  /-- A file is being read.  The files that are interrupted are listed from the innermost
  outwards, and what has been brought so far is kept in order. -/
  | reading (current : Reading) (interrupted : List Interruption) (state : State)
      (brought : List Token)
  | ended (ending : Ending)

/-- A file that has not been read yet. -/
def Reading.start (file : String) (tokens : List Token) : Reading :=
  ⟨file, (tokens.getLast?.map Token.line).getD 1, [], [], tokens, true⟩

/-- The directive at which the file goes on. -/
def Reading.heading? (current : Reading) : Option Heading :=
  if current.lineStart then Preprocess.heading? current.left else none

/-- A file of which one more token has been read. -/
def Reading.takeUp (current : Reading) (token : Token) (rest : List Token) : Reading :=
  { current with
    pending := if isActive current.groups then current.pending ++ [token] else current.pending
    left := rest
    lineStart := token.isNewline }

/-- A file behind a directive that leaves the groups open. -/
def Reading.behind (current : Reading) (heading : Heading) (groups : List Group) : Reading :=
  { current with groups := groups, pending := [], left := heading.after, lineStart := false }

/-- What comes after a file, by what the rest of it has come to: the innermost file that it
interrupts goes on. -/
def Situation.after (interrupted : List Interruption) (brought : List Token) :
    Ending -> Situation
  | .error refusal state => .ended (.error refusal state)
  | .ok more state =>
    match interrupted with
    | [] => .ended (.ok (brought ++ more) state)
    | outer :: rest =>
      .reading outer.reading rest state (brought ++ more ++ [⟨.includeEnd, outer.line, ""⟩])

/-- What comes after a directive, by what it has come to: the file goes on behind it. -/
def Reading.after (current : Reading) (heading : Heading) (interrupted : List Interruption)
    (brought : List Token) :
    EStateM.Result Refusal State (List Group × List Token) -> Situation
  | .error refusal state => .ended (.error refusal state)
  | .ok done state =>
    .reading (current.behind heading done.1) interrupted state (brought ++ done.2)

/-- The file that a directive enters, if it does, and the state in which it is entered. -/
def enteredFile? (setup : Setup) (current : Reading) (request : Request) (state : State) :
    Option (NamedFile × State) :=
  match request with
  | .include tokens =>
    if isActive current.groups then newFile? setup current.file tokens state else none
  | _ => none

/-- The round of a directive. -/
def Reading.obey (setup : Setup) (current : Reading) (interrupted : List Interruption)
    (state : State) (brought : List Token) (heading : Heading) : Situation :=
  let place : Place := ⟨current.file, heading.line⟩
  match enteredFile? setup current heading.request state with
  | some (found, entered) =>
    if interrupted.length < depthLimit then
      match found.content with
      | .unreadable failure => .ended (refuse place (.unreadable failure.reason) entered)
      | .bytes content =>
        .reading (.start found.path (tokenize (ByteText.ofBytes content)))
          (⟨current.behind heading current.groups, heading.line⟩ :: interrupted) entered
          (brought ++ [⟨.includeBegin, heading.line, found.path⟩])
    else .ended (refuse place .includesTooDeep entered)
  | none =>
    current.after heading interrupted brought
      (perform setup none place current.groups heading.request state)

/-- The next round. -/
def Situation.next (setup : Setup) : Situation -> Situation
  | .ended ending => .ended ending
  | .reading current interrupted state brought =>
    let expanded := brought ++ Macro.expand state.macros current.pending
    match current.heading? with
    | some heading => current.obey setup interrupted state expanded heading
    | none =>
      match current.left with
      | token :: rest => .reading (current.takeUp token rest) interrupted state brought
      | [] =>
        if current.groups.isEmpty then .after interrupted expanded (.ok [] state)
        else .ended (refuse ⟨current.file, current.lastLine⟩ .unterminated state)

theorem Situation.next_of_heading {setup : Setup} {current : Reading}
    {interrupted : List Interruption} {state : State} {brought : List Token} {heading : Heading}
    (found : current.heading? = some heading) :
    next setup (.reading current interrupted state brought) =
      current.obey setup interrupted state (brought ++ Macro.expand state.macros current.pending)
        heading := by
  unfold next
  simp only [found]

theorem Situation.next_of_token {setup : Setup} {current : Reading}
    {interrupted : List Interruption} {state : State} {brought : List Token} {token : Token}
    {rest : List Token} (absent : current.heading? = none) (shape : current.left = token :: rest) :
    next setup (.reading current interrupted state brought) =
      .reading (current.takeUp token rest) interrupted state brought := by
  unfold next
  simp only [absent, shape]

/-- Preprocessing before its first round. -/
def Situation.start (file : String) (bytes : List UInt8) (state : State) : Situation :=
  .reading (.start file (tokenize (ByteText.ofBytes bytes))) [] state []

/-! ## What a round does -/

/-- The file is read further, so that fewer of its tokens are left, the last ones of them. -/
structure Reading.Forward (current later : Reading) : Prop where
  sameFile : later.file = current.file
  isSuffix : later.left <:+ current.left
  fewer : later.left.length < current.left.length

/-- What a round can lead to. -/
inductive Round (current : Reading) (interrupted : List Interruption) (state : State) :
    Situation -> Prop where
  /-- The file goes on. -/
  | forward {later : Reading} {after : State} {brought : List Token} :
      current.Forward later -> after.included = state.included ->
      Round current interrupted state (.reading later interrupted after brought)
  /-- The file is interrupted by one that has not been included. -/
  | enters {later : Reading} {line : Nat} {found : NamedFile} {content : List UInt8}
      {entered : State} {brought : List Token} :
      current.Forward later -> interrupted.length < depthLimit ->
      found.content = .bytes content -> found.location ∉ state.included ->
      entered.included = found.location :: state.included ->
      Round current interrupted state
        (.reading (.start found.path (tokenize (ByteText.ofBytes content)))
          (⟨later, line⟩ :: interrupted) entered brought)
  /-- The file is done, and the one that it interrupts goes on. -/
  | returns {outer : Interruption} {rest : List Interruption} {brought : List Token} :
      current.left = [] -> interrupted = outer :: rest ->
      Round current interrupted state (.reading outer.reading rest state brought)
  /-- The file is done, and it interrupts none. -/
  | ends {brought : List Token} : current.left = [] -> interrupted = [] ->
      Round current interrupted state (.ended (.ok brought state))
  | refused {refusal : Refusal} {after : State} :
      Round current interrupted state (.ended (.error refusal after))

section

variable {setup : Setup} {current : Reading} {interrupted : List Interruption} {state : State}
  {brought : List Token}

/-- Unless it enters a file, a directive includes none. -/
theorem included_of_perform_none {place : Place} {groups : List Group} {request : Request}
    {done : List Group × List Token} {after : State}
    (ran : perform setup none place groups request state = .ok done after) :
    after.included = state.included := by
  have obeys : Meets (obey setup none place request) state
      (fun _ after => after.included = state.included) (fun _ _ => True) := by
    apply meets_obey_of_splice
    · rfl
    · exact fun _ => trivial
    · exact fun _ _ _ _ => rfl
    · exact fun _ => rfl
    · intro tokens _
      apply meets_splice_of_enters
      · exact fun _ => rfl
      · exact fun _ => trivial
      · exact fun _ _ _ _ => trivial
      · intro process header found content consulted given
        cases given
  exact (meets_perform_of_obey groups request rfl (fun _ => trivial) obeys).of_ok ran

theorem of_enteredFile?_eq_some {request : Request} {found : NamedFile} {entered : State}
    (enters : enteredFile? setup current request state = some (found, entered)) :
    found.location ∉ state.included ∧ entered.included = found.location :: state.included := by
  unfold enteredFile? at enters
  split at enters
  · split at enters
    · rcases exists_of_newFile?_eq_some enters with ⟨_, _, _, absent, rfl⟩
      exact ⟨absent, rfl⟩
    · cases enters
  · cases enters

theorem Reading.forward_takeUp {token : Token} {rest : List Token}
    (shape : current.left = token :: rest) : current.Forward (current.takeUp token rest) := by
  refine ⟨rfl, ?_, ?_⟩
  · rw [shape]
    exact List.suffix_cons token rest
  · rw [shape]
    exact Nat.lt_succ_self _

theorem Reading.forward_behind {heading : Heading} (found : current.heading? = some heading)
    (groups : List Group) : current.Forward (current.behind heading groups) := by
  unfold Reading.heading? at found
  split at found
  · exact ⟨rfl, (heading?_after found).1, (heading?_after found).2⟩
  · cases found

theorem Reading.round_obey {heading : Heading} (found : current.heading? = some heading) :
    Round current interrupted state (current.obey setup interrupted state brought heading) := by
  unfold obey
  simp only
  split
  · rename_i file entered enters
    rcases of_enteredFile?_eq_some enters with ⟨absent, listed⟩
    split
    · rename_i allowed
      split
      · exact .refused
      · rename_i content readable
        exact .enters (forward_behind found current.groups) allowed readable absent listed
    · exact .refused
  · cases ran : perform setup none ⟨current.file, heading.line⟩ current.groups heading.request
        state with
    | ok done after => exact .forward (forward_behind found done.1) (included_of_perform_none ran)
    | error refusal after => exact .refused

theorem Situation.round_next :
    Round current interrupted state (next setup (.reading current interrupted state brought)) := by
  unfold next
  simp only
  split
  · rename_i heading found
    exact Reading.round_obey found
  · split
    · rename_i token rest shape
      exact .forward (Reading.forward_takeUp shape) rfl
    · rename_i shape
      split
      · cases interrupted with
        | nil => exact .ends shape rfl
        | cons outer rest => exact .returns shape rfl
      · exact .refused

end

/-! ## Preprocessing ends -/

/-- The second situation arises from the first one, some rounds later. -/
def Leads (setup : Setup) (first second : Situation) : Prop :=
  ∃ rounds, (Situation.next setup)^[rounds] first = second

theorem Leads.refl (setup : Setup) (situation : Situation) : Leads setup situation situation :=
  ⟨0, rfl⟩

theorem Leads.next {setup : Setup} {first second : Situation}
    (leads : Leads setup (first.next setup) second) : Leads setup first second := by
  rcases leads with ⟨rounds, arises⟩
  exact ⟨rounds + 1, arises⟩

theorem Leads.trans {setup : Setup} {first second third : Situation}
    (before : Leads setup first second) (behind : Leads setup second third) :
    Leads setup first third := by
  rcases before with ⟨rounds, rfl⟩
  rcases behind with ⟨more, rfl⟩
  exact ⟨more + rounds, Function.iterate_add_apply _ more rounds first⟩

/-- What a file has brought before counts as brought. -/
theorem Situation.after_prepend (interrupted : List Interruption) (brought front : List Token)
    (step : Step (List Token)) (state : State) :
    after interrupted brought ((step >>= fun more => pure (front ++ more)) state) =
      after interrupted (brought ++ front) (step state) := by
  cases ran : step state with
  | error refusal behind =>
      rw [bind_of_error ran]
      rfl
  | ok more behind =>
      rw [bind_of_ok ran]
      cases interrupted with
      | nil => simp [pure, EStateM.pure, after]
      | cons outer rest => simp [pure, EStateM.pure, after]

section

variable (setup : Setup) (process? : Option Process) (file : String) (lastLine : Nat)
  (groups : List Group)

/-- The text read since the last directive brings its expansion as far as it counts. -/
theorem processClauses_flush_append (read : List Token) (rest : List Clause) (state : State) :
    processClauses setup process? file lastLine groups (flush read ++ rest) state =
      (processClauses setup process? file lastLine groups rest >>= fun more =>
        pure (Macro.expand state.macros (if isActive groups then read else []) ++ more)) state := by
  rw [apply_ite (Macro.expand state.macros), Macro.expand_nil]
  cases read with
  | nil =>
      rw [Macro.expand_nil, ite_self]
      exact (congrFun (bind_pure _) state).symm
  | cons token more => rfl

end

section

variable {setup : Setup} {current : Reading} {request : Request} {state : State}

/-- A directive that enters no file does not depend on what files are processed with. -/
theorem perform_of_enteredFile?_eq_none {place : Place} (file : current.file = place.file)
    (process? : Option Process) (stays : enteredFile? setup current request state = none) :
    perform setup process? place current.groups request state =
      perform setup none place current.groups request state := by
  match request with
  | .include tokens =>
      cases active : isActive current.groups with
      | false => simp [perform, active]
      | true =>
          simp only [enteredFile?, active, if_true, file] at stays
          simp only [perform, Preprocess.obey, active, if_true]
          refine bind_eq_bind ?_ fun _ _ _ => rfl
          rcases splice_of_newFile?_eq_none stays with refused | ⟨_, skipped⟩
          · rw [refused, refused]
          · rw [skipped, skipped]
  | .elif _ | .otherwise | .endif => cases current.groups <;> rfl
  | .ifHolds _ | .ifDefined _ _ | .define _ | .undefine _ | .ignored => rfl

/-- A directive that enters a file brings what that comes to. -/
theorem perform_of_enteredFile?_eq_some {place : Place} (file : current.file = place.file)
    (process? : Option Process) {found : NamedFile} {entered : State}
    (enters : enteredFile? setup current request state = some (found, entered)) :
    perform setup process? place current.groups request state =
      (enter process? place found >>= fun spliced => pure (current.groups, spliced)) entered := by
  unfold enteredFile? at enters
  split at enters
  · split at enters
    · rename_i tokens active
      rw [file] at enters
      simp only [perform, Preprocess.obey, active, if_true]
      exact bind_eq_bind (splice_of_newFile?_eq_some enters) fun _ _ _ => rfl
    · cases enters
  · cases enters

end

/-- At the given depth, reading a file leads to what the file comes to. -/
def LeadsThrough (setup : Setup) (depth : Nat) : Prop :=
  ∀ (file : String) (tokens : List Token) (interrupted : List Interruption) (state : State)
    (brought : List Token), depth + interrupted.length = depthLimit ->
    Leads setup (.reading (.start file tokens) interrupted state brought)
      (.after interrupted brought (processNested setup depth file tokens state))

section

variable {setup : Setup} {depth : Nat}

/-- A file that is entered is read to its end before anything else happens, and brings what
that comes to between its markers. -/
theorem leads_enter (through : LeadsThrough setup depth) (current : Reading)
    {interrupted : List Interruption} (nested : depth + (interrupted.length + 1) = depthLimit)
    (heading : Heading) {found : NamedFile} {content : List UInt8}
    (readable : found.content = .bytes content) (entered : State) (brought : List Token) :
    Leads setup
      (.reading (.start found.path (tokenize (ByteText.ofBytes content)))
        (⟨current.behind heading current.groups, heading.line⟩ :: interrupted) entered
        (brought ++ [⟨.includeBegin, heading.line, found.path⟩]))
      (current.after heading interrupted brought
        ((enter (some (processNested setup depth)) ⟨current.file, heading.line⟩ found >>=
          fun spliced => pure (current.groups, spliced)) entered)) := by
  refine (through _ _ _ _ _ (by exact nested)).trans ?_
  rw [enter_of_bytes readable, bind_assoc]
  cases ran : processNested setup depth found.path (tokenize (ByteText.ofBytes content))
      entered with
  | error refusal after =>
      rw [bind_of_error ran]
      exact .refl setup _
  | ok spliced after =>
      rw [bind_of_ok ran]
      have joined : brought ++ [⟨.includeBegin, heading.line, found.path⟩] ++ spliced ++
          [⟨.includeEnd, heading.line, ""⟩] = brought ++
            (⟨.includeBegin, heading.line, found.path⟩ :: spliced ++
              [⟨.includeEnd, heading.line, ""⟩]) := by simp
      exact ⟨0, congrArg (Situation.reading (current.behind heading current.groups)
        interrupted after) joined⟩

/-- Obeying a directive leads to what it comes to, if reading the files that it may enter
does. -/
theorem leads_obey (inner : ∀ less, depth = less + 1 -> LeadsThrough setup less)
    (current : Reading) {interrupted : List Interruption}
    (nested : depth + interrupted.length = depthLimit) (state : State) (brought : List Token)
    (heading : Heading) :
    Leads setup (current.obey setup interrupted state brought heading)
      (current.after heading interrupted brought
        (perform setup (nestedProcess? setup depth) ⟨current.file, heading.line⟩ current.groups
          heading.request state)) := by
  unfold Reading.obey
  cases enters : enteredFile? setup current heading.request state with
  | none =>
      rw [perform_of_enteredFile?_eq_none rfl _ enters]
      exact .refl setup _
  | some entry =>
      rcases entry with ⟨found, entered⟩
      rw [perform_of_enteredFile?_eq_some rfl _ enters]
      simp only
      cases depth with
      | zero =>
          have full : ¬ interrupted.length < depthLimit := by omega
          rw [if_neg full]
          exact .refl setup _
      | succ depth =>
          have allowed : interrupted.length < depthLimit := by omega
          rw [if_pos allowed, nestedProcess?]
          cases readable : found.content with
          | unreadable failure =>
              rw [enter_of_unreadable readable]
              exact .refl setup _
          | bytes content =>
              exact leads_enter (inner depth rfl) current (by omega) heading readable entered brought

/-- Reading the rest of a file leads to what that comes to, if reading the files that it may
enter does. -/
theorem leads_reading (inner : ∀ less, depth = less + 1 -> LeadsThrough setup less)
    (file : String) (lastLine : Nat) (groups : List Group) (lineStart : Bool)
    (read left : List Token) {interrupted : List Interruption}
    (nested : depth + interrupted.length = depthLimit) (state : State) (brought : List Token) :
    Leads setup
      (.reading ⟨file, lastLine, groups, if isActive groups then read else [], left, lineStart⟩
        interrupted state brought)
      (.after interrupted brought
        (processClauses setup (nestedProcess? setup depth) file lastLine groups
          (clausesFrom lineStart read left) state)) := by
  -- along the tokens that are left, whatever the rounds before have opened, defined and brought
  fun_induction clausesFrom lineStart read left generalizing groups state brought with
  | case1 lineStart read =>
      apply Leads.next
      rw [← List.append_nil (flush read), processClauses_flush_append, Situation.after_prepend]
      unfold Situation.next processClauses
      cases lineStart <;> cases groups <;> exact .refl setup _
  | case2 lineStart read token rest heading found ih =>
      apply Leads.next
      rw [processClauses_flush_append, Situation.after_prepend,
        Situation.next_of_heading (by exact found)]
      refine (leads_obey inner _ nested state _ heading).trans ?_
      unfold processClauses processClause
      cases ran : perform setup (nestedProcess? setup depth) ⟨file, heading.line⟩ groups
          heading.request state with
      | error refusal after =>
          rw [bind_of_error ran]
          exact .refl setup _
      | ok done after =>
          rw [bind_of_ok ran, Situation.after_prepend]
          have behind := ih done.1 after (brought ++
            Macro.expand state.macros (if isActive groups then read else []) ++ done.2)
          rw [ite_self] at behind
          exact behind
  | case3 lineStart read token rest absent ih =>
      apply Leads.next
      rw [Situation.next_of_token (by exact absent) rfl]
      have further := ih groups state brought
      cases active : isActive groups <;> simpa [Reading.takeUp, active] using further

theorem leadsThrough_of_less (inner : ∀ less, depth = less + 1 -> LeadsThrough setup less) :
    LeadsThrough setup depth := by
  intro file tokens interrupted state brought nested
  rw [processNested_eq_processFile, processFile_eq_processClauses]
  exact leads_reading inner file _ [] true [] tokens nested state brought

/-- Reading a file leads to what the file comes to, at every depth. -/
theorem leadsThrough (setup : Setup) (depth : Nat) : LeadsThrough setup depth := by
  induction depth with
  | zero => exact leadsThrough_of_less fun less impossible => nomatch impossible
  | succ depth ih =>
      apply leadsThrough_of_less
      intro less same
      cases same
      exact ih

end

/-! ## Files are interrupted up to the limit -/

/-- How many files are interrupted. -/
def Situation.depth : Situation -> Nat
  | .reading _ interrupted _ _ => interrupted.length
  | .ended _ => 0

theorem Round.depth_le {current : Reading} {interrupted : List Interruption} {state : State}
    {next : Situation} (round : Round current interrupted state next)
    (within : interrupted.length ≤ depthLimit) : next.depth ≤ depthLimit := by
  cases round with
  | forward => exact within
  | enters _ allowed => exact allowed
  | returns _ shape =>
      subst shape
      exact Nat.le_of_succ_le within
  | ends => exact Nat.zero_le depthLimit
  | refused => exact Nat.zero_le depthLimit

theorem Leads.depth_le {setup : Setup} {first second : Situation} (leads : Leads setup first second)
    (within : first.depth ≤ depthLimit) : second.depth ≤ depthLimit := by
  rcases leads with ⟨rounds, rfl⟩
  induction rounds with
  | zero => exact within
  | succ rounds ih =>
      rw [Function.iterate_succ_apply']
      cases reached : (Situation.next setup)^[rounds] first with
      | ended ending => exact Nat.zero_le depthLimit
      | reading current interrupted state brought =>
          rw [reached] at ih
          exact Situation.round_next.depth_le ih

/-- Preprocessing ends, with what `preprocess` yields, for every file system, search path,
state and source text.  On the way, each round uses up tokens of the file that is being read, or
finds none left; a file that is entered has not been included before, is listed as included
from then on, and interrupts one file more, of which there are never more than may be. -/
theorem preprocessing_ends (setup : Setup) (file : String) (bytes : List UInt8) (state : State) :
    Leads setup (.start file bytes state) (.ended (preprocess setup file bytes state)) ∧
      ∀ current interrupted reached brought,
        Leads setup (.start file bytes state) (.reading current interrupted reached brought) ->
        interrupted.length ≤ depthLimit ∧
          Round current interrupted reached
            (Situation.next setup (.reading current interrupted reached brought)) := by
  constructor
  · have through := leadsThrough setup depthLimit file (tokenize (ByteText.ofBytes bytes)) [] state
      [] rfl
    change Leads setup _ (.after [] [] (preprocess setup file bytes state)) at through
    cases ran : preprocess setup file bytes state with
    | ok tokens after => rwa [ran] at through
    | error refusal after => rwa [ran] at through
  · intro current interrupted reached brought leads
    exact ⟨leads.depth_le (Nat.zero_le depthLimit), Situation.round_next⟩

/-- A text that includes its own file, by its name and by a macro that stands for it. -/
def selfIncluding : List UInt8 :=
  "#define SELF <a.h>\n#include \"a.h\"\n#include SELF\nx".toUTF8.toList

/-- The file has another path beside its own. -/
def viewOfSelfIncluding : View := fun path =>
  if path = "a.h" ∨ path = "./a.h" then some (.file ["a.h"] (.bytes selfIncluding)) else none

example : ((preprocess ⟨viewOfSelfIncluding, [⟨".", false⟩]⟩ "a.h" selfIncluding).run'
      (.initial .empty)).map (List.map Token.lexeme) =
    some ["\n", "a.h", "\n", "\n", "\n", "x", "", "\n", "\n", "x"] := by decide +kernel

end Preprocess
end ObjectWrapper
