import TapeMachine.Typing

namespace TapeMachine

namespace Stack

variable {α : Type}

/-- The stack with more entries below its own. -/
def above (stack : Stack α) (below : List α) : Stack α where
  label := stack.label
  entries := stack.entries ++ below
  size := stack.size + below.length
  size_eq := by rw [List.length_append, stack.size_eq]

/-- Where an operation makes a stack, it makes the same one above entries that are deeper. If there are too many of
these, it may overflow instead; how many that are depends on how high the stack has been, not on what they are. -/
def Deepens (label : String) (outcome : Outcome (Stack α)) (deeper : List α → Outcome (Stack α)) : Prop :=
  ∀ made, outcome = .ok made → made.label = label ∧ ∃ peak ≤ limit, ∀ below,
    deeper below = .ok (made.above below) ∨ limit < peak + below.length ∧ deeper below = .error (.stackFull label)

variable {stack rest : Stack α} {value : α} {values : List α}

theorem label_of_pop {count : Nat} (popped : stack.pop count = .ok (values, rest)) : rest.label = stack.label := by
  unfold pop top at popped
  split at popped <;> cases popped
  rfl

theorem drop_above {count : Nat} (enough : count ≤ stack.size) (below : List α) :
    (stack.above below).drop count = (stack.drop count).above below := by
  rw [stack.size_eq] at enough
  exact ext rfl (List.drop_append_of_le_length enough)

/-- What is below the entries that are taken makes no difference. -/
theorem pop_above {count : Nat} (popped : stack.pop count = .ok (values, rest)) (below : List α) :
    (stack.above below).pop count = .ok (values, rest.above below) := by
  unfold pop top at popped ⊢
  split at popped
  · rename_i enough
    cases popped
    have room : count ≤ (stack.above below).size := Nat.le_add_right_of_le enough
    have same : (stack.above below).entries.take count = stack.entries.take count := by
      rw [stack.size_eq] at enough
      exact List.take_append_of_le_length enough
    rw [if_pos room, drop_above enough, same]
    rfl
  · cases popped

theorem popOne_above (popped : stack.popOne = .ok (value, rest)) (below : List α) :
    (stack.above below).popOne = .ok (value, rest.above below) := by
  have positive : 0 < stack.size := by
    have smaller := size_of_popOne popped
    omega
  unfold popOne at popped
  split at popped
  · rename_i tail entries
    cases popped
    have stands : (stack.above below).entries = value :: (tail ++ below) := by simp [above, entries]
    rw [popOne, stands]
    dsimp only
    rw [drop_above positive]
  · cases popped

theorem swap_above (swapped : stack.swap = .ok rest) (below : List α) :
    (stack.above below).swap = .ok (rest.above below) := by
  unfold swap at swapped
  split at swapped
  · rename_i first second tail entries
    cases swapped
    have stands : (stack.above below).entries = first :: second :: (tail ++ below) := by simp [above, entries]
    have enough : 2 ≤ stack.size := by simp [stack.size_eq, entries]
    rw [swap, stands]
    dsimp only
    rw [drop_above enough]
    exact congrArg Except.ok (ext rfl rfl)
  · cases swapped

/-- The limit counts what is below, too. -/
theorem accepted_push (stack : Stack α) (value : α) :
    accepted (stack.push value) =
      if stack.size + 1 ≤ limit then .ok (stack.store value) else .error (.stackFull stack.label) := by
  have checked : (stack.store value).check =
      if stack.size + 1 ≤ limit then .ok () else .error (.stackFull stack.label) := rfl
  rw [push, accepted, checked]
  split <;> rfl

theorem accepted_pushAll_cons (stack : Stack α) (value : α) (values : List α) :
    accepted (stack.pushAll (value :: values)) =
      (accepted (stack.push value)).bind fun stack => accepted (stack.pushAll values) := by
  rw [pushAll, push]
  cases (stack.store value).check <;> rfl

theorem deepens_exact {label : String} {made : Stack α} {deeper : List α → Outcome (Stack α)}
    (same : made.label = label) (all : ∀ below, deeper below = .ok (made.above below)) :
    Deepens label (.ok made) deeper := by
  rintro _ ⟨⟩
  exact ⟨same, 0, Nat.zero_le _, fun below => .inl (all below)⟩

/-- With more below it, a stack takes the value or is full. -/
theorem deepens_push (stack : Stack α) (value : α) :
    Deepens stack.label (accepted (stack.push value)) fun below => accepted ((stack.above below).push value) := by
  intro made pushed
  rw [accepted_push] at pushed
  split at pushed
  · rename_i room
    cases pushed
    refine ⟨rfl, stack.size + 1, room, fun below => ?_⟩
    dsimp only
    rw [accepted_push]
    by_cases deep : (stack.above below).size + 1 ≤ limit
    · rw [if_pos deep]
      exact .inl (congrArg Except.ok (ext rfl rfl))
    · rw [if_neg deep]
      have beyond : limit < stack.size + below.length + 1 := Nat.lt_of_not_le deep
      exact .inr ⟨by omega, rfl⟩
  · cases pushed

/-- An operation on what another one has made. The deeper stack has to bear the higher one of the two. -/
theorem Deepens.bind {label : String} {outcome : Outcome (Stack α)} {deeper : List α → Outcome (Stack α)}
    {next : Stack α → Outcome (Stack α)} (first : Deepens label outcome deeper)
    (second : ∀ made, made.label = label → Deepens label (next made) fun below => next (made.above below)) :
    Deepens label (outcome.bind next) fun below => (deeper below).bind next := by
  intro last done
  cases outcome with
  | error => cases done
  | ok made =>
    obtain ⟨same, peak, low, all⟩ := first made rfl
    obtain ⟨same', peak', low', all'⟩ := second made same last done
    refine ⟨same', max peak peak', Nat.max_le.2 ⟨low, low'⟩, fun below => ?_⟩
    dsimp only
    rcases all below with onward | ⟨beyond, failed⟩
    · rw [onward]
      exact (all' below).imp_right fun ⟨beyond, failed⟩ => ⟨by omega, failed⟩
    · rw [failed]
      exact .inr ⟨by omega, rfl⟩

/-- The same for several values; the bind lemma carries the failure through. -/
theorem deepens_pushAll (stack : Stack α) (values : List α) :
    Deepens stack.label (accepted (stack.pushAll values)) fun below =>
      accepted ((stack.above below).pushAll values) := by
  induction values generalizing stack with
  | nil => exact deepens_exact rfl fun _ => rfl
  | cons value rest ih =>
    simp only [accepted_pushAll_cons]
    refine (deepens_push stack value).bind fun made same => ?_
    rw [← same]
    exact ih made

theorem deepens_dup (stack : Stack α) :
    Deepens stack.label (accepted stack.dup) fun below => accepted (stack.above below).dup := by
  cases entries : stack.entries with
  | nil =>
    rw [dup, entries]
    exact nofun
  | cons value tail =>
    have stands (below : List α) : (stack.above below).entries = value :: (tail ++ below) := by simp [above, entries]
    simp only [dup, stands, entries]
    exact deepens_push stack value

theorem deepens_swap (stack : Stack α) : Deepens stack.label stack.swap fun below => (stack.above below).swap := by
  cases swapped : stack.swap with
  | error => exact nofun
  | ok made =>
    have label : made.label = stack.label := by
      unfold swap at swapped
      split at swapped <;> cases swapped
      rfl
    exact deepens_exact label fun below => swap_above swapped below

end Stack

/-- A signature looks at its inputs only. -/
theorem Signature.deepens_apply (signature : Signature) (word : String) (stack : Stack Ty) :
    Stack.Deepens stack.label (signature.apply word stack) fun below => signature.apply word (stack.above below) := by
  cases popped : stack.pop signature.inputs.length with
  | error => rw [apply, popped]; exact nofun
  | ok taken =>
    obtain ⟨found, rest⟩ := taken
    simp only [apply, popped, Stack.pop_above popped]
    split
    · rw [← Stack.label_of_pop popped]
      exact rest.deepens_pushAll signature.outputs
    · exact nofun

namespace Typing

/-- The same is known, and more types are below those on the stack. -/
def above (typing : Typing) (below : List Ty) : Typing :=
  { typing with stack := typing.stack.above below }

/-- Where a check comes to a typing, it comes to the same one above types that are deeper, and to the same workspace; or
it overflows, if there are too many of them. -/
def Deepens (label : String) (build : Build Typing) (deeper : List Ty → Build Typing) : Prop :=
  ∀ made after, build = (.ok made, after) → made.stack.label = label ∧ ∃ peak ≤ Stack.limit, ∀ below,
    deeper below = (.ok (made.above below), after) ∨
      Stack.limit < peak + below.length ∧
        ∃ place later, deeper below = (.error ⟨.stackFull label, some place⟩, later)

variable {label : String} {typing : Typing} {build : Build Typing} {deeper : List Ty → Build Typing}

theorem size_above_eq_add_iff (first second : Typing) (more : Nat) (below : List Ty) :
    (first.above below).stack.size = (second.above below).stack.size + more ↔
      first.stack.size = second.stack.size + more := by
  show first.stack.size + below.length = second.stack.size + below.length + more ↔ _
  omega

theorem size_above_eq_iff (first second : Typing) (below : List Ty) :
    (first.above below).stack.size = (second.above below).stack.size ↔ first.stack.size = second.stack.size :=
  size_above_eq_add_iff first second 0 below

theorem deepens_exact (same : typing.stack.label = label) (workspace : Workspace) :
    Deepens label (.ok typing, workspace) fun below => (.ok (typing.above below), workspace) := by
  rintro _ _ ⟨⟩
  exact ⟨same, 0, Nat.zero_le _, fun below => .inl rfl⟩

theorem Deepens.andThen {next : Typing → Workspace → Build Typing}
    {later : List Ty → Typing → Workspace → Build Typing} (first : Deepens label build deeper)
    (second : ∀ made after, made.stack.label = label →
      Deepens label (next made after) fun below => later below (made.above below) after) :
    Deepens label (build.andThen next) fun below => (deeper below).andThen (later below) := by
  obtain ⟨outcome, between⟩ := build
  cases outcome with
  | error => exact nofun
  | ok made =>
    obtain ⟨same, peak, low, all⟩ := first made between rfl
    intro last after done
    obtain ⟨same', peak', low', all'⟩ := second made between same last after done
    refine ⟨same', max peak peak', Nat.max_le.2 ⟨low, low'⟩, fun below => ?_⟩
    dsimp only
    rcases all below with onward | ⟨beyond, place, elsewhere, failed⟩
    · rw [onward]
      exact (all' below).imp_right fun ⟨beyond, failed⟩ => ⟨by omega, failed⟩
    · rw [failed]
      exact .inr ⟨by omega, place, elsewhere, rfl⟩

/-- A stage that does not look at the stack is the same for both. -/
theorem deepens_andThen {α : Type} (stage : Build α) {next : α → Workspace → Build Typing}
    {later : List Ty → α → Workspace → Build Typing}
    (second : ∀ made after, Deepens label (next made after) fun below => later below made after) :
    Deepens label (stage.andThen next) fun below => stage.andThen (later below) := by
  obtain ⟨outcome, between⟩ := stage
  cases outcome with
  | error => exact nofun
  | ok made => exact second made between

theorem deepens_refused {cause : Cause} {place : Location} {workspace : Workspace} :
    Deepens label (placed (.error cause) place workspace) deeper := by
  intro made after done
  cases done

/-- An operation on the stack alone. -/
theorem deepens_placed {outcome : Outcome (Stack Ty)} {under : List Ty → Outcome (Stack Ty)}
    (deepens : Stack.Deepens typing.stack.label outcome under) (place : Location) (workspace : Workspace) :
    Deepens typing.stack.label (placed (outcome.map fun stack => { typing with stack }) place workspace) fun below =>
      placed ((under below).map fun stack => { typing.above below with stack }) place workspace := by
  intro made after done
  cases outcome with
  | error => cases done
  | ok stack =>
    cases done
    obtain ⟨same, peak, low, all⟩ := deepens stack rfl
    refine ⟨same, peak, low, fun below => ?_⟩
    dsimp only
    rcases all below with onward | ⟨beyond, failed⟩
    · rw [onward]
      exact .inl rfl
    · rw [failed]
      exact .inr ⟨beyond, place, workspace, rfl⟩

theorem deepens_push (typing : Typing) (t : Ty) (place : Location) (workspace : Workspace) :
    Deepens typing.stack.label (placed (typing.push t) place workspace) fun below =>
      placed ((typing.above below).push t) place workspace :=
  deepens_placed (typing.stack.deepens_push t) place workspace

theorem deepens_operand (typing : Typing) (construct : String) (place : Location) (workspace : Workspace) :
    Deepens typing.stack.label (placed (typing.operand construct) place workspace) fun below =>
      placed ((typing.above below).operand construct) place workspace := by
  unfold operand
  cases popped : typing.stack.popOne with
  | error => exact deepens_refused
  | ok taken =>
    obtain ⟨found, stack⟩ := taken
    have label : stack.label = typing.stack.label := by
      unfold Stack.popOne at popped
      split at popped <;> cases popped
      rfl
    simp only [above, Stack.popOne_above popped, Except.bind]
    split
    · exact deepens_exact label workspace
    · exact deepens_refused

theorem deepens_bind (typing : Typing) (names : List String) (place : Location) (workspace : Workspace) :
    Deepens typing.stack.label (placed (typing.bind names) place workspace) fun below =>
      placed ((typing.above below).bind names) place workspace := by
  unfold Typing.bind
  cases popped : typing.stack.pop names.length with
  | error => exact deepens_refused
  | ok taken =>
    obtain ⟨types, stack⟩ := taken
    simp only [above, Stack.pop_above popped]
    exact deepens_exact (Stack.label_of_pop popped) workspace

theorem deepens_call (typing : Typing) (name : String) (place : Location) (workspace : Workspace) :
    Deepens typing.stack.label (placed (typing.call name) place workspace) fun below =>
      placed ((typing.above below).call name) place workspace := by
  unfold call
  split
  · exact deepens_placed typing.stack.deepens_dup place workspace
  · split
    · exact deepens_placed typing.stack.deepens_swap place workspace
    · simp only [above]
      cases typing.signatures.get? name with
      | some signature => exact deepens_placed (signature.deepens_apply name typing.stack) place workspace
      | none =>
        cases typing.bindings.get? name with
        | some t => exact deepens_push typing t place workspace
        | none => exact deepens_refused

mutual

/-- One item. Where depths are compared, both of them are deeper by the same number. -/
theorem deepens_check {label : String} (modules : Modules) (typing : Typing) (item : Item) (workspace : Workspace)
    (same : typing.stack.label = label) :
    Deepens label (check modules typing item workspace) fun below =>
      check modules (typing.above below) item workspace := by
  subst same
  cases item with
  | number place n => exact typing.deepens_push .number place workspace
  | string place text => exact typing.deepens_push .string place workspace
  | word place name => exact typing.deepens_call name place workspace
  | imports place name =>
    exact deepens_andThen (modules name place workspace) fun signatures after => deepens_exact rfl after
  | branch place body stop =>
    refine (typing.deepens_operand "if" place workspace).andThen fun opened after same => ?_
    refine (deepens_checkAll modules opened body after same).andThen fun closed after same => ?_
    simp only [closed.size_above_eq_iff opened]
    split
    · exact deepens_exact same after
    · exact deepens_refused
  | choice place consequent middle alternative stop =>
    refine (typing.deepens_operand "if" place workspace).andThen fun opened after same => ?_
    refine (deepens_checkAll modules opened consequent after same).andThen fun first after same' => ?_
    refine (deepens_checkAll modules { first with stack := opened.stack } alternative after same).andThen ?_
    intro second after _
    simp only [first.size_above_eq_iff second]
    split
    · exact @deepens_exact _ { second with stack := first.stack } same' after
    · exact deepens_refused
  | repeats place body stop =>
    refine (typing.deepens_operand "repeat" place workspace).andThen fun opened after same => ?_
    exact deepens_checkAll modules opened body after same
  | loop place test middle body stop =>
    refine (deepens_checkAll modules typing test workspace rfl).andThen fun tested after same => ?_
    simp only [tested.size_above_eq_add_iff typing 1]
    split
    · rw [← same]
      refine (tested.deepens_operand "while" place after).andThen fun opened after same => ?_
      exact deepens_checkAll modules opened body after same
    · exact deepens_refused
  | bind place names body stop =>
    refine (typing.deepens_bind names place workspace).andThen fun opened after same => ?_
    refine (deepens_checkAll modules opened body after same).andThen fun closed after same => ?_
    exact @deepens_exact _ closed.unbind same after
  | cell place name body stop =>
    refine (deepens_checkAll modules (typing.cell name) body workspace rfl).andThen fun closed after same => ?_
    exact @deepens_exact _ closed.unbind same after
  | define place heading body stop =>
    -- The body is checked on its inputs alone, so all that is deeper comes back behind it.
    refine deepens_andThen (placed heading.signature place workspace) fun signature after => ?_
    refine deepens_andThen (placed (typing.enter heading.name signature) place after) fun opened after => ?_
    refine deepens_andThen (checkAll modules opened body after) fun closed after => ?_
    refine deepens_andThen (placed (closed.conclude heading.name signature) place after) fun _ after => ?_
    exact @deepens_exact _ { closed with stack := typing.stack } rfl after

theorem deepens_checkAll {label : String} (modules : Modules) (typing : Typing) (items : List Item)
    (workspace : Workspace) (same : typing.stack.label = label) :
    Deepens label (checkAll modules typing items workspace) fun below =>
      checkAll modules (typing.above below) items workspace := by
  match items with
  | [] => exact deepens_exact same workspace
  | item :: rest =>
    refine (deepens_check modules typing item workspace same).andThen fun next after same => ?_
    exact deepens_checkAll modules next rest after same

end

/-- A check is local to the part of the stack that the items touch. What is accepted on a stack is accepted above any
other types as well and leaves them as they are: the signatures and the bindings come out the same, and so do the files
read. It can only be that the types together are too many for the stack, which then overflows; how many more there may
be does not depend on what they are. -/
theorem checking_is_local (modules : Modules) (typing : Typing) (items : List Item) (workspace : Workspace)
    {next : Typing} {after : Workspace} (accepted : checkAll modules typing items workspace = (.ok next, after)) :
    ∃ peak ≤ Stack.limit, ∀ below,
      checkAll modules (typing.above below) items workspace = (.ok (next.above below), after) ∨
        Stack.limit < peak + below.length ∧
          ∃ place later, checkAll modules (typing.above below) items workspace =
            (.error ⟨.stackFull typing.stack.label, some place⟩, later) :=
  (deepens_checkAll modules typing items workspace rfl next after accepted).2

/-- The body `let n do n n * if 1 else 2 end end`, which takes a number and leaves one. -/
def choosing : List Item :=
  [.bind ⟨0, 0, 3⟩ ["n"]
    [.word ⟨0, 9, 10⟩ "n", .word ⟨0, 11, 12⟩ "n", .word ⟨0, 13, 14⟩ "*",
      .choice ⟨0, 15, 17⟩ [.number ⟨0, 18, 19⟩ .one] ⟨0, 20, 24⟩ [.number ⟨0, 25, 26⟩ .two] ⟨0, 27, 30⟩]
    ⟨0, 31, 34⟩]

/-- What is known where a number is on the stack. -/
def onNumber : Typing :=
  { start with stack := start.stack.store .number }

/-- The signatures of a library without modules. -/
def fromNoLibrary : Modules :=
  Settings.moduleSignatures { library := .memory {} } 1

/-- Checked on its number alone, it is accepted above any other types, which stay where they are. -/
theorem choosing_above_others :
    checkAll fromNoLibrary onNumber choosing {} = (.ok onNumber, {}) ∧
    ∃ peak ≤ Stack.limit, ∀ below,
      checkAll fromNoLibrary (onNumber.above below) choosing {} = (.ok (onNumber.above below), {}) ∨
        Stack.limit < peak + below.length ∧
          ∃ place later, checkAll fromNoLibrary (onNumber.above below) choosing {} =
            (.error ⟨.stackFull "type stack", some place⟩, later) := by
  have accepted : checkAll fromNoLibrary onNumber choosing {} = (.ok onNumber, {}) := by rfl
  exact ⟨accepted, checking_is_local fromNoLibrary onNumber choosing {} accepted⟩

end Typing

end TapeMachine
