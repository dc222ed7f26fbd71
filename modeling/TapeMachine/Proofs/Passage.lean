import TapeMachine.Library.Bundled
import TapeMachine.Proofs.Checked
import TapeMachine.Proofs.Operands
import TapeMachine.Proofs.Placement
import TapeMachine.Proofs.Resolution
import TapeMachine.Proofs.Turns

namespace TapeMachine

namespace Store

variable {store : Store} {word : Builtin} {values : List Value} {below : Stack Value} {value : Value} {name : String}
  {reply : Builtin.Reply} {cause : Cause}

theorem push_of_room (room : store.operands.size < Stack.limit) (value : Value) :
    store.push value = .ok { store with operands := store.operands.store value } := by
  rw [push, Stack.push_of_room room]
  rfl

theorem push_of_full (full : Stack.limit ≤ store.operands.size) (value : Value) :
    store.push value = .error (.stackFull store.operands.label) := by
  rw [push, Stack.push_of_full full]
  rfl

theorem takeNumber_store (below : Stack Value) (n : Decimal) (bindings : Scope Value) (heap : Heap) :
    takeNumber ⟨below.store (.number n), bindings, heap⟩ = .ok (n, ⟨below, bindings, heap⟩) := by
  rw [takeNumber, Stack.popOne_store]
  rfl

theorem bind_storeAll (below : Stack Value) (values : List Value) (bindings : Scope Value) (heap : Heap)
    {names : List String} (count : values.length = names.length) :
    bind ⟨below.storeAll values, bindings, heap⟩ names = .ok ⟨below, bindings.bind names values, heap⟩ := by
  rw [bind, ← count, Stack.pop_storeAll]
  rfl

theorem fetch_of_bound (bound : store.bindings.get? name = some value) : store.fetch name = store.push value := by
  rw [fetch, bound]

theorem invoke_of_performed (ordinary : word ∉ Builtin.shuffles) (count : values.length = word.inputs.length)
    (operands : store.operands = below.storeAll values) (performed : word.perform values store.heap = .ok reply)
    (room : below.size + reply.results.length ≤ Stack.limit) :
    store.invoke word =
      .ok (reply.effect, { store with operands := below.storeAll reply.results, heap := reply.heap }) := by
  rw [invoke, operands, Builtin.call_of_performed ordinary count performed room]

theorem invoke_of_refused (ordinary : word ∉ Builtin.shuffles) (count : values.length = word.inputs.length)
    (operands : store.operands = below.storeAll values) (performed : word.perform values store.heap = .error cause) :
    store.invoke word = .error cause := by
  rw [invoke, operands, Builtin.call_of_refused ordinary count performed]

end Store

namespace Machine

/-- The machine goes on by a step that shows nothing, or it crosses a boundary. -/
def Onward (machine next : Machine) : Prop :=
  machine.step = .ran next ∨ machine.settle = next.settle

/-- The machine goes on until it is `last`. -/
def Leads : Machine → Machine → Prop :=
  Relation.ReflTransGen Onward

/-- The machine goes on until it is another one, or until it fails. -/
def Comes (machine : Machine) : Except Failure Machine → Prop
  | .ok last => machine.Leads last
  | .error failure => ∃ last cause bad, machine.Leads last ∧ last.step = .failed cause bad ∧ bad.failure cause = failure

/-- What comes of a machine that is executed, alone and whatever its surroundings: after some turns it has run on to
another machine, or it has failed. -/
def Yields (machine : Machine) : Except Failure Machine → Prop
  | .ok after => ∃ turns, ∀ settings workspace,
      Run.execute settings turns ⟨machine, []⟩ workspace = (.running, ⟨after, []⟩, workspace)
  | .error failure => ∃ turns ended, ∀ settings workspace,
      Run.execute settings turns ⟨machine, []⟩ workspace = (.error failure, ended, workspace)

variable {machine next last here : Machine} {outcome : Except Failure Machine} {instruction : Instruction}
  {cause : Cause}

theorem leads_of_step (ran : machine.step = .ran next) : machine.Leads next :=
  .single (.inl ran)

theorem leads_of_settle (same : machine.settle = next.settle) : machine.Leads next :=
  .single (.inr same)

theorem Leads.comes (leads : machine.Leads next) (comes : next.Comes outcome) : machine.Comes outcome := by
  cases outcome with
  | ok => exact leads.trans comes
  | error failure =>
    obtain ⟨last, cause, bad, further, failed, same⟩ := comes
    exact ⟨last, cause, bad, leads.trans further, failed, same⟩

/-- Turns lead to where the machine goes, and whatever happens there is what happens in the next one. -/
theorem Leads.advance (leads : machine.Leads last) :
    ∃ turns, ∀ settings execute workspace, Run.advance settings execute (turns + 1) ⟨machine, []⟩ workspace =
      Run.advance settings execute 1 ⟨last, []⟩ workspace := by
  induction leads using Relation.ReflTransGen.head_induction_on with
  | refl => exact ⟨0, fun _ _ _ => rfl⟩
  | head onward _ ih =>
    obtain ⟨turns, goes⟩ := ih
    rcases onward with ran | same
    · refine ⟨turns + 1, fun settings execute workspace => ?_⟩
      rw [Run.advance, ran]
      exact goes settings execute workspace
    · refine ⟨turns, fun settings execute workspace => ?_⟩
      rw [← goes settings execute workspace, Run.advance, Run.advance, step_of_settle same]

theorem Leads.execute (leads : machine.Leads last) (atWork : machine.AtWork) :
    ∃ (turns : Nat) (execute : Settings → Run → Workspace → Run.Result), ∀ settings workspace,
      Run.execute settings turns ⟨machine, []⟩ workspace =
        Run.advance settings (execute settings) 1 ⟨last, []⟩ workspace := by
  obtain ⟨turns, goes⟩ := leads.advance
  refine ⟨turns + 1, fun settings => Run.executeWithin settings (turns + 1) settings.depth,
    fun settings workspace => ?_⟩
  rw [Run.execute, Run.executeWithin_of_atWork atWork, goes]

theorem Leads.yields (leads : machine.Leads last) (atWork : machine.AtWork) {after : Machine}
    (ran : last.step = .ran after) : machine.Yields (.ok after) := by
  obtain ⟨turns, execute, goes⟩ := leads.execute atWork
  refine ⟨turns, fun settings workspace => ?_⟩
  rw [goes, Run.advance, ran]
  rfl

theorem Comes.yields {failure : Failure} (comes : machine.Comes (.error failure)) (atWork : machine.AtWork) :
    machine.Yields (.error failure) := by
  obtain ⟨last, cause, bad, leads, failed, rfl⟩ := comes
  obtain ⟨turns, execute, goes⟩ := leads.execute atWork
  refine ⟨turns, ⟨{ bad with phase := .finished }, []⟩, fun settings workspace => ?_⟩
  rw [goes, Run.advance, failed]
  rfl

/-- A failure that shows where the machine stands. -/
theorem FailsHere.comes (fails : machine.FailsHere machine.step cause)
    (there : machine.tape[machine.ip]? = some instruction) :
    machine.Comes (.error ⟨cause, some instruction.place⟩) := by
  obtain ⟨bad, failed, stays⟩ := fails
  exact ⟨machine, cause, bad, .refl, failed, failure_at (by rw [stays.tape, stays.ip, there]) cause⟩

end Machine

theorem add_span (item : Item) (start : Nat) : start + span [item] = item.behind start := by
  rw [span_cons]
  exact item.add_width start

namespace Machine

variable {machine : Machine} {instruction : Instruction} {cause : Cause}

/-- The machine stands in front of the items, and has no boundary until they are done. -/
structure Faces (machine : Machine) (items : List Item) : Prop where
  carried : machine.tape.Carries machine.ip (Piece.ofItems items)
  clear : ∀ other : Machine, other.frames = machine.frames → machine.ip ≤ other.ip →
    other.ip < machine.ip + span items → other.boundary = .settled true other

/-- Inside the items a machine with the same frames carries out what is there. -/
theorem Faces.step_at {items : List Item} (faces : machine.Faces items) (other : Machine)
    (frames : other.frames = machine.frames) (lower : machine.ip ≤ other.ip)
    (upper : other.ip < machine.ip + span items) (there : other.tape[other.ip]? = some instruction) :
    other.step = other.perform instruction :=
  step_of_quiet (faces.clear other frames lower upper) there

theorem Faces.step {item : Item} {rest : List Item} (faces : machine.Faces (item :: rest))
    (there : machine.tape[machine.ip]? = some instruction) : machine.step = machine.perform instruction := by
  have some : 0 < item.width := Piece.width_pos (.item item)
  exact faces.step_at machine rfl (Nat.le_refl _) (by rw [span_cons]; omega) there

/-- Items inside the items. -/
theorem Faces.within {items inner : List Item} (faces : machine.Faces items) {other : Machine}
    (frames : other.frames = machine.frames) (carried : other.tape.Carries other.ip (Piece.ofItems inner))
    (lower : machine.ip ≤ other.ip) (upper : other.ip + span inner ≤ machine.ip + span items) : other.Faces inner where
  carried := carried
  clear another same above below :=
    faces.clear another (same.trans frames) (Nat.le_trans lower above) (Nat.lt_of_lt_of_le below upper)

theorem Faces.head {item : Item} {rest : List Item} (faces : machine.Faces (item :: rest)) : machine.Faces [item] := by
  have parts : machine.tape.Carries machine.ip (Piece.ofItems [item] ++ Piece.ofItems rest) := faces.carried
  refine faces.within rfl (Tape.carries_append.1 parts).1 (Nat.le_refl _) ?_
  rw [span_cons, span_cons]
  exact Nat.add_le_add_left (Nat.add_le_add_left (Nat.zero_le _) _) _

theorem Faces.tail {item : Item} {rest : List Item} (faces : machine.Faces (item :: rest)) (store : Store) :
    { machine.withStore store with ip := machine.ip + span [item] }.Faces rest := by
  have parts : machine.tape.Carries machine.ip (Piece.ofItems [item] ++ Piece.ofItems rest) := faces.carried
  have behind := (Tape.carries_append.1 parts).2
  rw [Piece.extent_ofItems] at behind
  refine faces.within rfl behind (Nat.le_add_right _ _) (Nat.le_of_eq ?_)
  show machine.ip + span [item] + span rest = machine.ip + span (item :: rest)
  rw [span_cons, span_cons, Nat.add_assoc]
  rfl

/-- What is done in one step is done, or fails at the place of the item. -/
theorem Faces.comes {item : Item} {rest : List Item} (faces : machine.Faces (item :: rest))
    (there : machine.tape[machine.ip]? = some instruction) (width : item.width = 1) {result : Outcome Store}
    (goes : ∀ after, result = .ok after → machine.perform instruction = .ran (machine.withStore after).next)
    (fails : ∀ cause, result = .error cause → machine.FailsHere (machine.perform instruction) cause) :
    machine.Comes ((result.locate instruction.place).map fun after =>
      { machine.withStore after with ip := machine.ip + span [item] }) := by
  have step := faces.step there
  have one : span [item] = 1 := by rw [span_cons, width]; rfl
  rw [one]
  cases result with
  | ok after => exact leads_of_step (step.trans (goes after rfl))
  | error cause => exact FailsHere.comes (step ▸ fails cause rfl) there

end Machine

namespace Machine

variable (machine : Machine) (test body : List Item)

/-- Where the test of a loop that begins here has ended. -/
def behindTest : Nat :=
  machine.ip + 1 + span test

/-- Where the body has ended. -/
def behindBody : Nat :=
  machine.behindTest test + 1 + span body

/-- The machine inside a loop that begins here. -/
def inLoop (store : Store) (ip : Nat) : Machine :=
  { machine.withStore store with
    ip
    frames := .loop machine.ip (machine.behindTest test) (machine.behindBody test body) :: machine.frames }

variable {machine test body} {store after : Store} {n : Decimal}

/-- Between the bounds of the loop its frame has no boundary. -/
theorem inLoop_faces {ip : Nat} {items : List Item} (carried : machine.tape.Carries ip (Piece.ofItems items))
    (apart : ip + span items ≤ machine.behindTest test ∨
      machine.behindTest test < ip ∧ ip + span items ≤ machine.behindBody test body) :
    (machine.inLoop test body store ip).Faces items := by
  refine ⟨carried, fun other same lower upper => ?_⟩
  have lower : ip ≤ other.ip := lower
  have upper : other.ip < ip + span items := upper
  have later : machine.behindTest test < machine.behindBody test body := by
    rw [behindBody]
    omega
  rw [boundary, show other.frames = _ from same]
  exact loop_quiet _ (by omega) (by omega)

/-- Behind the test the loop is left, or the body is next. -/
theorem inLoop_boundary (machine : Machine) (test body : List Item) (taken : store.takeNumber = .ok (n, after)) :
    (machine.inLoop test body store (machine.behindTest test)).boundary =
      if n.isZero then .settled true { machine.withStore after with ip := machine.behindBody test body }
      else .crossed (machine.inLoop test body after (machine.behindTest test + 1)) := by
  have apart : machine.behindTest test ≠ machine.behindBody test body := by
    rw [behindBody]
    omega
  rw [boundary_test rfl apart]
  exact bodyOrDone_of_taken _ _ rfl taken

/-- Behind the body the test is next. -/
theorem inLoop_again : (machine.inLoop test body store (machine.behindBody test body)).settle =
    (machine.inLoop test body store (machine.ip + 1)).settle := by
  have apart : machine.ip + 1 ≠ machine.behindBody test body := by
    rw [behindBody, behindTest]
    omega
  refine settle_of_same_boundary ?_
  rw [boundary_body rfl rfl, boundary_test rfl apart]
  rfl

end Machine

/-- What the items make of a store, wherever they stand and whatever is around them, while these are the functions. -/
def Does (functions : Dictionary Callable) (items : List Item) (before : Store) (outcome : Except Failure Store) :
    Prop :=
  ∀ machine : Machine, machine.functions = functions → machine.store = before → machine.Faces items →
    machine.Comes (outcome.map fun after => { machine.withStore after with ip := machine.ip + span items })

namespace Does

variable {functions : Dictionary Callable} {before between store opened closed : Store} {item : Item}
  {rest test body : List Item} {outcome : Except Failure Store} {result : Outcome Store} {failure : Failure}
  {place middle stop : Location}

theorem nil : Does functions [] before (.ok before) := by
  rintro machine - rfl -
  exact .refl

theorem cons (first : Does functions [item] before (.ok between)) (later : Does functions rest between outcome) :
    Does functions (item :: rest) before outcome := by
  intro machine table same faces
  have further := later { machine.withStore between with ip := machine.ip + span [item] } table rfl
    (faces.tail between)
  have sum : machine.ip + span [item] + span rest = machine.ip + span (item :: rest) := by
    rw [span_cons, span_cons, Nat.add_assoc]
    rfl
  refine (first machine table same faces.head).comes ?_
  rw [← sum]
  exact further

theorem cons_error (first : Does functions [item] before (.error failure)) :
    Does functions (item :: rest) before (.error failure) :=
  fun machine table same faces => first machine table same faces.head

theorem number {n : Decimal} (pushed : store.push (.number n) = result) :
    Does functions [.number place n] store (result.locate place) := by
  rintro machine rfl rfl faces
  refine faces.comes faces.carried.1 rfl ?_ ?_
  · rintro after rfl
    exact Machine.leave_of_push pushed
  · rintro cause rfl
    exact Machine.leave_of_error pushed

/-- A word that shows nothing. -/
theorem builtin {word : Builtin} {name : String} (found : functions.get? name = some (.builtin word))
    (invoked : store.invoke word = result.map fun after => (.continue, after)) :
    Does functions [.word place name] store (result.locate place) := by
  rintro machine rfl rfl faces
  have performs : machine.perform ⟨.call name, place⟩ = machine.builtin word place := by
    simp only [Machine.perform, Machine.call, found]
  refine faces.comes faces.carried.1 rfl ?_ ?_
  · rintro after rfl
    exact performs.trans (Machine.builtin_of_invoked place invoked)
  · rintro cause rfl
    exact performs ▸ Machine.builtin_of_error place invoked

/-- A name that is not in the table. -/
theorem fetch {name : String} (absent : functions.get? name = none) (fetched : store.fetch name = result) :
    Does functions [.word place name] store (result.locate place) := by
  rintro machine rfl rfl faces
  rw [Store.fetch] at fetched
  cases bound : machine.bindings.get? name with
  | some value =>
    have performs : machine.perform ⟨.call name, place⟩ = machine.leave value := by
      simp only [Machine.perform, Machine.call, absent, bound]
    rw [show machine.store.bindings.get? name = some value from bound] at fetched
    refine faces.comes faces.carried.1 rfl ?_ ?_
    · rintro after rfl
      exact performs.trans (Machine.leave_of_push fetched)
    · rintro cause rfl
      exact performs ▸ Machine.leave_of_error fetched
  | none =>
    have performs : machine.perform ⟨.call name, place⟩ = .failed (.undefinedName name) machine := by
      simp only [Machine.perform, Machine.call, absent, bound]
    rw [show machine.store.bindings.get? name = none from bound] at fetched
    refine faces.comes faces.carried.1 rfl ?_ ?_
    · rintro after rfl
      cases fetched
    · rintro cause rfl
      cases fetched
      exact ⟨machine, performs, ⟨rfl, rfl, rfl, rfl, rfl⟩⟩

section

variable {operands : Stack Value} {bindings : Scope Value} {heap : Heap} {name : String} {value : Value}
  {word : Builtin} {reply : Builtin.Reply} {cause : Cause}

theorem numbers {n : Decimal} (room : operands.size < Stack.limit)
    (later : Does functions rest ⟨operands.store (.number n), bindings, heap⟩ outcome) :
    Does functions (.number place n :: rest) ⟨operands, bindings, heap⟩ outcome :=
  .cons (.number (Store.push_of_room room _)) later

theorem fetches (absent : functions.get? name = none) (bound : bindings.get? name = some value)
    (room : operands.size < Stack.limit) (later : Does functions rest ⟨operands.store value, bindings, heap⟩ outcome) :
    Does functions (.word place name :: rest) ⟨operands, bindings, heap⟩ outcome :=
  .cons (.fetch absent ((Store.fetch_of_bound bound).trans (Store.push_of_room room value))) later

theorem overflows (absent : functions.get? name = none) (bound : bindings.get? name = some value)
    (full : Stack.limit ≤ operands.size) :
    Does functions (.word place name :: rest) ⟨operands, bindings, heap⟩
      (.error ⟨.stackFull operands.label, some place⟩) :=
  .cons_error (.fetch absent ((Store.fetch_of_bound bound).trans (Store.push_of_full full value)))

theorem dups (found : functions.get? Builtin.dup.name = some (.builtin .dup)) (room : operands.size + 1 < Stack.limit)
    (later : Does functions rest ⟨(operands.store value).store value, bindings, heap⟩ outcome) :
    Does functions (.word place Builtin.dup.name :: rest) ⟨operands.store value, bindings, heap⟩ outcome := by
  have invoked : Store.invoke ⟨operands.store value, bindings, heap⟩ .dup =
      Except.map (.continue, ·) (.ok ⟨(operands.store value).store value, bindings, heap⟩) := by
    have pushed : (operands.store value).dup = (.ok (), (operands.store value).store value) :=
      Stack.push_of_room (show (operands.store value).size < Stack.limit from room) value
    simp only [Store.invoke, Builtin.call, pushed]
    rfl
  exact .cons (.builtin found invoked) later

/-- A word that finds its operands replaces them by its results. -/
theorem performs (base : Stack Value) (values : List Value) (found : functions.get? word.name = some (.builtin word))
    (ordinary : word ∉ Builtin.shuffles) (count : values.length = word.inputs.length)
    (performed : word.perform values heap = .ok reply) (silent : reply.effect = .continue)
    (room : base.size + reply.results.length ≤ Stack.limit)
    (later : Does functions rest ⟨base.storeAll reply.results, bindings, reply.heap⟩ outcome) :
    Does functions (.word place word.name :: rest) ⟨base.storeAll values, bindings, heap⟩ outcome := by
  have invoked : Store.invoke ⟨base.storeAll values, bindings, heap⟩ word =
      Except.map (.continue, ·) (.ok ⟨base.storeAll reply.results, bindings, reply.heap⟩) := by
    rw [Store.invoke_of_performed ordinary count rfl performed room, silent]
    rfl
  exact .cons (.builtin found invoked) later

theorem refuses (base : Stack Value) (values : List Value) (found : functions.get? word.name = some (.builtin word))
    (ordinary : word ∉ Builtin.shuffles) (count : values.length = word.inputs.length)
    (performed : word.perform values heap = .error cause) :
    Does functions (.word place word.name :: rest) ⟨base.storeAll values, bindings, heap⟩
      (.error ⟨cause, some place⟩) := by
  have invoked : Store.invoke ⟨base.storeAll values, bindings, heap⟩ word =
      Except.map (.continue, ·) (.error cause) := Store.invoke_of_refused ordinary count rfl performed
  exact .cons_error (.builtin found invoked)

end

/-- Names are bound while a body is done, and no longer. -/
theorem bind {names : List String} (bound : store.bind names = .ok opened)
    (inside : Does functions body opened outcome) :
    Does functions [.bind place names body stop] store (outcome.map Store.unbind) := by
  rintro machine rfl rfl faces
  have whole : machine.ip + span [Item.bind place names body stop] = machine.ip + 1 + span body + 1 + 1 := add_span ..
  obtain ⟨there, carried⟩ := Tape.carries_bind.1 faces.carried
  obtain ⟨carried, drops, noop, -⟩ := Tape.carries_items_mark.1 carried
  let enter : Machine := (machine.withStore opened).next
  have entered : machine.step = .ran enter := (faces.step there).trans (Machine.bind_of_bound bound)
  have facing : enter.Faces body := faces.within rfl carried (Nat.le_succ _) (by
    show machine.ip + 1 + span body ≤ _
    omega)
  refine (Machine.leads_of_step entered).comes ?_
  cases outcome with
  | error failure => exact inside enter rfl rfl facing
  | ok closed =>
    refine Machine.Leads.comes (inside enter rfl rfl facing) ?_
    let last : Machine := { enter.withStore closed with ip := machine.ip + 1 + span body }
    let done : Machine := { last.withStore closed.unbind with ip := machine.ip + 1 + span body + 1 }
    have unbinds : last.step = .ran done := faces.step_at last rfl (by
      show machine.ip ≤ machine.ip + 1 + span body
      omega) (by
      show machine.ip + 1 + span body < _
      omega) drops
    have passes : done.step = .ran done.next := faces.step_at done rfl (by
      show machine.ip ≤ machine.ip + 1 + span body + 1
      omega) (by
      show machine.ip + 1 + span body + 1 < _
      omega) noop
    rw [whole]
    exact (Machine.leads_of_step unbinds).trans (Machine.leads_of_step passes)

/-- What the test leaves on top of the stack is taken, and decides. -/
def Decides (functions : Dictionary Callable) (test : List Item) (before : Store) (n : Decimal) (after : Store) :
    Prop :=
  ∃ tested, Does functions test before (.ok tested) ∧ tested.takeNumber = .ok (n, after)

/-- What the turns of a loop make of a store. -/
inductive Cycles (functions : Dictionary Callable) (test body : List Item) : Store → Store → Prop
  | done {before after n} : Decides functions test before n after → n.isZero = true →
      Cycles functions test body before after
  | again {before decided next after n} : Decides functions test before n decided → n.isZero = false →
      Does functions body decided (.ok next) → Cycles functions test body next after →
      Cycles functions test body before after

/-- What holds before the first test, and before the next one after each of so many turns, holds before the last one. -/
theorem exists_cycles {Inv : Nat → Store → Prop} {Post : Store → Prop} {count turn : Nat}
    (goes : ∀ turn < count, ∀ before, Inv turn before → ∃ n decided next, Decides functions test before n decided ∧
      n.isZero = false ∧ Does functions body decided (.ok next) ∧ Inv (turn + 1) next)
    (ends : ∀ before, Inv count before →
      ∃ n after, Decides functions test before n after ∧ n.isZero = true ∧ Post after)
    (le : turn ≤ count) (holds : Inv turn before) : ∃ after, Cycles functions test body before after ∧ Post after := by
  induction le using Nat.decreasingInduction generalizing before with
  | self =>
    obtain ⟨n, after, decides, zero, post⟩ := ends before holds
    exact ⟨after, .done decides zero, post⟩
  | of_succ turn more ih =>
    obtain ⟨n, decided, next, decides, some, does, holds⟩ := goes turn more before holds
    obtain ⟨after, cycles, post⟩ := ih holds
    exact ⟨after, .again decides some does cycles, post⟩

/-- A loop runs until its test leaves 0. -/
theorem loop (cycles : Cycles functions test body before closed) :
    Does functions [.loop place test middle body stop] before (.ok closed) := by
  rintro machine rfl rfl faces
  have whole : machine.ip + span [Item.loop place test middle body stop] = machine.behindBody test body + 1 :=
    add_span ..
  obtain ⟨there, carried⟩ := Tape.carries_loop.1 faces.carried
  obtain ⟨tests, -, carried⟩ := Tape.carries_items_mark.1 carried
  obtain ⟨runs, noop, -⟩ := Tape.carries_items_mark.1 carried
  have apart : machine.behindTest test < machine.behindBody test body := by
    rw [Machine.behindBody]
    omega
  have judges : ∀ {before tested}, Does machine.functions test before (.ok tested) →
      (machine.inLoop test body before (machine.ip + 1)).Leads
        (machine.inLoop test body tested (machine.behindTest test)) :=
    fun does => does _ rfl rfl (Machine.inLoop_faces tests (.inl (Nat.le_refl _)))
  refine Machine.Leads.comes (Machine.leads_of_step (faces.step there)) ?_
  show (machine.inLoop test body machine.store (machine.ip + 1)).Leads _
  generalize machine.store = store at cycles
  induction cycles with
  | @done before after n decides zero =>
    obtain ⟨tested, does, taken⟩ := decides
    have boundary := machine.inLoop_boundary test body taken
    rw [if_pos zero] at boundary
    let left : Machine := { machine.withStore after with ip := machine.behindBody test body }
    have lower : machine.ip ≤ machine.behindBody test body := by
      rw [Machine.behindBody, Machine.behindTest]
      omega
    have quiet := faces.clear left rfl lower (by rw [whole]; exact Nat.lt_succ_self _)
    have passes : left.step = .ran left.next :=
      faces.step_at left rfl lower (by rw [whole]; exact Nat.lt_succ_self _) noop
    rw [whole]
    exact ((judges does).trans (Machine.leads_of_settle (Machine.settle_of_quiet boundary quiet))).trans
      (Machine.leads_of_step passes)
  | @again before decided next after n decides some does _ ih =>
    obtain ⟨tested, does', taken⟩ := decides
    have boundary := machine.inLoop_boundary test body taken
    rw [if_neg (by simp [some])] at boundary
    have done : (machine.inLoop test body decided (machine.behindTest test + 1)).Leads
        (machine.inLoop test body next (machine.behindBody test body)) :=
      does _ rfl rfl (Machine.inLoop_faces runs (.inr ⟨Nat.lt_succ_self _, Nat.le_refl _⟩))
    exact (((judges does').trans (Machine.leads_of_settle (Machine.settle_of_crossed boundary))).trans done).trans
      ((Machine.leads_of_settle Machine.inLoop_again).trans ih)

end Does

/-- The machine is about to call the word `name`: it crosses the boundaries where it stands, and `here` stands at the
call. -/
structure Machine.Calls (machine here : Machine) (name : String) (place : Location) : Prop where
  atWork : machine.AtWork
  settled : machine.settle = (.ok true, here)
  call : here.tape[here.ip]? = some ⟨.call name, place⟩

/-- A function is called, does what its body does, and returns. -/
theorem Machine.Calls.yields {machine here : Machine} {name : String} {place start : Location}
    (calls : machine.Calls here name place) {tape : Tape} {definition : Definition} {body : List Item}
    (found : here.functions.get? name = some (.user tape definition))
    (holds : tape.HoldsBody definition.start start body) {outcome : Except Failure Store}
    (does : Does here.functions body here.store outcome) :
    machine.Yields (outcome.map fun after => { here.withStore after with ip := here.ip + 1 }) := by
  obtain ⟨inside, stop, ret⟩ := holds
  obtain ⟨noop, enter, carried⟩ : tape[definition.start]? = some ⟨.noop, start⟩ ∧
      tape[definition.start + 1]? = some ⟨.enter, start⟩ ∧
      tape.Carries (definition.start + 1 + 1) (Piece.ofItems body) := inside
  let frames := Frame.call here.tape (here.ip + 1) :: here.frames
  let within (ip : Nat) : Machine := { here with tape, frames, ip }
  have quiet : ∀ other : Machine, other.frames = frames → other.boundary = .settled true other :=
    fun other same => boundary_call same
  have called : machine.step = .ran (within definition.start) := by
    rw [step, calls.settled]
    simp only [calls.call, perform, Machine.call, found]
    rfl
  have first : (within definition.start).step = .ran (within (definition.start + 1)) :=
    step_of_quiet (quiet (within _) rfl) noop
  have second : (within (definition.start + 1)).step = .ran (within (definition.start + 1 + 1)) :=
    step_of_quiet (quiet (within _) rfl) enter
  have entered : machine.Leads (within (definition.start + 1 + 1)) :=
    ((leads_of_step called).trans (leads_of_step first)).trans (leads_of_step second)
  have comes := does (within (definition.start + 1 + 1)) rfl rfl ⟨carried, fun other same _ _ => quiet other same⟩
  cases outcome with
  | error failure => exact (entered.comes comes).yields calls.atWork
  | ok after =>
    let last : Machine :=
      { (within (definition.start + 1 + 1)).withStore after with ip := definition.start + 2 + span body }
    have returns : last.step = .ran { here.withStore after with ip := here.ip + 1 } :=
      step_of_quiet (quiet last rfl) ret
    exact Leads.yields (entered.trans comes) calls.atWork returns

theorem Builtin.get?_table (word : Builtin) : table.get? word.name = some word := by
  cases word <;> decide

/-- In the beginning the table has all builtins. -/
theorem Machine.start_builtins (capacity : Nat) (tape : Tape) (word : Builtin) :
    (start capacity tape).functions.get? word.name = some (.builtin word) := by
  rw [start, Builtin.ofList_all, Dictionary.get?_map, Builtin.get?_table]
  rfl

theorem Tape.carries_ofItems (items : List Item) : (Tape.ofItems items).Carries 0 (Piece.ofItems items) := by
  rw [Tape.Carries, Piece.codeFrom_ofItems]
  exact Tape.holds_ofItems items

/-- The function of this name among the items: where it is defined, and its body. -/
def definitionOf (name : String) (items : List Item) : Option (Location × List Item) :=
  items.findSome? fun
    | .define place heading body _ => if heading.name = name then some (place, body) else none
    | _ => none

/-- The table has the builtins and, under `name`, the function that the text of a module defines, whose body stands on
its tape; what the body binds is not in the table. -/
structure Stocks (functions : Dictionary Callable) (text name : String) : Prop where
  builtins : ∀ word : Builtin, functions.get? word.name = some (.builtin word)
  function : ∃ file place body tape definition,
    (Assembly.keptProgram file text).bind (definitionOf name) = some (place, body) ∧
      functions.get? name = some (.user tape definition) ∧ tape.HoldsBody definition.start place body ∧
      ∀ bound ∈ namesIn body, functions.get? bound = none

/-- The instruction that defines a function puts it where it is wanted. -/
theorem Stocks.of_define (machine : Machine) {file : Nat} {text : String} {place stop : Location} {heading : Heading}
    {body : List Item} {rest : List Piece}
    (builtins : ∀ word : Builtin, machine.functions.get? word.name = some (.builtin word) ∧ heading.name ≠ word.name)
    (carried : machine.tape.Carries machine.ip (.item (.define place heading body stop) :: rest))
    (defined : (Assembly.keptProgram file text).bind (definitionOf heading.name) = some (place, body))
    (free : ∀ bound ∈ namesIn body, machine.functions.get? bound = none ∧ heading.name ≠ bound) :
    Stocks (machine.define ⟨heading, machine.ip + 1, machine.ip + 3 + span body⟩).functions text heading.name where
  builtins word := by
    rw [Machine.define, Dictionary.get?_insert, if_neg (builtins word).2, (builtins word).1]
  function := by
    refine ⟨file, place, body, machine.tape, ⟨heading, machine.ip + 1, machine.ip + 3 + span body⟩, defined, ?_,
      (Tape.carries_define carried).2.1, fun bound member => ?_⟩
    · rw [Machine.define, Dictionary.get?_insert, if_pos rfl]
    · rw [Machine.define, Dictionary.get?_insert, if_neg (free bound member).2, (free bound member).1]

end TapeMachine
