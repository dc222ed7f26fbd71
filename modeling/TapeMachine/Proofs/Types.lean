import Mathlib.Data.List.Nodup
import TapeMachine.Proofs.Checked

namespace TapeMachine

/-- What the check of a program knows at each address, and what its definitions declare. -/
def typeSurvey (items : List Item) : Survey where
  visited address types := ∃ visit, (visits items)[address]? = some visit ∧ visit.typing.types = types
  waiting address types := ∃ visit, (visits items)[address - 1]? = some visit ∧ visit.waiting = types
  declares := Declares items

/-- The types that wait for calls to return, those of the innermost call first. -/
def awaitedTypes (items : List Item) : List Frame → Option (List Ty)
  | [] => some []
  | .call _ address :: outer =>
    (visits items)[address - 1]?.bind fun visit => (awaitedTypes items outer).map (visit.waiting ++ ·)
  | _ :: outer => awaitedTypes items outer

/-- The types that a check knows for the whole stack of a machine before an instruction, top first: those at the
address of the instruction, and behind them those which the calls under way have left alone. -/
def expectedTypes (items : List Item) (machine : Machine) : Option (List Ty) :=
  (visits items)[machine.ip]?.bind fun visit =>
    (awaitedTypes items machine.frames).map (visit.typing.types ++ ·)

/-- Every function has a name of its own, which neither a builtin has nor a block binds. -/
structure OwnNames (items : List Item) : Prop where
  distinct : ((headings items).map Heading.name).Nodup
  user : ∀ heading ∈ headings items, Builtin.find? heading.name = none
  apart : ∀ heading ∈ headings items, heading.name ∉ namesIn items

variable {items : List Item}

theorem OwnNames.not_builtin (own : OwnNames items) {word : Builtin} {signature : Signature} :
    ¬ Declares items word.name signature := by
  rintro ⟨heading, member, named, -⟩
  have none := own.user heading member
  rw [named, Builtin.find?_name] at none
  cases none

theorem OwnNames.unique (own : OwnNames items) {name : String} {first second : Signature}
    (declared : (typeSurvey items).Declared name first) (also : (typeSurvey items).Declared name second) :
    first = second := by
  rcases declared with user | ⟨word, rfl, rfl⟩
  · rcases also with other | ⟨word, rfl, rfl⟩
    · obtain ⟨heading, member, named, signed⟩ := user
      obtain ⟨heading', member', named', signed'⟩ := other
      cases List.inj_on_of_nodup_map own.distinct member member' (named.trans named'.symm)
      exact Except.ok.inj (signed.symm.trans signed')
    · exact (own.not_builtin user).elim
  · rcases also with other | ⟨word', same, rfl⟩
    · exact (own.not_builtin other).elim
    · rw [Builtin.name_injective same]

theorem typeSurvey_consistent (own : OwnNames items) : (typeSurvey items).Consistent .types where
  agree := by
    intro name first second declared also
    rw [own.unique declared also]
    exact ⟨Reading.widensAll_refl _, Reading.widensAll_refl _⟩
  dup _ _ declared := (own.not_builtin declared).elim
  swap _ _ _ declared := (own.not_builtin declared).elim

/-- A type that is accepted is the type that is wanted, unless the type that is wanted is `any`. -/
theorem widens_of_accepts {wanted found : Ty} (accepted : wanted.accepts found = true)
    (certain : found = .any → wanted = .any) : Reading.types.Widens found wanted := by
  intro value typed
  by_cases loose : wanted = .any
  · exact .inl loose
  · have known : found ≠ .any := fun unknown => loose (certain unknown)
    have same : wanted = found := by simpa [Ty.accepts, loose, known] using accepted
    rw [same]
    exact typed

theorem steady_of_joined {visit : Visit} (balanced : ∀ pair ∈ visit.joined, pair.1 = pair.2) :
    ∀ pair ∈ visit.bodyDepths, pair.1 = pair.2 := by
  obtain ⟨address, typing, item⟩ := visit
  have size_of_types : ∀ first second : Typing, first.types = second.types → first.stack.size = second.stack.size := by
    intro first second same
    rw [first.stack.size_eq, second.stack.size_eq]
    exact congrArg List.length same
  cases item with
  | none => exact fun _ member => nomatch member
  | some item =>
    cases item with
    | repeats place body stop =>
      intro pair member
      cases List.mem_singleton.1 member
      exact size_of_types _ _ (balanced _ List.mem_cons_self)
    | loop place test middle body stop =>
      intro pair member
      cases List.mem_singleton.1 member
      exact size_of_types _ _ (balanced _ (List.mem_cons_of_mem _ List.mem_cons_self))
    | _ => exact fun _ member => nomatch member

theorem type_smooth {visit : Visit} (member : visit ∈ visits items)
    (balanced : ∀ pair ∈ visit.joined, pair.1 = pair.2)
    (certain : ∀ pair ∈ visit.matched, pair.2 = .any → pair.1 = .any) : visit.Smooth (typeSurvey items) .types where
  visited := ⟨visit, getElem?_visits member, rfl⟩
  waiting := ⟨visit, getElem?_visits member, rfl⟩
  matched pair found accepted := widens_of_accepts accepted (certain pair found)
  joined := by
    intro pair found _
    rw [balanced pair found]
    exact ⟨Reading.widensAll_refl _, Reading.widensAll_refl _⟩
  steady := steady_of_joined balanced

theorem Survey.Hosts.awaited {functions : Dictionary Routine} {there : Point} {below : List Value}
    {beneath : List (Dictionary Value)} {blocks : List Block}
    (hosts : (typeSurvey items).Hosts .types functions there below beneath blocks) :
    ∃ types, awaitedTypes items (blocks.map Block.frame) = some types ∧ Value.HaveTypes types below := by
  induction hosts with
  | program => exact ⟨[], rfl, .nil⟩
  | consequent _ _ _ ih | repeats _ _ _ _ _ ih | test _ _ _ _ ih | body _ _ _ _ ih | cell _ _ _ ih => exact ih
  | call _ _ _ _ waits fits _ _ ih =>
    obtain ⟨visit, found, rfl⟩ := waits
    obtain ⟨types, outer, typed⟩ := ih
    refine ⟨visit.waiting ++ types, ?_, List.rel_append fits typed⟩
    simp only [List.map_cons, Block.frame, awaitedTypes, found, outer]
    rfl

theorem Walker.Follows.expected {walker : Walker} (follows : walker.Follows (typeSurvey items) .types)
    (returns : walker.code = [] → ∃ tape address rest outer, walker.blocks = .call tape address rest :: outer) :
    ∃ types, expectedTypes items walker.machine = some types ∧ Value.HaveTypes types walker.store.operands.entries := by
  obtain ⟨here, there, below, beneath, tracked⟩ := follows
  obtain ⟨types, ⟨visit, found, rfl⟩, held⟩ := tracked.visited returns
  obtain ⟨lower, outer, typed⟩ := tracked.hosts.awaited
  obtain ⟨own, entries, fits⟩ := held.operands
  refine ⟨visit.typing.types ++ lower, ?_, ?_⟩
  · have ip : walker.machine.ip = walker.ip := rfl
    have frames : walker.machine.frames = walker.blocks.map Block.frame := rfl
    rw [expectedTypes, ip, found, frames, outer]
    rfl
  · rw [entries]
    exact List.rel_append fits typed

/-- Programs that pass a check meet no value of a wrong type. This needs functions that are defined outside all
blocks and functions and have names of their own; stacks of types that are the same wherever control can come from
two sides, and a number on top of what was there behind the test of a loop; and no `any` that is found where
something else is wanted. Then no slice of a run shows that types do not match, whatever lines come in; and whenever a
slice is about to carry an instruction out, the values on the stack have the types that the check knows there. -/
theorem checked_runs_keep_types (settings : Settings) (items : List Item) (workspace : Workspace)
    (free : standAlone items = true) (accepted : (settings.check items workspace).1.isOk = true)
    (flattened : flat items = true) (own : OwnNames items)
    (balanced : ∀ visit ∈ visits items, ∀ pair ∈ visit.joined, pair.1 = pair.2)
    (certain : ∀ visit ∈ visits items, ∀ pair ∈ visit.matched, pair.2 = .any → pair.1 = .any)
    {failed : Bool} {run : Run} {before : Workspace} (session : Session settings items workspace failed run before) :
    (∀ cycles failure, (run.execute settings cycles before).1 = .error failure →
      failure.cause.code ≠ .typeMismatch) ∧
    (∀ here, run.machine.phase = .running → run.machine.fault = none → run.machine.settle = (.ok true, here) →
      ∃ types, expectedTypes items here = some types ∧ Value.HaveTypes types here.operands.entries) := by
  have stage := session.follows (typeSurvey_consistent own) rfl free flattened own.apart accepted
    fun visit member => type_smooth member (balanced visit member) (certain visit member)
  have upholds := Walker.upholds_follows (typeSurvey items) .types
  constructor
  · intro cycles failure shown
    rcases (stage.execute upholds settings cycles before).harmless failure shown with harmless | ⟨lenient, -⟩
    · exact harmless.ne rfl
    · exact lenient.elim
  · intro here running clean settles
    obtain ⟨walker, follows, rfl, returns⟩ := stage.settled upholds running clean settles
    exact follows.expected returns

/-- The program `fn double n : n do dup + end 3 let x do x double end 5 > if "big" else "small" end pr`. -/
def sizing : List Item :=
  [.define ⟨0, 0, 2⟩ ⟨"double", ["n"], ["n"]⟩ [.word ⟨0, 19, 22⟩ "dup", .word ⟨0, 23, 24⟩ "+"] ⟨0, 25, 28⟩,
    .number ⟨0, 29, 30⟩ (.ofNat 3),
    .bind ⟨0, 31, 34⟩ ["x"] [.word ⟨0, 40, 41⟩ "x", .word ⟨0, 42, 48⟩ "double"] ⟨0, 49, 52⟩,
    .number ⟨0, 53, 54⟩ (.ofNat 5), .word ⟨0, 55, 56⟩ ">",
    .choice ⟨0, 57, 59⟩ [.string ⟨0, 60, 65⟩ "big"] ⟨0, 66, 70⟩ [.string ⟨0, 71, 78⟩ "small"] ⟨0, 79, 82⟩,
    .word ⟨0, 83, 85⟩ "pr"]

/-- The values of that program have the types that its check knows. -/
theorem sizing_keeps_types :
    (Settings.check { library := .memory {}, capacity := 4 } sizing {}).1.isOk = true ∧
    ∀ failed run before, Session { library := .memory {}, capacity := 4 } sizing {} failed run before →
      (∀ cycles failure, (run.execute { library := .memory {}, capacity := 4 } cycles before).1 = .error failure →
        failure.cause.code ≠ .typeMismatch) ∧
      (∀ here, run.machine.phase = .running → run.machine.fault = none → run.machine.settle = (.ok true, here) →
        ∃ types, expectedTypes sizing here = some types ∧ Value.HaveTypes types here.operands.entries) := by
  have accepted : (Settings.check { library := .memory {}, capacity := 4 } sizing {}).1.isOk = true := by
    decide +kernel
  have balanced : ∀ visit ∈ visits sizing, ∀ pair ∈ visit.joined, pair.1 = pair.2 := by
    decide +kernel
  have certain : ∀ visit ∈ visits sizing, ∀ pair ∈ visit.matched, pair.2 = .any → pair.1 = .any := by
    decide +kernel
  refine ⟨accepted, ?_⟩
  intro failed run before session
  exact checked_runs_keep_types _ sizing {} rfl accepted rfl ⟨by decide, by decide, by decide⟩ balanced certain session

end TapeMachine
