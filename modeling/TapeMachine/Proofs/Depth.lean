import TapeMachine.Proofs.Checked

namespace TapeMachine

theorem Outcome.length_of_mapM {α β : Type} {f : α → Outcome β} {given : List α} {made : List β}
    (done : given.mapM f = .ok made) : made.length = given.length := by
  induction given generalizing made with
  | nil =>
    cases done
    rfl
  | cons first rest ih =>
    rw [List.mapM_cons] at done
    cases head : f first with
    | error => rw [head] at done; cases done
    | ok found =>
      cases tail : rest.mapM f with
      | error => rw [head, tail] at done; cases done
      | ok others =>
        rw [head, tail] at done
        cases done
        exact congrArg (· + 1) (ih tail)

/-- A signature has as many types as its heading has type names. -/
theorem Heading.length_of_signature {heading : Heading} {signature : Signature}
    (declared : heading.signature = .ok signature) :
    signature.inputs.length = heading.inputs.length ∧ signature.outputs.length = heading.outputs.length := by
  unfold Heading.signature at declared
  cases taken : heading.inputs.mapM Ty.named with
  | error => rw [taken] at declared; cases declared
  | ok inputs =>
    cases left : heading.outputs.mapM Ty.named with
    | error => rw [taken, left] at declared; cases declared
    | ok outputs =>
      rw [taken, left] at declared
      cases declared
      exact ⟨Outcome.length_of_mapM taken, Outcome.length_of_mapM left⟩

/-- What the definitions of a program declare, with nothing said of its types. -/
def depthSurvey (items : List Item) : Survey where
  visited _ _ := True
  waiting _ _ := True
  declares := Declares items

/-- All that is defined under one name, the builtin of that name included, takes as many operands and leaves as
many results. -/
structure SameArity (items : List Item) : Prop where
  defined : ∀ first ∈ headings items, ∀ second ∈ headings items, first.name = second.name →
    first.inputs.length = second.inputs.length ∧ first.outputs.length = second.outputs.length
  builtin : ∀ heading ∈ headings items, ∀ word ∈ Builtin.find? heading.name,
    heading.inputs.length = word.inputs.length ∧ heading.outputs.length = word.outputs.length

variable {items : List Item}

theorem Reading.depth_widensAll {types wider : List Ty} (same : types.length = wider.length) :
    depth.WidensAll types wider :=
  List.forall₂_iff_zip.2 ⟨same, fun _ _ _ => trivial⟩

theorem SameArity.builtin_length (arity : SameArity items) {signature : Signature} {word : Builtin}
    (declared : (depthSurvey items).declares word.name signature) :
    signature.inputs.length = word.inputs.length ∧ signature.outputs.length = word.outputs.length := by
  obtain ⟨heading, member, named, signed⟩ := declared
  obtain ⟨inputs, outputs⟩ := Heading.length_of_signature signed
  obtain ⟨left, right⟩ := arity.builtin heading member word (by rw [named]; exact word.find?_name)
  exact ⟨inputs.trans left, outputs.trans right⟩

theorem SameArity.length_eq (arity : SameArity items) {name : String} {first second : Signature}
    (declared : (depthSurvey items).Declared name first) (also : (depthSurvey items).Declared name second) :
    first.inputs.length = second.inputs.length ∧ first.outputs.length = second.outputs.length := by
  rcases declared with user | ⟨word, rfl, rfl⟩
  · rcases also with other | ⟨word, rfl, rfl⟩
    · obtain ⟨heading, member, named, signed⟩ := user
      obtain ⟨heading', member', named', signed'⟩ := other
      obtain ⟨inputs, outputs⟩ := Heading.length_of_signature signed
      obtain ⟨inputs', outputs'⟩ := Heading.length_of_signature signed'
      obtain ⟨left, right⟩ := arity.defined heading member heading' member' (named.trans named'.symm)
      exact ⟨by omega, by omega⟩
    · exact arity.builtin_length user
  · rcases also with other | ⟨word', same, rfl⟩
    · obtain ⟨left, right⟩ := arity.builtin_length other
      exact ⟨left.symm, right.symm⟩
    · rw [Builtin.name_injective same]
      exact ⟨rfl, rfl⟩

theorem depthSurvey_consistent (arity : SameArity items) : (depthSurvey items).Consistent .depth where
  agree := by
    intro name first second declared also
    obtain ⟨inputs, outputs⟩ := arity.length_eq declared also
    exact ⟨Reading.depth_widensAll inputs, Reading.depth_widensAll outputs.symm⟩
  dup := by
    intro signature t declared
    obtain ⟨inputs, outputs⟩ := arity.builtin_length declared
    exact ⟨Reading.depth_widensAll (by rw [List.length_reverse, inputs]; rfl),
      Reading.depth_widensAll (by rw [List.length_reverse, outputs]; rfl)⟩
  swap := by
    intro signature t u declared
    obtain ⟨inputs, outputs⟩ := arity.builtin_length declared
    exact ⟨Reading.depth_widensAll (by rw [List.length_reverse, inputs]; rfl),
      Reading.depth_widensAll (by rw [List.length_reverse, outputs]; rfl)⟩

theorem depth_smooth {visit : Visit} (steady : ∀ pair ∈ visit.bodyDepths, pair.1 = pair.2) :
    visit.Smooth (depthSurvey items) .depth where
  visited := trivial
  waiting := trivial
  matched _ _ _ _ _ := trivial
  joined _ _ same := ⟨Reading.depth_widensAll same, Reading.depth_widensAll same.symm⟩
  steady := steady

/-- Programs that pass a check neither lack operands nor lose names. This needs bodies of repetitions and loops that
leave the stack as deep as they find it, functions that are defined outside all blocks and functions, definitions of
one name that agree in their numbers of operands and results, and names of functions that no block binds. Then no
slice of a run shows that the stack is too short or a name unknown, whatever lines come in; and when a run stops that
no failure has ended before, nothing is left on the stack. -/
theorem checked_runs_never_underflow (settings : Settings) (items : List Item) (workspace : Workspace)
    (free : standAlone items = true) (accepted : (settings.check items workspace).1.isOk = true)
    (steady : ∀ visit ∈ visits items, ∀ pair ∈ visit.bodyDepths, pair.1 = pair.2)
    (flattened : flat items = true) (arity : SameArity items)
    (apart : ∀ heading ∈ headings items, heading.name ∉ namesIn items)
    {failed : Bool} {run : Run} {before : Workspace} (session : Session settings items workspace failed run before)
    (cycles : Nat) :
    (∀ failure, (run.execute settings cycles before).1 = .error failure →
      failure.cause.code ≠ .stackUnderflow ∧ failure.cause.code ≠ .undefinedName) ∧
    (failed = false → (run.execute settings cycles before).1 = .stopped →
      (run.execute settings cycles before).2.1.machine.operands.entries = []) := by
  have stage := session.follows (depthSurvey_consistent arity) rfl free flattened apart accepted
    fun visit member => depth_smooth (steady visit member)
  have follows := stage.execute (Walker.upholds_follows _ _) settings cycles before
  constructor
  · intro failure shown
    rcases follows.harmless failure shown with harmless | ⟨-, mismatch⟩
    · exact ⟨harmless.ne rfl, harmless.ne rfl⟩
    · rw [mismatch]
      exact ⟨by decide, by decide⟩
  · intro clean shown
    obtain ⟨walker, held, ends, same⟩ := follows.ended clean shown
    rw [same]
    exact held.empty ends

/-- The program `fn double n : n do dup + end 1 2 repeat double end while dup 2 < do double end pr`. -/
def doubling : List Item :=
  [.define ⟨0, 0, 2⟩ ⟨"double", ["n"], ["n"]⟩ [.word ⟨0, 19, 22⟩ "dup", .word ⟨0, 23, 24⟩ "+"] ⟨0, 25, 28⟩,
    .number ⟨0, 29, 30⟩ .one, .number ⟨0, 31, 32⟩ .two,
    .repeats ⟨0, 33, 39⟩ [.word ⟨0, 40, 46⟩ "double"] ⟨0, 47, 50⟩,
    .loop ⟨0, 51, 56⟩ [.word ⟨0, 57, 60⟩ "dup", .number ⟨0, 61, 62⟩ .two, .word ⟨0, 63, 64⟩ "<"] ⟨0, 65, 67⟩
      [.word ⟨0, 68, 74⟩ "double"] ⟨0, 75, 78⟩,
    .word ⟨0, 79, 81⟩ "pr"]

/-- That program never lacks operands, and leaves nothing behind. -/
theorem doubling_never_underflows :
    (Settings.check { library := .memory {}, capacity := 4 } doubling {}).1.isOk = true ∧
    ∀ failed run before, Session { library := .memory {}, capacity := 4 } doubling {} failed run before → ∀ cycles,
      (∀ failure, (run.execute { library := .memory {}, capacity := 4 } cycles before).1 = .error failure →
        failure.cause.code ≠ .stackUnderflow ∧ failure.cause.code ≠ .undefinedName) ∧
      (failed = false → (run.execute { library := .memory {}, capacity := 4 } cycles before).1 = .stopped →
        (run.execute { library := .memory {}, capacity := 4 } cycles before).2.1.machine.operands.entries = []) := by
  have accepted : (Settings.check { library := .memory {}, capacity := 4 } doubling {}).1.isOk = true := by
    decide +kernel
  have steady : ∀ visit ∈ visits doubling, ∀ pair ∈ visit.bodyDepths, pair.1 = pair.2 := by
    decide +kernel
  refine ⟨accepted, ?_⟩
  intro failed run before session cycles
  exact checked_runs_never_underflow _ doubling {} rfl accepted steady rfl ⟨by decide, by decide⟩ (by decide)
    session cycles

end TapeMachine
