import TapeMachine.Proofs.Safety
import TapeMachine.Proofs.Stacks
import TapeMachine.Proofs.Visits

namespace TapeMachine

mutual

/-- No function is defined inside the item. -/
def Item.plain : Item → Bool
  | .number .. | .string .. | .word .. | .imports .. => true
  | .branch _ body _ | .repeats _ body _ | .bind _ _ body _ | .cell _ _ body _ => allPlain body
  | .choice _ first _ second _ | .loop _ first _ second _ => allPlain first && allPlain second
  | .define .. => false

def allPlain : List Item → Bool
  | [] => true
  | item :: rest => item.plain && allPlain rest

end

/-- Every function is defined outside all blocks and functions. -/
def flat (items : List Item) : Bool :=
  items.all fun
    | .define _ _ body _ => allPlain body
    | item => item.plain

mutual

/-- The names that blocks bind inside the item. -/
def Item.boundNames : Item → List String
  | .number .. | .string .. | .word .. | .imports .. => []
  | .branch _ body _ | .repeats _ body _ | .define _ _ body _ => namesIn body
  | .choice _ first _ second _ | .loop _ first _ second _ => namesIn first ++ namesIn second
  | .bind _ names body _ => names ++ namesIn body
  | .cell _ name body _ => name :: namesIn body

def namesIn : List Item → List String
  | [] => []
  | item :: rest => item.boundNames ++ namesIn rest

end

/-- The functions that are defined outside all blocks. -/
def headings (items : List Item) : List Heading :=
  items.filterMap fun
    | .define _ heading _ _ => some heading
    | _ => none

/-- One of the functions of this name declares the signature. -/
def Declares (items : List Item) (name : String) (signature : Signature) : Prop :=
  ∃ heading ∈ headings items, heading.name = name ∧ heading.signature = .ok signature

namespace Visit

/-- The types that the check of an item compares: what is wanted beside what is found. -/
def matched (visit : Visit) : List (Ty × Ty) :=
  match visit.item with
  | some (.word _ name) =>
    if name = Builtin.dup.name ∨ name = Builtin.swap.name then []
    else
      match visit.typing.signatures.get? name with
      | some signature => signature.inputs.reverse.zip visit.typing.types
      | none => []
  | some (.branch ..) | some (.choice ..) | some (.repeats ..) => [Ty.number].zip visit.typing.types
  | some (.loop _ test _ _ _) => [Ty.number].zip (visit.typing.past test).types
  | some (.define _ heading body _) =>
    match heading.signature with
    | .ok signature => signature.outputs.reverse.zip ((visit.typing.entered heading).past body).types
    | .error _ => []
  | _ => []

/-- Stacks of types that meet: those of the two branches of a choice, that before and that behind the body of
a block, and that behind the test of a loop beside the one it should leave. -/
def joined (visit : Visit) : List (List Ty × List Ty) :=
  let opened := visit.typing.opened
  match visit.item with
  | some (.branch _ body _) | some (.repeats _ body _) => [(opened.types, (opened.past body).types)]
  | some (.choice _ consequent _ alternative _) =>
    [((opened.past consequent).types, ((visit.typing.otherwise consequent).past alternative).types)]
  | some (.loop _ test _ body _) =>
    let tested := visit.typing.past test
    [(.number :: visit.typing.types, tested.types), (tested.opened.types, (tested.opened.past body).types)]
  | _ => []

/-- How deep the stack is before and behind the body of a repetition or a loop. -/
def bodyDepths (visit : Visit) : List (Nat × Nat) :=
  match visit.item with
  | some (.repeats _ body _) => [(visit.typing.opened.stack.size, (visit.typing.opened.past body).stack.size)]
  | some (.loop _ test _ body _) =>
    let opened := (visit.typing.past test).opened
    [(opened.stack.size, (opened.past body).stack.size)]
  | _ => []

/-- The types that a word leaves alone. -/
def waiting (visit : Visit) : List Ty :=
  match visit.item with
  | some (.word _ name) =>
    match visit.typing.signatures.get? name with
    | some signature => visit.typing.types.drop signature.inputs.length
    | none => visit.typing.types
  | _ => visit.typing.types

/-- What a check has seen is in the survey, and the stacks that it takes for the same can stand for one
another. -/
structure Smooth (survey : Survey) (reading : Reading) (visit : Visit) : Prop where
  visited : survey.visited visit.address visit.typing.types
  waiting : survey.waiting (visit.address + 1) visit.waiting
  matched : ∀ pair ∈ visit.matched, pair.1.accepts pair.2 = true → reading.Widens pair.2 pair.1
  joined : ∀ pair ∈ visit.joined, pair.1.length = pair.2.length →
    reading.WidensAll pair.1 pair.2 ∧ reading.WidensAll pair.2 pair.1
  steady : ∀ pair ∈ visit.bodyDepths, pair.1 = pair.2

end Visit

theorem Builtin.name_injective {first second : Builtin} (same : first.name = second.name) : first = second := by
  have found := Builtin.find?_name first
  rw [same, Builtin.find?_name] at found
  exact (Option.some.inj found).symm

namespace Survey

/-- The word or one of the functions of this name has the signature. -/
def Declared (survey : Survey) (name : String) (signature : Signature) : Prop :=
  survey.declares name signature ∨ ∃ word : Builtin, word.name = name ∧ word.signature = signature

/-- Whatever is declared under one name can be called as if it were declared by another declaration of the name.
The same holds of the two words that a check treats as it likes. -/
structure Consistent (survey : Survey) (reading : Reading) : Prop where
  agree : ∀ name first second, survey.Declared name first → survey.Declared name second →
    reading.WidensAll first.inputs second.inputs ∧ reading.WidensAll second.outputs first.outputs
  dup : ∀ signature t, survey.declares Builtin.dup.name signature →
    reading.WidensAll [t] signature.inputs.reverse ∧ reading.WidensAll signature.outputs.reverse [t, t]
  swap : ∀ signature t u, survey.declares Builtin.swap.name signature →
    reading.WidensAll [t, u] signature.inputs.reverse ∧ reading.WidensAll signature.outputs.reverse [u, t]

end Survey

namespace Typing

/-- The signatures come from somewhere, builtins have theirs, and no name of a function is bound. -/
structure Proper (survey : Survey) (typing : Typing) : Prop where
  declared : ∀ name signature, typing.signatures.get? name = some signature → survey.Declared name signature
  builtin : ∀ word : Builtin, typing.signatures.get? word.name ≠ none
  apart : ∀ name, typing.bindings.get? name ≠ none → ∀ signature, ¬ survey.declares name signature

/-- The point of a program where so much is known. -/
def point (typing : Typing) (address : Nat) : Point where
  address := address
  known name := typing.signatures.get? name ≠ none
  scope := typing.bindings
  types := typing.types

variable {typing opened : Typing}

/-- The type that decides about a block is on top and fits a number. -/
theorem operand_eq_ok {construct : String} (taken : typing.operand construct = .ok opened) :
    opened = typing.opened ∧ ∃ t, typing.types = t :: opened.types ∧ Ty.number.accepts t = true := by
  obtain ⟨⟨t, stack⟩, popped, taken⟩ := Outcome.bind_eq_ok taken
  dsimp only at taken
  split at taken
  · rename_i accepted
    have entries := Stack.entries_of_popOne popped
    have same : stack = typing.stack.drop 1 := by
      unfold Stack.popOne at popped
      split at popped
      · cases popped
        rfl
      · cases popped
    cases taken
    exact ⟨by rw [same]; rfl, t, entries, accepted⟩
  · cases taken

/-- Names take as many types from the stack, and the deepest of them goes with the first name. -/
theorem bind_eq_ok {names : List String} (bound : typing.bind names = .ok opened) :
    typing.bound names = opened ∧ opened.signatures = typing.signatures ∧
      ∃ taken, typing.types = taken ++ opened.types ∧ taken.length = names.length ∧
        opened.bindings = typing.bindings.bind names taken.reverse := by
  have same : typing.bound names = opened := by rw [Typing.bound, bound]; rfl
  obtain ⟨⟨values, stack⟩, popped, rfl⟩ := Outcome.map_eq_ok bound
  obtain ⟨taken, entries, count, rfl⟩ := Stack.entries_of_pop popped
  exact ⟨same, rfl, taken, entries, count, rfl⟩

theorem push_eq_ok {t : Ty} (pushed : typing.push t = .ok opened) :
    opened.signatures = typing.signatures ∧ opened.bindings = typing.bindings ∧ opened.types = t :: typing.types := by
  obtain ⟨stack, accepted, rfl⟩ := Outcome.map_eq_ok pushed
  exact ⟨rfl, rfl, Stack.entries_of_push accepted⟩

/-- A body starts with the inputs of the function alone, and with its signature known. -/
theorem enter_eq_ok {heading : Heading} {signature : Signature} (declared : heading.signature = .ok signature)
    (entered : typing.enter heading.name signature = .ok opened) :
    typing.entered heading = opened ∧ opened.signatures = typing.signatures.insert heading.name signature ∧
      opened.bindings = typing.bindings ∧ opened.types = signature.inputs.reverse := by
  have same : typing.entered heading = opened := by
    rw [Typing.entered, declared]
    simp only [Except.bind, entered]
    rfl
  obtain ⟨stack, accepted, rfl⟩ := Outcome.map_eq_ok entered
  have entries := Stack.entries_of_pushAll accepted
  rw [List.append_nil] at entries
  exact ⟨same, rfl, rfl, entries⟩

theorem conclude_eq_ok {closed : Typing} {name : String} {signature : Signature} {done : Unit}
    (concluded : closed.conclude name signature = .ok done) :
    Ty.acceptsAll signature.outputs closed.stack.toList = true := by
  unfold conclude at concluded
  split at concluded
  · assumption
  · cases concluded

variable {survey : Survey} {reading : Reading} {next : Typing} {name : String} {place : Location} {start : Nat}

/-- Types that the check accepts one beside the other may stand for one another, as far as the reading takes what is
compared for the same. -/
theorem widensAll_of_accepted {wanted found : List Ty} (accepted : Ty.acceptsAll wanted found = true)
    (matched : ∀ pair ∈ wanted.reverse.zip found.reverse, pair.1.accepts pair.2 = true → reading.Widens pair.2 pair.1) :
    reading.WidensAll found.reverse wanted.reverse := by
  obtain ⟨count, all⟩ := Bool.and_eq_true_iff.1 accepted
  have pairs : List.Forall₂ (fun t u => Ty.accepts t u = true) wanted found := by
    refine List.forall₂_iff_zip.2 ⟨beq_iff_eq.1 count, ?_⟩
    intro t u member
    exact List.all_eq_true.1 all (t, u) member
  have reversed := List.rel_reverse pairs
  refine List.Forall₂.flip (List.forall₂_iff_zip.2 ⟨reversed.length_eq, ?_⟩)
  intro t u member
  exact matched (t, u) member (List.forall₂_zip reversed member)

/-- A call of a function leaves alone what its declaration says, whichever declaration that is. -/
theorem waiting_eq (consistent : survey.Consistent reading) (proper : typing.Proper survey) {signature : Signature}
    (known : typing.signatures.get? name ≠ none) (declares : survey.declares name signature) {taken rest : List Ty}
    (split : typing.types = taken ++ rest) (count : taken.length = signature.inputs.length) :
    (Visit.mk start typing (some (.word place name))).waiting = rest := by
  cases found : typing.signatures.get? name with
  | none => exact (known found).elim
  | some other =>
    have agree := (consistent.agree name other signature (proper.declared name other found) (.inl declares)).1
    simp only [Visit.waiting, found]
    rw [split, agree.length_eq, ← count, List.drop_left]

/-- A word that passes by its signature does so for every declaration of its name, since those agree. -/
theorem meets_of_signature (consistent : survey.Consistent reading) (proper : typing.Proper survey)
    {signature : Signature} (found : typing.signatures.get? name = some signature) (noDup : name ≠ Builtin.dup.name)
    (noSwap : name ≠ Builtin.swap.name) {taken rest : List Ty} (split : typing.types = taken ++ rest)
    (fits : reading.WidensAll taken signature.inputs.reverse)
    (waits : survey.waiting (start + 1) (Visit.mk start typing (some (.word place name))).waiting) :
    survey.Meets reading name start typing.types (signature.outputs.reverse ++ rest) := by
  have declared := proper.declared name signature found
  have known : typing.signatures.get? name ≠ none := by rw [found]; exact Option.some_ne_none _
  have compatible : ∀ other, survey.Declared name other →
      reading.WidensAll taken other.inputs.reverse ∧
        reading.WidensAll (other.outputs.reverse ++ rest) (signature.outputs.reverse ++ rest) := by
    intro other also
    obtain ⟨inputs, outputs⟩ := consistent.agree name signature other declared also
    exact ⟨fits.trans (List.rel_reverse inputs),
      Reading.WidensAll.append (List.rel_reverse outputs) (Reading.widensAll_refl rest)⟩
  constructor
  · rintro word rfl
    obtain ⟨inputs, outputs⟩ := compatible word.signature (.inr ⟨word, rfl, rfl⟩)
    rw [split]
    refine (Reading.serves_declared ?_ ?_ rest).widen outputs (inputs.append (Reading.widensAll_refl rest))
    · rintro rfl
      exact noDup rfl
    · rintro rfl
      exact noSwap rfl
  · intro other declares
    obtain ⟨inputs, outputs⟩ := compatible other (.inl declares)
    have count : taken.length = other.inputs.length := by rw [inputs.length_eq, List.length_reverse]
    refine ⟨taken, rest, split, inputs, outputs, ?_⟩
    rw [waiting_eq consistent proper known declares split count] at waits
    exact waits

/-- The check treats `dup` as a copy of whatever is on top; any other declaration of the name has to do as much. -/
theorem meets_dup (consistent : survey.Consistent reading) (proper : typing.Proper survey) {t : Ty} {rest : List Ty}
    (split : typing.types = t :: rest)
    (waits : survey.waiting (start + 1) (Visit.mk start typing (some (.word place Builtin.dup.name))).waiting) :
    survey.Meets reading Builtin.dup.name start typing.types (t :: t :: rest) := by
  constructor
  · intro word same
    rw [Builtin.name_injective same, split]
    exact Reading.serves_dup t rest
  · intro signature declares
    obtain ⟨inputs, outputs⟩ := consistent.dup signature t declares
    have count : [t].length = signature.inputs.length := by rw [inputs.length_eq, List.length_reverse]
    refine ⟨[t], rest, split, inputs, outputs.append (Reading.widensAll_refl rest), ?_⟩
    rw [waiting_eq consistent proper (proper.builtin .dup) declares split count] at waits
    exact waits

/-- The same for `swap` and the two types on top. -/
theorem meets_swap (consistent : survey.Consistent reading) (proper : typing.Proper survey) {t u : Ty} {rest : List Ty}
    (split : typing.types = t :: u :: rest)
    (waits : survey.waiting (start + 1) (Visit.mk start typing (some (.word place Builtin.swap.name))).waiting) :
    survey.Meets reading Builtin.swap.name start typing.types (u :: t :: rest) := by
  constructor
  · intro word same
    rw [Builtin.name_injective same, split]
    exact Reading.serves_swap t u rest
  · intro signature declares
    obtain ⟨inputs, outputs⟩ := consistent.swap signature t u declares
    have count : [t, u].length = signature.inputs.length := by rw [inputs.length_eq, List.length_reverse]
    refine ⟨[t, u], rest, split, inputs, outputs.append (Reading.widensAll_refl rest), ?_⟩
    rw [waiting_eq consistent proper (proper.builtin .swap) declares split count] at waits
    exact waits

/-- A signature that applies takes its inputs off the top, leaves its outputs there and does not touch what is below.
-/
theorem apply_eq_ok {signature : Signature} {stack after : Stack Ty}
    (applied : signature.apply name stack = .ok after) :
    ∃ taken rest, stack.entries = taken ++ rest ∧ taken.length = signature.inputs.length ∧
      Ty.acceptsAll signature.inputs taken.reverse = true ∧ after.entries = signature.outputs.reverse ++ rest := by
  unfold Signature.apply at applied
  split at applied
  · cases applied
  · rename_i found rest popped
    obtain ⟨taken, entries, count, rfl⟩ := Stack.entries_of_pop popped
    split at applied
    · rename_i accepted
      exact ⟨taken, rest.entries, entries, count, accepted, Stack.entries_of_pushAll applied⟩
    · cases applied

/-- The operands of a word whose signature is applied fit it, as far as the reading is concerned. -/
theorem fits_of_smooth {signature : Signature} (found : typing.signatures.get? name = some signature)
    (noDup : name ≠ Builtin.dup.name) (noSwap : name ≠ Builtin.swap.name)
    (smooth : (Visit.mk start typing (some (.word place name))).Smooth survey reading) {taken rest : List Ty}
    (split : typing.types = taken ++ rest) (count : taken.length = signature.inputs.length)
    (accepted : Ty.acceptsAll signature.inputs taken.reverse = true) :
    reading.WidensAll taken signature.inputs.reverse := by
  have matched := smooth.matched
  simp only [Visit.matched, noDup, noSwap, or_self, if_false, found] at matched
  rw [← List.reverse_reverse taken]
  refine widensAll_of_accepted accepted fun pair member => matched pair ?_
  rw [List.reverse_reverse] at member
  rw [split, ← List.append_nil signature.inputs.reverse, List.zip_append (by rw [List.length_reverse, count])]
  exact List.mem_append_left _ member

/-- What the check of a word allows holds of the word, whatever it will stand for. -/
theorem flows_word (consistent : survey.Consistent reading) (proper : typing.Proper survey)
    (called : typing.call name = .ok next)
    (smooth : (Visit.mk start typing (some (.word place name))).Smooth survey reading) :
    survey.Flows reading (typing.point start) (.word place name) (next.point (start + 1)) ∧
      next.signatures = typing.signatures ∧ next.bindings = typing.bindings := by
  -- The check knows `dup` and `swap` by name; any other word has a signature or is bound.
  unfold call at called
  split at called
  · rename_i same
    subst same
    cases accepted : Stack.accepted typing.stack.dup with
    | error => rw [accepted] at called; cases called
    | ok stack =>
      rw [accepted] at called
      cases called
      obtain ⟨t, rest, split, after⟩ := Stack.entries_of_dup accepted
      have meets := meets_dup consistent proper split smooth.waiting
      rw [← after] at meets
      exact ⟨.call (proper.builtin .dup) meets, rfl, rfl⟩
  · rename_i noDup
    split at called
    · rename_i same
      subst same
      cases swapped : typing.stack.swap with
      | error => rw [swapped] at called; cases called
      | ok stack =>
        rw [swapped] at called
        cases called
        obtain ⟨t, u, rest, split, after⟩ := Stack.entries_of_swap swapped
        have meets := meets_swap consistent proper split smooth.waiting
        rw [← after] at meets
        exact ⟨.call (proper.builtin .swap) meets, rfl, rfl⟩
    · rename_i noSwap
      split at called
      · rename_i signature found
        cases applied : signature.apply name typing.stack with
        | error => rw [applied] at called; cases called
        | ok stack =>
          rw [applied] at called
          cases called
          obtain ⟨taken, rest, split, count, accepted, after⟩ := apply_eq_ok applied
          have fits := fits_of_smooth found noDup noSwap smooth split count accepted
          have meets := meets_of_signature consistent proper found noDup noSwap split fits smooth.waiting
          rw [← after] at meets
          refine ⟨.call ?_ meets, rfl, rfl⟩
          rw [found]
          exact Option.some_ne_none _
      · rename_i unknown
        split at called
        · rename_i t found
          obtain ⟨signatures, bindings, types⟩ := push_eq_ok called
          refine ⟨?_, signatures, bindings⟩
          have foreign : survey.Foreign name := by
            constructor
            · rintro word rfl
              exact proper.builtin word unknown
            · refine proper.apart name ?_
              rw [found]
              exact Option.some_ne_none _
          rw [point, point, signatures, bindings, types]
          exact .fetch foreign found
        · cases called

end Typing

end TapeMachine
