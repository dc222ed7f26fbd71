import TapeMachine.Proofs.Session
import TapeMachine.Proofs.Words

namespace TapeMachine

/-- How much a type says of the values that are found where it is expected. -/
structure Reading where
  admits : Ty → Value → Prop
  /-- May a run fail because a value has not the type that is wanted? -/
  lenient : Prop
  typed : ∀ {t value}, Value.HasType value t → admits t value
  strict : ∀ {t value}, admits t value → lenient ∨ value.HasType t

namespace Reading

/-- Only how many values there are is taken from a stack of types. -/
def depth : Reading where
  admits _ _ := True
  lenient := True
  typed _ := trivial
  strict _ := .inl trivial

/-- Values have the types of a stack of types. -/
def types : Reading where
  admits t value := value.HasType t
  lenient := False
  typed := id
  strict := .inr

variable (reading : Reading)

/-- The failures that runs may end with. -/
def Allows (cause : Cause) : Prop :=
  cause.Harmless ∨ reading.lenient ∧ cause.code = .typeMismatch

/-- Values that stand where types are expected, both top first. -/
def Fits (types : List Ty) (values : List Value) : Prop :=
  List.Forall₂ reading.admits types values

/-- Where the second type is expected, a value of the first one will do. -/
def Widens (t u : Ty) : Prop :=
  ∀ value, reading.admits t value → reading.admits u value

def WidensAll (types wider : List Ty) : Prop :=
  List.Forall₂ reading.Widens types wider

/-- A frame of a scope binds the names that are expected to values that are. -/
def FitsFrame (types : Dictionary Ty) (values : Dictionary Value) : Prop :=
  ∀ name, Option.Rel reading.admits (types.get? name) (values.get? name)

variable {reading : Reading} {types wider widest : List Ty} {values : List Value}

theorem widensAll_refl (types : List Ty) : reading.WidensAll types types :=
  List.forall₂_same.2 fun _ _ _ admitted => admitted

theorem WidensAll.trans (first : reading.WidensAll types wider) (second : reading.WidensAll wider widest) :
    reading.WidensAll types widest := by
  induction first generalizing widest with
  | nil => exact second
  | cons head _ ih =>
    cases second with
    | cons head' tail => exact .cons (fun value admitted => head' value (head value admitted)) (ih tail)

theorem WidensAll.append {lower lowest : List Ty} (first : reading.WidensAll types wider)
    (second : reading.WidensAll lower lowest) : reading.WidensAll (types ++ lower) (wider ++ lowest) :=
  List.rel_append first second

/-- Values that fit types fit wider ones. -/
theorem Fits.widen (fits : reading.Fits types values) (widens : reading.WidensAll types wider) :
    reading.Fits wider values := by
  induction fits generalizing wider with
  | nil => cases widens; exact .nil
  | cons admitted _ ih =>
    cases widens with
    | cons head tail => exact .cons (head _ admitted) (ih tail)

theorem Fits.append {lower : List Ty} {below : List Value} (first : reading.Fits types values)
    (second : reading.Fits lower below) : reading.Fits (types ++ lower) (values ++ below) :=
  List.rel_append first second

/-- Values that fit two lists of types come in two parts. -/
theorem Fits.split {lower : List Ty} (fits : reading.Fits (types ++ lower) values) :
    ∃ own below, values = own ++ below ∧ reading.Fits types own ∧ reading.Fits lower below := by
  induction types generalizing values with
  | nil => exact ⟨[], values, rfl, .nil, fits⟩
  | cons t rest ih =>
    cases fits with
    | cons admitted tail =>
      obtain ⟨own, below, rfl, fits, lower⟩ := ih tail
      exact ⟨_ :: own, below, rfl, .cons admitted fits, lower⟩

theorem Fits.reverse (fits : reading.Fits types values) : reading.Fits types.reverse values.reverse :=
  List.rel_reverse fits

/-- Names that are bound to fitting values make a frame that fits. -/
theorem fitsFrame_insertAll {names : List String} {frame : Dictionary Ty} {values : List Value}
    {filled : Dictionary Value} (before : reading.FitsFrame frame filled) (fits : reading.Fits types values) :
    reading.FitsFrame (frame.insertAll (names.zip types)) (filled.insertAll (names.zip values)) := by
  induction fits generalizing names frame filled with
  | nil =>
    rw [List.zip_nil_right, List.zip_nil_right]
    exact before
  | @cons t value types values admitted _ ih =>
    cases names with
    | nil => exact before
    | cons name rest =>
      refine @ih rest _ _ ?_
      intro other
      rw [Dictionary.get?_insert, Dictionary.get?_insert]
      split
      · exact .some admitted
      · exact before other

/-- The store holds what is expected of it: the newest operands fit types and the newest frames a scope.
What lies below the operands and beneath the frames belongs to somebody else. -/
structure Matches (reading : Reading) (scope : Scope Ty) (types : List Ty) (below : List Value)
    (beneath : List (Dictionary Value)) (store : Store) : Prop where
  operands : ∃ own, store.operands.entries = own ++ below ∧ reading.Fits types own
  bindings : ∃ frames, store.bindings.frames = frames ++ beneath ∧
    List.Forall₂ reading.FitsFrame scope.frames frames

/-- A push fails for lack of room only, which every reading allows. -/
theorem allows_push {store : Store} {value : Value} {cause : Cause} (failed : store.push value = .error cause) :
    reading.Allows cause := by
  obtain ⟨label, rfl⟩ := Store.push_of_error failed
  exact .inl rfl

namespace Matches

variable {scope : Scope Ty} {below : List Value} {beneath : List (Dictionary Value)} {store next : Store}
  {t : Ty} {value : Value} {cause : Cause}

/-- A stack may be taken for one of wider types. -/
theorem widen (held : reading.Matches scope types below beneath store) (widens : reading.WidensAll types wider) :
    reading.Matches scope wider below beneath store := by
  obtain ⟨own, entries, fits⟩ := held.operands
  exact ⟨⟨own, entries, fits.widen widens⟩, held.bindings⟩

/-- A value that is admitted may be put on top. -/
theorem push (held : reading.Matches scope types below beneath store) (admitted : reading.admits t value)
    (pushed : store.push value = .ok next) : reading.Matches scope (t :: types) below beneath next := by
  obtain ⟨own, entries, fits⟩ := held.operands
  unfold Store.push Stack.push Stack.accepted at pushed
  cases checked : (store.operands.store value).check with
  | error => rw [checked] at pushed; cases pushed
  | ok =>
    rw [checked] at pushed
    cases pushed
    refine ⟨⟨value :: own, ?_, .cons admitted fits⟩, held.bindings⟩
    exact congrArg (value :: ·) entries

/-- The top of the stack can be taken, and is what is expected. -/
theorem popOne (held : reading.Matches scope (t :: types) below beneath store) :
    ∃ value operands, store.operands.popOne = .ok (value, operands) ∧ reading.admits t value ∧
      reading.Matches scope types below beneath { store with operands } := by
  obtain ⟨own, entries, fits⟩ := held.operands
  cases fits with
  | @cons _ value _ rest admitted tail =>
    refine ⟨value, store.operands.drop 1, ?_, admitted, ⟨rest, ?_, tail⟩, held.bindings⟩
    · rw [Stack.popOne, entries]
      rfl
    · show store.operands.entries.drop 1 = _
      rw [entries]
      rfl

/-- A type that is read as a number is one, unless the reading is lenient. -/
theorem allows_notNumber (widens : reading.Widens t .number) (admitted : reading.admits t value)
    (mismatch : cause.code = .typeMismatch) (other : ∀ n, value ≠ .number n) : reading.Allows cause := by
  rcases reading.strict (widens value admitted) with lenient | typed
  · exact .inr ⟨lenient, mismatch⟩
  · obtain ⟨n, same⟩ := typed.number_inv
    exact (other n same).elim

theorem takeNumber (held : reading.Matches scope (t :: types) below beneath store) {n : Decimal}
    (taken : store.takeNumber = .ok (n, next)) : reading.Matches scope types below beneath next := by
  obtain ⟨value, operands, popped, -, rest⟩ := held.popOne
  obtain ⟨_, _, found, -, rfl⟩ := Store.take_of_ok taken
  cases popped.symm.trans found
  exact rest

/-- A value that may be no number makes a reading allow the failure, if it is one that looks at types at all. -/
theorem allows_takeNumber (held : reading.Matches scope (t :: types) below beneath store)
    (widens : reading.Widens t .number) (failed : store.takeNumber = .error cause) : reading.Allows cause := by
  obtain ⟨value, operands, popped, admitted, -⟩ := held.popOne
  rw [Store.takeNumber, popped] at failed
  simp only [Except.bind] at failed
  cases value with
  | number => cases failed
  | string | pointer =>
    cases failed
    exact allows_notNumber widens admitted rfl (by intro n same; cases same)

theorem takeCount (held : reading.Matches scope (t :: types) below beneath store) {count : Nat}
    (taken : store.takeCount = .ok (count, next)) : reading.Matches scope types below beneath next := by
  obtain ⟨value, operands, popped, -, rest⟩ := held.popOne
  obtain ⟨_, _, found, -, rfl⟩ := Store.take_of_ok taken
  cases popped.symm.trans found
  exact rest

theorem allows_takeCount (held : reading.Matches scope (t :: types) below beneath store)
    (widens : reading.Widens t .number) (failed : store.takeCount = .error cause) : reading.Allows cause := by
  obtain ⟨value, operands, popped, admitted, -⟩ := held.popOne
  rw [Store.takeCount, popped] at failed
  simp only [Except.bind] at failed
  cases value with
  | number n =>
    simp only [Machine.countOf] at failed
    cases counted : n.toCount with
    | ok => rw [counted] at failed; cases failed
    | error =>
      rw [counted] at failed
      cases failed
      exact .inl (n.toCount_mild _ counted)
  | string | pointer =>
    cases failed
    exact allows_notNumber widens admitted rfl (by intro n same; cases same)

/-- As many operands as are expected can be taken, deepest first. -/
theorem pop {taken : List Ty} (held : reading.Matches scope (taken ++ types) below beneath store) :
    ∃ values operands, store.operands.pop taken.length = .ok (values, operands) ∧
      reading.Fits taken.reverse values ∧ reading.Matches scope types below beneath { store with operands } := by
  obtain ⟨own, entries, fits⟩ := held.operands
  obtain ⟨first, rest, rfl, top, lower⟩ := fits.split
  have count : first.length = taken.length := (List.Forall₂.length_eq top).symm
  have enough : taken.length ≤ store.operands.size := by
    rw [store.operands.size_eq, entries, List.append_assoc, List.length_append]
    omega
  have shape : store.operands.entries = first ++ (rest ++ below) := by rw [entries, List.append_assoc]
  refine ⟨first.reverse, store.operands.drop taken.length, ?_, top.reverse, ⟨rest, ?_, lower⟩, held.bindings⟩
  · rw [Stack.pop, Stack.top, if_pos enough, shape, ← count, List.take_left]
    rfl
  · show store.operands.entries.drop taken.length = _
    rw [shape, ← count, List.drop_left]

/-- The names find enough values, and they fit the types that were on top. -/
theorem bind {taken : List Ty} {names : List String} (count : taken.length = names.length)
    (held : reading.Matches scope (taken ++ types) below beneath store) :
    ∃ next, store.bind names = .ok next ∧
      reading.Matches (scope.bind names taken.reverse) types below beneath next := by
  obtain ⟨values, operands, popped, fits, rest⟩ := held.pop
  obtain ⟨frames, same, framed⟩ := held.bindings
  refine ⟨{ store with operands, bindings := store.bindings.bind names values }, ?_, rest.operands,
    Dictionary.ofList (names.zip values) :: frames, congrArg (_ :: ·) same, .cons ?_ framed⟩
  · rw [Store.bind, ← count, popped]
    rfl
  · exact fitsFrame_insertAll (fun name => .none) fits

theorem unbind {frame : Dictionary Ty} (held : reading.Matches ⟨frame :: scope.frames⟩ types below beneath store) :
    reading.Matches scope types below beneath store.unbind := by
  obtain ⟨frames, same, framed⟩ := held.bindings
  cases framed with
  | cons _ rest => exact ⟨held.operands, _, congrArg List.tail same, rest⟩

/-- A cell is there or not for reasons that no type knows; where it is, the name is that of a pointer. -/
theorem claim (held : reading.Matches scope types below beneath store) {name : String} {address : Nat}
    (claimed : store.claim name = .ok (address, next)) :
    reading.Matches (scope.bind [name] [.pointer]) types below beneath next := by
  obtain ⟨frames, same, framed⟩ := held.bindings
  obtain ⟨heap, -, rfl⟩ := Store.claim_eq_ok claimed
  refine ⟨held.operands, _ :: frames, congrArg (_ :: ·) same, .cons ?_ framed⟩
  exact fitsFrame_insertAll (fun name => .none) (.cons (reading.typed (.inr rfl)) .nil)

theorem allows_claim {name : String} (failed : store.claim name = .error cause) : reading.Allows cause := by
  unfold Store.claim at failed
  exact .inl (Outcome.Mild.map _ (store.heap.alloc_mild 1) cause failed)

theorem release {frame : Dictionary Ty} {owned : Nat}
    (held : reading.Matches ⟨frame :: scope.frames⟩ types below beneath store)
    (released : store.release owned = .ok next) : reading.Matches scope types below beneath next := by
  obtain ⟨heap, -, rfl⟩ := Store.release_eq_ok released
  exact ⟨held.unbind.operands, held.unbind.bindings⟩

theorem allows_release {owned : Nat} (failed : store.release owned = .error cause) : reading.Allows cause := by
  unfold Store.release at failed
  exact .inl (Outcome.Mild.map _ (store.heap.free_mild owned) cause failed)

/-- A name that is bound is found, in front of what lies beneath. -/
theorem get? (held : reading.Matches scope types below beneath store) {name : String}
    (bound : scope.get? name = some t) :
    ∃ value, store.bindings.get? name = some value ∧ reading.admits t value := by
  obtain ⟨frames, same, framed⟩ := held.bindings
  rw [Scope.get?] at bound
  rw [Scope.get?, same]
  generalize scope.frames = expected at bound framed
  clear same
  induction framed with
  | nil => cases bound
  | @cons frame filled _ _ fits _ ih =>
    have here := fits name
    rw [List.findSome?_cons] at bound
    rw [List.cons_append, List.findSome?_cons]
    cases known : frame.get? name with
    | none =>
      rw [known] at bound here
      cases found : filled.get? name with
      | none => exact ih bound
      | some => rw [found] at here; cases here
    | some u =>
      rw [known] at bound here
      cases bound
      cases found : filled.get? name with
      | none => rw [found] at here; cases here
      | some value =>
        rw [found] at here
        cases here with
        | some admitted => exact ⟨value, rfl, admitted⟩

/-- A word of the program takes what it is called with; the rest waits for it to return. -/
theorem depart {taken inputs : List Ty} (held : reading.Matches scope (taken ++ types) below beneath store)
    (widens : reading.WidensAll taken inputs) :
    ∃ waiting frames, reading.Fits types waiting ∧ List.Forall₂ reading.FitsFrame scope.frames frames ∧
      reading.Matches {} inputs (waiting ++ below) (frames ++ beneath) store := by
  obtain ⟨own, entries, fits⟩ := held.operands
  obtain ⟨first, rest, rfl, top, lower⟩ := fits.split
  obtain ⟨frames, same, framed⟩ := held.bindings
  rw [List.append_assoc] at entries
  exact ⟨rest, frames, lower, framed, ⟨first, entries, top.widen widens⟩, [], same, .nil⟩

/-- Behind a call the caller has its types back, below what the call has left. -/
theorem rejoin {left : List Ty} {waiting : List Value} {frames : List (Dictionary Value)}
    (held : reading.Matches {} left (waiting ++ below) (frames ++ beneath) store)
    (waits : reading.Fits types waiting) (framed : List.Forall₂ reading.FitsFrame scope.frames frames) :
    reading.Matches scope (left ++ types) below beneath store := by
  obtain ⟨own, entries, fits⟩ := held.operands
  obtain ⟨none, same, empty⟩ := held.bindings
  cases empty
  rw [← List.append_assoc] at entries
  exact ⟨⟨own ++ waiting, entries, fits.append waits⟩, frames, same, framed⟩

end Matches

theorem Fits.haveTypes (fits : reading.Fits types values) : reading.lenient ∨ Value.HaveTypes types values := by
  induction fits with
  | nil => exact .inr .nil
  | cons admitted _ ih =>
    rcases reading.strict admitted with lenient | typed
    · exact .inl lenient
    · rcases ih with lenient | rest
      · exact .inl lenient
      · exact .inr (.cons typed rest)

theorem fits_of_haveTypes (typed : Value.HaveTypes types values) : reading.Fits types values :=
  typed.imp fun _ _ single => reading.typed single

/-- What is expected behind a word: the store, or, if it asks for input, the store with any answer of the
right type. -/
def Yields (reading : Reading) (scope : Scope Ty) (types : List Ty) (below : List Value)
    (beneath : List (Dictionary Value)) (effect : Effect) (store : Store) : Prop :=
  match effect with
  | .continue | .print _ => reading.Matches scope types below beneath store
  | .input kind _ => ∀ value answered, value.ty = kind.ty → store.push value = .ok answered →
      reading.Matches scope types below beneath answered

/-- Wherever the first types are expected, the builtin leads to the second ones or fails as it may. -/
structure Serves (reading : Reading) (word : Builtin) (before after : List Ty) : Prop where
  yields : ∀ scope below beneath store effect next, reading.Matches scope before below beneath store →
    store.invoke word = .ok (effect, next) → reading.Yields scope after below beneath effect next
  allows : ∀ scope below beneath store cause, reading.Matches scope before below beneath store →
    store.invoke word = .error cause → reading.Allows cause

theorem Yields.widen {scope : Scope Ty} {below : List Value} {beneath : List (Dictionary Value)} {effect : Effect}
    {store : Store} (yields : reading.Yields scope types below beneath effect store)
    (widens : reading.WidensAll types wider) : reading.Yields scope wider below beneath effect store := by
  cases effect with
  | «continue» | print => exact Matches.widen yields widens
  | input => exact fun value answered typed pushed => (yields value answered typed pushed).widen widens

/-- A word may be asked to do less, from more. -/
theorem Serves.widen {word : Builtin} {before narrower : List Ty} (serves : reading.Serves word before types)
    (widens : reading.WidensAll types wider) (narrows : reading.WidensAll narrower before) :
    reading.Serves word narrower wider where
  yields _ _ _ _ _ _ held invoked := (serves.yields _ _ _ _ _ _ (held.widen narrows) invoked).widen widens
  allows _ _ _ _ _ held failed := serves.allows _ _ _ _ _ (held.widen narrows) failed

/-- Pushing values one after the other works or overflows the stack. -/
theorem Matches.pushAll {scope : Scope Ty} {below : List Value} {beneath : List (Dictionary Value)} {store : Store}
    {results : List Ty} (held : reading.Matches scope types below beneath store) (fits : reading.Fits results values) :
    match store.operands.pushAll values with
    | (.ok _, operands) => reading.Matches scope (results.reverse ++ types) below beneath { store with operands }
    | (.error cause, _) => reading.Allows cause := by
  induction fits generalizing store types with
  | nil => exact held
  | @cons t value results values admitted _ ih =>
    rw [Stack.pushAll]
    cases pushed : store.operands.push value with
    | mk outcome operands =>
      have stored : store.push value = outcome.map fun _ => { store with operands } := by
        rw [Store.push, pushed]
        cases outcome <;> rfl
      cases outcome with
      | error cause => exact allows_push stored
      | ok =>
        have rest := @ih (t :: types) _ (held.push admitted stored)
        rw [List.reverse_cons, List.append_assoc]
        exact rest

/-- A word that finds operands of the types it declares leaves results of the types it declares. -/
theorem Matches.invoke {scope : Scope Ty} {below : List Value} {beneath : List (Dictionary Value)} {store : Store}
    {word : Builtin} (held : reading.Matches scope (word.inputs.reverse ++ types) below beneath store)
    (ordinary : word ∉ Builtin.shuffles) :
    match store.invoke word with
    | .ok (effect, next) => reading.Yields scope (word.outputs.reverse ++ types) below beneath effect next
    | .error cause => reading.Allows cause := by
  obtain ⟨operands, rest, popped, fits, left⟩ := held.pop
  rw [List.length_reverse] at popped
  rw [List.reverse_reverse] at fits
  rw [Store.invoke, Builtin.call_of_ordinary ordinary, popped]
  dsimp only
  have count : operands.length = word.inputs.length := by
    obtain ⟨taken, -, length, rfl⟩ := Stack.entries_of_pop popped
    rw [List.length_reverse, length]
  cases performed : word.perform operands store.heap with
  | error cause =>
    rcases Builtin.harmless_of_refused ordinary count performed with harmless | ⟨untyped, mismatch⟩
    · exact .inl harmless
    · exact .inr ⟨fits.haveTypes.resolve_right untyped, mismatch⟩
  | ok reply =>
    have delivers := (Builtin.gives_of_performed ordinary count performed).1
    obtain ⟨results, heap, effect⟩ := reply
    have left : reading.Matches scope types below beneath { store with operands := rest, heap } :=
      ⟨left.operands, left.bindings⟩
    cases effect with
    | «continue» | print =>
      have pushed := left.pushAll (fits_of_haveTypes delivers)
      dsimp only at pushed ⊢
      generalize rest.pushAll results = result at pushed ⊢
      obtain ⟨outcome, after⟩ := result
      cases outcome with
      | ok => exact pushed
      | error cause => exact pushed
    | input kind prompt =>
      obtain ⟨none, single⟩ := delivers
      cases none
      rw [single]
      intro value answered typed pushed
      exact left.push (reading.typed (.inr typed)) pushed

/-- A word that takes its operands off the stack serves by its signature. -/
theorem serves_signature (word : Builtin) (ordinary : word ∉ Builtin.shuffles) (types : List Ty) :
    reading.Serves word (word.inputs.reverse ++ types) (word.outputs.reverse ++ types) where
  yields := by
    intro scope below beneath store effect next held invoked
    have answers := held.invoke ordinary
    rw [invoked] at answers
    exact answers
  allows := by
    intro scope below beneath store cause held failed
    have answers := held.invoke ordinary
    rw [failed] at answers
    exact answers

/-- All words but two leave what they declare. -/
theorem serves_declared {word : Builtin} (noDup : word ≠ .dup) (noSwap : word ≠ .swap) (types : List Ty) :
    reading.Serves word (word.inputs.reverse ++ types) (word.outputs.reverse ++ types) := by
  by_cases inspects : word = .inspect
  · subst inspects
    constructor
    · intro scope below beneath store effect next held invoked
      cases invoked
      exact held
    · intro scope below beneath store cause held failed
      cases failed
  · refine serves_signature word ?_ types
    simp [Builtin.shuffles, noDup, noSwap, inspects]

theorem serves_dup (t : Ty) (types : List Ty) : reading.Serves .dup (t :: types) (t :: t :: types) := by
  have invoked : ∀ scope below beneath store, reading.Matches scope (t :: types) below beneath store →
      ∃ value, reading.admits t value ∧ store.invoke .dup = (store.push value).map fun next => (.continue, next) := by
    intro scope below beneath store held
    obtain ⟨own, entries, fits⟩ := held.operands
    cases fits with
    | @cons _ value _ rest admitted tail =>
      refine ⟨value, admitted, ?_⟩
      simp only [Store.invoke, Builtin.call, Stack.dup, entries, List.cons_append, Store.push, Stack.accepted]
      generalize store.operands.push value = result
      obtain ⟨outcome, operands⟩ := result
      cases outcome <;> rfl
  constructor
  · intro scope below beneath store effect next held done
    obtain ⟨value, admitted, same⟩ := invoked _ _ _ _ held
    cases pushed : store.push value with
    | error => rw [same, pushed] at done; cases done
    | ok => rw [same, pushed] at done; cases done; exact held.push admitted pushed
  · intro scope below beneath store cause held failed
    obtain ⟨value, admitted, same⟩ := invoked _ _ _ _ held
    cases pushed : store.push value with
    | error => rw [same, pushed] at failed; cases failed; exact allows_push pushed
    | ok => rw [same, pushed] at failed; cases failed

theorem serves_swap (t u : Ty) (types : List Ty) : reading.Serves .swap (t :: u :: types) (u :: t :: types) := by
  have invoked : ∀ scope below beneath store, reading.Matches scope (t :: u :: types) below beneath store →
      ∃ operands, store.invoke .swap = .ok (.continue, { store with operands }) ∧
        reading.Matches scope (u :: t :: types) below beneath { store with operands } := by
    intro scope below beneath store held
    obtain ⟨own, entries, fits⟩ := held.operands
    cases fits with
    | @cons _ first _ _ top others =>
      cases others with
      | @cons _ second _ rest next tail =>
        refine ⟨((store.operands.drop 2).store first).store second, ?_, ⟨second :: first :: rest, ?_, ?_⟩,
          held.bindings⟩
        · simp only [Store.invoke, Builtin.call, Stack.swap, entries, List.cons_append]
        · simp only [Stack.store, Stack.drop, entries, List.cons_append, List.drop_succ_cons, List.drop_zero]
        · exact .cons next (.cons top tail)
  constructor
  · intro scope below beneath store effect next held done
    obtain ⟨operands, same, after⟩ := invoked _ _ _ _ held
    rw [same] at done
    cases done
    exact after
  · intro scope below beneath store cause held failed
    obtain ⟨operands, same, -⟩ := invoked _ _ _ _ held
    rw [same] at failed
    cases failed

end Reading

end TapeMachine
