import TapeMachine.Proofs.Reading
import TapeMachine.Signature

namespace TapeMachine

/-- What is said of a program: the types that are expected before the instruction at an address, those
that wait while a call is made from before an address, and what the definitions declare. -/
structure Survey where
  visited : (address : Nat) → List Ty → Prop
  waiting : (address : Nat) → List Ty → Prop
  declares : (name : String) → Signature → Prop

/-- A point of a program: the words that may be called there, the names that are bound and the types on the
stack. -/
structure Point where
  address : Nat
  known : String → Prop
  scope : Scope Ty
  types : List Ty

namespace Survey

variable (survey : Survey) (reading : Reading)

/-- Neither a builtin nor a definition has the name. -/
structure Foreign (name : String) : Prop where
  builtin : ∀ word : Builtin, word.name ≠ name
  user : ∀ signature, ¬ survey.declares name signature

/-- Whatever is called by the name from `address`, it takes the first types to the second ones. -/
structure Meets (name : String) (address : Nat) (before after : List Ty) : Prop where
  builtin : ∀ word : Builtin, word.name = name → reading.Serves word before after
  user : ∀ signature, survey.declares name signature → ∃ taken rest, before = taken ++ rest ∧
    reading.WidensAll taken signature.inputs.reverse ∧
    reading.WidensAll (signature.outputs.reverse ++ rest) after ∧ survey.waiting (address + 1) rest

mutual

/-- The item leads from one point to another one. Where control can come to a point in two ways, the types of
one way are as good as those of the other one. -/
inductive Flows : Point → Item → Point → Prop
  | number {a K s types place n} : Flows ⟨a, K, s, types⟩ (.number place n) ⟨a + 1, K, s, .number :: types⟩
  | string {a K s types place text} : Flows ⟨a, K, s, types⟩ (.string place text) ⟨a + 1, K, s, .string :: types⟩
  | call {a K s before after place name} : K name → Meets survey reading name a before after →
      Flows ⟨a, K, s, before⟩ (.word place name) ⟨a + 1, K, s, after⟩
  | fetch {a K s types t place name} : Foreign survey name → s.get? name = some t →
      Flows ⟨a, K, s, types⟩ (.word place name) ⟨a + 1, K, s, t :: types⟩
  | branch {a K s t opened closed place body stop} : reading.Widens t .number →
      Level ⟨a + 1, K, s, opened⟩ (Piece.ofItems body) ⟨a + 1 + span body, K, s, closed⟩ →
      reading.WidensAll opened closed → survey.visited (a + 1 + span body) closed →
      Flows ⟨a, K, s, t :: opened⟩ (.branch place body stop) ⟨a + 1 + span body + 1, K, s, closed⟩
  | choice {a b K s t opened first second place consequent middle alternative stop} : reading.Widens t .number →
      b = a + 1 + span consequent →
      Level ⟨a + 1, K, s, opened⟩ (Piece.ofItems consequent) ⟨b, K, s, first⟩ →
      survey.visited b opened →
      Level ⟨b + 1, K, s, opened⟩ (Piece.ofItems alternative) ⟨b + 1 + span alternative, K, s, second⟩ →
      reading.WidensAll second first → survey.visited (b + 1 + span alternative) first →
      Flows ⟨a, K, s, t :: opened⟩ (.choice place consequent middle alternative stop)
        ⟨b + 1 + span alternative + 1, K, s, first⟩
  | repeats {a K s t opened closed place body stop} : reading.Widens t .number →
      Level ⟨a + 1, K, s, opened⟩ (Piece.ofItems body) ⟨a + 1 + span body, K, s, closed⟩ →
      reading.WidensAll opened closed → reading.WidensAll closed opened →
      survey.visited (a + 1 + span body) closed →
      Flows ⟨a, K, s, t :: opened⟩ (.repeats place body stop) ⟨a + 1 + span body + 1, K, s, closed⟩
  | loop {a b K s t before opened closed place test middle body stop} : reading.Widens t .number →
      b = a + 1 + span test →
      Level ⟨a + 1, K, s, before⟩ (Piece.ofItems test) ⟨b, K, s, t :: opened⟩ →
      Level ⟨b + 1, K, s, opened⟩ (Piece.ofItems body) ⟨b + 1 + span body, K, s, closed⟩ →
      reading.WidensAll opened closed → reading.WidensAll closed before →
      survey.visited (b + 1 + span body) closed →
      Flows ⟨a, K, s, before⟩ (.loop place test middle body stop) ⟨b + 1 + span body + 1, K, s, closed⟩
  | bind {a K s taken opened closed place names body stop} : taken.length = names.length →
      Level ⟨a + 1, K, s.bind names taken.reverse, opened⟩ (Piece.ofItems body)
        ⟨a + 1 + span body, K, s.bind names taken.reverse, closed⟩ →
      survey.visited (a + 1 + span body) closed → survey.visited (a + 1 + span body + 1) closed →
      Flows ⟨a, K, s, taken ++ opened⟩ (.bind place names body stop) ⟨a + 1 + span body + 1 + 1, K, s, closed⟩
  | cell {a K s opened closed place name body stop} :
      Level ⟨a + 1, K, s.bind [name] [.pointer], opened⟩ (Piece.ofItems body)
        ⟨a + 1 + span body, K, s.bind [name] [.pointer], closed⟩ →
      survey.visited (a + 1 + span body) closed →
      Flows ⟨a, K, s, opened⟩ (.cell place name body stop) ⟨a + 1 + span body + 1, K, s, closed⟩
  | define {a b K s types place heading signature left body stop} {K' : String → Prop} :
      survey.declares heading.name signature → (∀ name, K' name → name = heading.name ∨ K name) →
      b = a + 3 + span body →
      Level ⟨a + 1, K', {}, signature.inputs.reverse⟩
        (.mark .noop place :: .mark .enter place :: Piece.ofItems body) ⟨b, K', {}, left⟩ →
      survey.visited b left → reading.WidensAll left signature.outputs.reverse →
      survey.visited (b + 1) types → survey.visited (b + 1 + 1) types →
      Flows ⟨a, K, s, types⟩ (.define place heading body stop) ⟨b + 1 + 1 + 1, K', s, types⟩

/-- The pieces lead from one point to another one, through points that have been visited. -/
inductive Level : Point → List Piece → Point → Prop
  | nil {here} : Level here [] here
  | item {here next there item rest} : survey.visited here.address here.types → Flows here item next →
      Level next rest there → Level here (.item item :: rest) there
  | quiet {a K s types wider there mark place rest} : (∀ names, mark ≠ .unbind names) →
      reading.WidensAll types wider → survey.visited a wider →
      Level ⟨a + 1, K, s, wider⟩ rest there → Level ⟨a, K, s, types⟩ (.mark mark place :: rest) there
  | unbind {a K s types there names place rest} {frame : Dictionary Ty} : survey.visited a types →
      Level ⟨a + 1, K, s, types⟩ rest there →
      Level ⟨a, K, ⟨frame :: s.frames⟩, types⟩ (.mark (.unbind names) place :: rest) there

end

variable {survey : Survey} {reading : Reading}

theorem Level.append {here middle there : Point} {first second : List Piece}
    (level : survey.Level reading here first middle) (later : survey.Level reading middle second there) :
    survey.Level reading here (first ++ second) there := by
  induction first generalizing here with
  | nil =>
    cases level
    exact later
  | cons piece rest ih =>
    cases level with
    | item visited flows further => exact .item visited flows (ih further)
    | quiet quiet widens visited further => exact .quiet quiet widens visited (ih further)
    | unbind visited further => exact .unbind visited (ih further)

/-- A mark that does nothing is passed with the types as they are. -/
theorem Level.pass {a : Nat} {K : String → Prop} {s : Scope Ty} {types : List Ty} {there : Point} {mark : Mark}
    {place : Location} {rest : List Piece} (quiet : ∀ names, mark ≠ .unbind names)
    (visited : survey.visited a types) (level : survey.Level reading ⟨a + 1, K, s, types⟩ rest there) :
    survey.Level reading ⟨a, K, s, types⟩ (.mark mark place :: rest) there :=
  .quiet quiet (Reading.widensAll_refl types) visited level

/-- The words that may be called are in the table. -/
def Covers (known : String → Prop) (functions : Dictionary Routine) : Prop :=
  ∀ name, known name → functions.get? name ≠ none

/-- What is known of a loop whose test or body is being run. -/
structure Turns (survey : Survey) (reading : Reading) (known : String → Prop) (scope : Scope Ty) (loop : Loop) (t : Ty)
    (before opened closed : List Ty) : Prop where
  decides : reading.Widens t .number
  test : survey.Level reading ⟨loop.start + 1, known, scope, before⟩ (Piece.ofItems loop.test)
    ⟨loop.middle, known, scope, t :: opened⟩
  body : survey.Level reading ⟨loop.middle + 1, known, scope, opened⟩ (Piece.ofItems loop.body)
    ⟨loop.middle + 1 + span loop.body, known, scope, closed⟩
  leaves : reading.WidensAll opened closed
  again : reading.WidensAll closed before

/-- A level that ends at a point stands inside these blocks, over operands and frames of others. What has to be
done behind each block begins where the block ends. -/
inductive Hosts (survey : Survey) (reading : Reading) (functions : Dictionary Routine) :
    Point → List Value → List (Dictionary Value) → List Block → Prop
  | program {a K s beneath} : Hosts survey reading functions ⟨a, K, s, []⟩ [] beneath []
  | consequent {a K s left there below beneath bound closing outer} :
      Level survey reading ⟨closing.address, K, s, left⟩ closing.code there → Covers K functions →
      Hosts survey reading functions there below beneath outer →
      Hosts survey reading functions ⟨a, K, s, left⟩ below beneath (.consequent bound closing :: outer)
  | repeats {a K s opened left there below beneath start body remaining closing outer} :
      Level survey reading ⟨start + 1, K, s, opened⟩ (Piece.ofItems body) ⟨a, K, s, left⟩ →
      reading.WidensAll left opened →
      Level survey reading ⟨closing.address, K, s, left⟩ closing.code there → Covers K functions →
      Hosts survey reading functions there below beneath outer →
      Hosts survey reading functions ⟨a, K, s, left⟩ below beneath (.repeats start body remaining closing :: outer)
  | test {a K s t before opened left there below beneath loop closing outer} :
      Turns survey reading K s loop t before opened left →
      Level survey reading ⟨closing.address, K, s, left⟩ closing.code there → Covers K functions →
      Hosts survey reading functions there below beneath outer →
      Hosts survey reading functions ⟨a, K, s, t :: opened⟩ below beneath (.test loop closing :: outer)
  | body {a K s t before opened left there below beneath loop closing outer} :
      Turns survey reading K s loop t before opened left →
      Level survey reading ⟨closing.address, K, s, left⟩ closing.code there → Covers K functions →
      Hosts survey reading functions there below beneath outer →
      Hosts survey reading functions ⟨a, K, s, left⟩ below beneath (.body loop closing :: outer)
  | cell {a K s left there below beneath owned closing outer} {frame : Dictionary Ty} :
      Level survey reading ⟨closing.address, K, s, left⟩ closing.code there → Covers K functions →
      Hosts survey reading functions there below beneath outer →
      Hosts survey reading functions ⟨a, K, ⟨frame :: s.frames⟩, left⟩ below beneath (.cell owned closing :: outer)
  | call {a K inner s left after there types waiting frames below beneath tape address rest outer} :
      survey.visited a left → reading.WidensAll (left ++ types) after →
      Level survey reading ⟨address, K, s, after⟩ rest there → Covers K functions → survey.waiting address types →
      reading.Fits types waiting → List.Forall₂ reading.FitsFrame s.frames frames →
      Hosts survey reading functions there below beneath outer →
      Hosts survey reading functions ⟨a, inner, {}, left⟩ (waiting ++ below) (frames ++ beneath)
        (.call tape address rest :: outer)

theorem Hosts.mono {functions more : Dictionary Routine} {here : Point} {below : List Value}
    {beneath : List (Dictionary Value)} {blocks : List Block}
    (hosts : survey.Hosts reading functions here below beneath blocks)
    (grows : ∀ known, Covers known functions → Covers known more) :
    survey.Hosts reading more here below beneath blocks := by
  induction hosts with
  | program => exact .program
  | consequent level covers _ ih => exact .consequent level (grows _ covers) ih
  | repeats body again level covers _ ih => exact .repeats body again level (grows _ covers) ih
  | test turns level covers _ ih => exact .test turns level (grows _ covers) ih
  | body turns level covers _ ih => exact .body turns level (grows _ covers) ih
  | cell level covers _ ih => exact .cell level (grows _ covers) ih
  | call visited widens level covers waits fits framed _ ih =>
    exact .call visited widens level (grows _ covers) waits fits framed ih

/-- What the table holds under a name is the builtin of that name, or a function that does what one of its
declarations says. -/
def Legit (survey : Survey) (reading : Reading) (functions : Dictionary Routine) (name : String) : Routine → Prop
  | .builtin word => word.name = name
  | .user _ definition place body => ∃ known signature stop left, survey.declares name signature ∧
      Covers known functions ∧
      survey.Level reading ⟨definition.start, known, {}, signature.inputs.reverse⟩
        (.mark .noop place :: .mark .enter place :: Piece.ofItems body) ⟨stop, known, {}, left⟩ ∧
      survey.visited stop left ∧ reading.WidensAll left signature.outputs.reverse

theorem Legit.mono {functions more : Dictionary Routine} {name : String} {routine : Routine}
    (legit : survey.Legit reading functions name routine)
    (grows : ∀ known, Covers known functions → Covers known more) : survey.Legit reading more name routine := by
  cases routine with
  | builtin => exact legit
  | user tape definition place body =>
    obtain ⟨known, signature, stop, left, declared, covers, level⟩ := legit
    exact ⟨known, signature, stop, left, declared, grows _ covers, level⟩

end Survey

end TapeMachine
