import TapeMachine.Proofs.Simulation
import TapeMachine.Run

namespace TapeMachine

mutual

/-- No import stands in the item. -/
def Item.standsAlone : Item → Bool
  | .number .. | .string .. | .word .. => true
  | .imports .. => false
  | .branch _ body _ | .repeats _ body _ | .bind _ _ body _ | .cell _ _ body _ | .define _ _ body _ =>
    standAlone body
  | .choice _ first _ second _ | .loop _ first _ second _ => standAlone first && standAlone second

/-- No import stands in the items. -/
def standAlone : List Item → Bool
  | [] => true
  | item :: rest => item.standsAlone && standAlone rest

end

def Piece.standsAlone : Piece → Bool
  | .item whole => whole.standsAlone
  | .mark .. => true

namespace Piece

/-- No import stands in the pieces. -/
def allAlone (pieces : List Piece) : Bool :=
  pieces.all standsAlone

@[simp]
theorem allAlone_cons (piece : Piece) (rest : List Piece) :
    allAlone (piece :: rest) = (piece.standsAlone && allAlone rest) :=
  rfl

@[simp]
theorem allAlone_append (first second : List Piece) :
    allAlone (first ++ second) = (allAlone first && allAlone second) := by
  simp [allAlone]

@[simp]
theorem allAlone_ofItems (items : List Item) : allAlone (ofItems items) = standAlone items := by
  induction items with
  | nil => rfl
  | cons item rest ih =>
    rw [standAlone, ← ih]
    rfl

@[simp]
theorem standsAlone_mark (mark : Mark) (place : Location) : (Piece.mark mark place).standsAlone = true :=
  rfl

end Piece

/-- No import stands in what is left to do inside the block or behind it. -/
def Block.standsAlone : Block → Bool
  | consequent _ closing | cell _ closing => Piece.allAlone closing.rest
  | repeats _ inner _ closing => standAlone inner && Piece.allAlone closing.rest
  | test loop closing | body loop closing =>
    standAlone loop.test && standAlone loop.body && Piece.allAlone closing.rest
  | call _ _ rest => Piece.allAlone rest

/-- How many boundaries may be crossed at most at the end of the block, with so many operands. -/
def Block.slack (operands : Nat) : Block → Nat
  | consequent .. | cell .. => 1
  | repeats _ _ remaining _ => remaining + 1
  | test .. => 2 * operands + 1
  | body .. => 2 * operands + 2
  | call .. => 0

namespace Walker

/-- The move is no import, and the walkers that it may lead to have a property. A question may be answered
in any way. -/
def Move.Leads (holds : Walker → Prop) : Move → Prop
  | .crossed next | .ran next | .prints _ next => holds next
  | .asks _ _ _ next => ∀ store, holds { next with store }
  | .imports .. => False
  | .failed _ | .ends => True

/-- A walker that never meets an import. -/
structure Alone (walker : Walker) : Prop where
  code : Piece.allAlone walker.code = true
  blocks : ∀ block ∈ walker.blocks, block.standsAlone = true
  functions : ∀ name tape definition place body,
    walker.functions.get? name = some (.user tape definition place body) → standAlone body = true

variable {walker next : Walker}

theorem Alone.goto (alone : walker.Alone) {address : Nat} {code : List Piece} (store : Store)
    (free : Piece.allAlone code = true) : ({ walker with store }.goto address code).Alone :=
  ⟨free, alone.blocks, alone.functions⟩

theorem Alone.inside (alone : walker.Alone) {block : Block} {address : Nat} {items : List Item}
    {outer : List Block} (store : Store) (inner : standAlone items = true) (around : block.standsAlone = true)
    (outside : ∀ block ∈ outer, block.standsAlone = true) :
    ({ walker with store }.inside block address items outer).Alone := by
  refine ⟨(Piece.allAlone_ofItems items).trans inner, ?_, alone.functions⟩
  intro other member
  rcases List.mem_cons.1 member with same | later
  · exact same ▸ around
  · exact outside other later

theorem Alone.leave (alone : walker.Alone) {closing : Closing} {outer : List Block} (store : Store)
    (free : Piece.allAlone closing.rest = true) (outside : ∀ block ∈ outer, block.standsAlone = true) :
    ({ walker with store }.leave closing outer).Alone :=
  ⟨free, outside, alone.functions⟩

theorem leads_after {α : Type} {outcome : Outcome α} {place : Location} {onward : α → Move} {holds : Walker → Prop}
    (leads : ∀ found, outcome = .ok found → (onward found).Leads holds) :
    (Move.after outcome place onward).Leads holds := by
  cases outcome with
  | ok found => exact leads found rfl
  | error cause => trivial

theorem Alone.leads_word (alone : walker.Alone) {name : String} {place : Location} {rest : List Piece}
    (free : Piece.allAlone rest = true) : (walker.word name place rest).Leads Alone := by
  have next : ∀ store, (walker.next rest store).Alone := fun store => alone.goto store free
  unfold word
  split
  · refine leads_after ?_
    rintro ⟨effect, store⟩ -
    cases effect with
    | «continue» | print => exact next store
    | input => exact fun store => next store
  · rename_i tape definition from_ body found
    refine ⟨(Piece.allAlone_ofItems body).trans (alone.functions _ _ _ _ _ found), ?_, alone.functions⟩
    intro other member
    rcases List.mem_cons.1 member with same | later
    · exact same ▸ free
    · exact alone.blocks other later
  · refine leads_after ?_
    intro store _
    exact next store

theorem Alone.leads_perform (alone : walker.Alone) {item : Item} {rest : List Piece}
    (code : walker.code = .item item :: rest) : (walker.perform item rest).Leads Alone := by
  have all := alone.code
  rw [code, Piece.allAlone_cons, Bool.and_eq_true] at all
  obtain ⟨here, behind⟩ := all
  rw [Piece.standsAlone] at here
  cases item with
  | number | string =>
    refine leads_after ?_
    intro store _
    exact alone.goto store behind
  | word place name => exact alone.leads_word behind
  | imports place name => cases here
  | branch place body stop =>
    refine leads_after ?_
    rintro ⟨n, store⟩ -
    dsimp only
    split
    · refine alone.goto store ?_
      rw [Piece.allAlone_append, Piece.allAlone_ofItems]
      exact Bool.and_eq_true_iff.2 ⟨here, behind⟩
    · exact alone.goto store behind
  | choice place consequent middle alternative stop =>
    obtain ⟨first, second⟩ := Bool.and_eq_true_iff.1 here
    refine leads_after ?_
    rintro ⟨n, store⟩ -
    dsimp only
    split
    · exact alone.inside store first behind alone.blocks
    · refine alone.goto store ?_
      rw [Piece.allAlone_cons, Piece.allAlone_append, Piece.allAlone_ofItems, Piece.standsAlone_mark,
        Bool.true_and]
      exact Bool.and_eq_true_iff.2 ⟨second, behind⟩
  | repeats place body stop =>
    refine leads_after ?_
    rintro ⟨count, store⟩ -
    cases count with
    | zero => exact alone.goto store behind
    | succ more => exact alone.inside store here (Bool.and_eq_true_iff.2 ⟨here, behind⟩) alone.blocks
  | loop place test middle body stop =>
    exact alone.inside walker.store (Bool.and_eq_true_iff.1 here).1 (Bool.and_eq_true_iff.2 ⟨here, behind⟩) alone.blocks
  | bind place names body stop =>
    refine leads_after ?_
    intro store _
    refine alone.goto store ?_
    rw [Piece.allAlone_append, Piece.allAlone_ofItems]
    exact Bool.and_eq_true_iff.2 ⟨here, behind⟩
  | cell place name body stop =>
    refine leads_after ?_
    rintro ⟨owned, store⟩ -
    exact alone.inside store here behind alone.blocks
  | define place heading body stop =>
    refine ⟨behind, alone.blocks, ?_⟩
    intro name tape definition from_ inner found
    rw [Dictionary.get?_insert] at found
    split at found
    · cases found
      exact here
    · exact alone.functions _ _ _ _ _ found

theorem Alone.leads_close (alone : walker.Alone) {block : Block} {outer : List Block}
    (blocks : walker.blocks = block :: outer) : (walker.close block outer).Leads Alone := by
  have all := alone.blocks
  rw [blocks] at all
  have outside := fun other member => all other (List.mem_cons_of_mem _ member)
  have here := all block List.mem_cons_self
  cases block with
  | consequent bound closing => exact alone.leave walker.store here outside
  | repeats start body remaining closing =>
    obtain ⟨inner, behind⟩ := Bool.and_eq_true_iff.1 here
    cases remaining with
    | zero => exact alone.leave walker.store behind outside
    | succ remaining => exact alone.inside walker.store inner here outside
  | test loop closing =>
    obtain ⟨parts, behind⟩ := Bool.and_eq_true_iff.1 here
    refine leads_after ?_
    rintro ⟨n, store⟩ -
    dsimp only
    split
    · exact alone.leave store behind outside
    · exact alone.inside store (Bool.and_eq_true_iff.1 parts).2 here outside
  | body loop closing =>
    obtain ⟨parts, -⟩ := Bool.and_eq_true_iff.1 here
    exact alone.inside walker.store (Bool.and_eq_true_iff.1 parts).1 here outside
  | cell owned closing =>
    refine leads_after ?_
    intro store _
    exact alone.leave store here outside
  | call tape address rest => exact ⟨here, outside, alone.functions⟩

/-- A walker that imports nothing stays so. -/
theorem Alone.leads (alone : walker.Alone) : walker.move.Leads Alone := by
  unfold move
  split
  · rename_i mark place rest code
    have all := alone.code
    rw [code] at all
    cases mark <;> exact ⟨all, alone.blocks, alone.functions⟩
  · rename_i code
    exact alone.leads_perform code
  · rename_i blocks
    exact alone.leads_close blocks
  · trivial

theorem start_alone {items : List Item} (capacity : Nat) (free : standAlone items = true) :
    (start capacity items).Alone where
  code := (Piece.allAlone_ofItems items).trans free
  blocks := by
    intro block member
    cases member
  functions := by
    intro name tape definition place body found
    exact (start_functions found).elim

/-- A walker that stands on its tapes stays so. -/
theorem Placed.leads (placed : walker.Placed) (alone : walker.Alone) : walker.move.Leads Placed := by
  have agrees := placed.agrees
  have leads := alone.leads
  cases moved : walker.move with
  | crossed | ran | prints =>
    rw [moved] at agrees
    exact agrees.2
  | asks =>
    rw [moved] at agrees
    exact fun store => ⟨agrees.2.carried, agrees.2.enclosed, agrees.2.functions⟩
  | imports =>
    rw [moved] at leads
    exact leads
  | failed | ends => trivial

/-- In so many moves that show nothing, a walker gets to another one. -/
inductive Strolls : Nat → Walker → Walker → Prop
  | refl {walker : Walker} : Strolls 0 walker walker
  | crossed {moves : Nat} {walker next last : Walker} : walker.move = .crossed next → Strolls moves next last →
      Strolls (moves + 1) walker last
  | ran {moves : Nat} {walker next last : Walker} : walker.move = .ran next → Strolls moves next last →
      Strolls (moves + 1) walker last

theorem Strolls.trans {last : Walker} {moves more : Nat} (first : Strolls moves walker next)
    (second : Strolls more next last) : Strolls (moves + more) walker last := by
  induction first with
  | refl => rwa [Nat.zero_add]
  | crossed moved _ ih =>
    rw [Nat.add_right_comm]
    exact .crossed moved (ih second)
  | ran moved _ ih =>
    rw [Nat.add_right_comm]
    exact .ran moved (ih second)

/-- What every silent move preserves holds at the end of a stroll. -/
theorem Strolls.preserves {holds : Walker → Prop}
    (keeps : ∀ walker next, walker.move = .crossed next ∨ walker.move = .ran next → holds walker → holds next)
    {moves : Nat} (stroll : Strolls moves walker next) (before : holds walker) : holds next := by
  induction stroll with
  | refl => exact before
  | crossed moved _ ih => exact ih (keeps _ _ (.inl moved) before)
  | ran moved _ ih => exact ih (keeps _ _ (.inr moved) before)

/-- How many boundaries a walker may cross at most before it does something else. -/
def slack (walker : Walker) : Nat :=
  match walker.code, walker.blocks with
  | [], block :: _ => block.slack walker.store.operands.size
  | _, _ => 0

theorem slack_close {block : Block} {outer : List Block} (code : walker.code = [])
    (blocks : walker.blocks = block :: outer) : walker.slack = block.slack walker.store.operands.size := by
  rw [slack, code, blocks]

theorem slack_inside {block : Block} {address : Nat} {items : List Item} {outer : List Block} :
    (walker.inside block address items outer).slack ≤ block.slack walker.store.operands.size := by
  cases items with
  | nil => exact Nat.le_refl _
  | cons => exact Nat.zero_le _

theorem slack_of_takeNumber {store left : Store} {n : Decimal} (taken : store.takeNumber = .ok (n, left)) :
    left.operands.size + 1 = store.operands.size := by
  obtain ⟨value, operands, popped, -, rfl⟩ := Store.take_of_ok taken
  exact Stack.size_of_popOne popped

theorem perform_ne_crossed {item : Item} {rest : List Piece} : walker.perform item rest ≠ .crossed next := by
  intro moved
  cases item <;> simp only [perform, word, builtin, Move.after] at moved <;>
    (repeat' split at moved) <;> cases moved

/-- No boundary is crossed for ever: a block is left, or a repetition or an operand is used up. -/
theorem slack_of_crossed (moved : walker.move = .crossed next) : next.slack < walker.slack := by
  unfold move at moved
  split at moved
  · cases moved
  · exact (perform_ne_crossed moved).elim
  · rename_i block outer code blocks
    rw [slack_close code blocks]
    cases block with
    | consequent bound closing =>
      cases moved
      exact Nat.one_pos
    | repeats start body remaining closing =>
      cases remaining with
      | zero =>
        cases moved
        exact Nat.one_pos
      | succ remaining =>
        cases moved
        exact Nat.lt_succ_of_le slack_inside
    | test loop closing =>
      simp only [close, Move.after] at moved
      split at moved
      · rename_i n store taken
        have smaller := slack_of_takeNumber taken
        split at moved
        · cases moved
          exact Nat.succ_pos _
        · cases moved
          refine Nat.lt_of_le_of_lt slack_inside ?_
          simp only [Block.slack]
          omega
      · cases moved
    | body loop closing =>
      cases moved
      exact Nat.lt_succ_of_le slack_inside
    | cell owned closing =>
      simp only [close, Move.after] at moved
      split at moved
      · cases moved
        exact Nat.one_pos
      · cases moved
    | call tape address rest => cases moved
  · cases moved

/-- A walker that stands on its tapes and imports nothing. -/
def Sound (walker : Walker) : Prop :=
  walker.Placed ∧ walker.Alone

theorem Sound.leads (sound : walker.Sound) : walker.move.Leads Sound := by
  have placed := sound.1.leads sound.2
  have alone := sound.2.leads
  cases moved : walker.move with
  | crossed | ran | prints =>
    rw [moved] at placed alone
    exact ⟨placed, alone⟩
  | asks =>
    rw [moved] at placed alone
    exact fun store => ⟨placed store, alone store⟩
  | imports =>
    rw [moved] at alone
    exact alone
  | failed | ends => trivial

/-- Before its next turn a machine crosses as many boundaries as its walker. -/
theorem Sound.turn (sound : walker.Sound) :
    ∃ moves last, Strolls moves walker last ∧ last.Sound ∧ walker.machine.settle = last.machine.settle ∧
      ∀ next, last.move ≠ .crossed next := by
  induction bound : walker.slack using Nat.strongRecOn generalizing walker with
  | ind slack ih =>
    cases moved : walker.move with
    | crossed next =>
      have leads := sound.leads
      have agrees := sound.1.agrees
      rw [moved] at leads agrees
      obtain ⟨moves, last, stroll, placed, same, settled⟩ :=
        ih next.slack (bound ▸ slack_of_crossed moved) leads rfl
      exact ⟨moves + 1, last, .crossed moved stroll, placed, agrees.1.trans same, settled⟩
    | ran | prints | asks | imports | failed | ends =>
      refine ⟨0, walker, .refl, sound, rfl, ?_⟩
      intro next crossed
      rw [moved] at crossed
      cases crossed

/-- The machine of a walker that waits for an answer to a question at `place`. -/
def awaiting (walker : Walker) (kind : InputKind) (place : Location) : Machine :=
  { walker.machine with pending := some (kind, place), phase := .awaiting }

/-- A line that answers the question is on the stack, and the machine goes on. -/
theorem enter_of_answer {kind : InputKind} {line : String} {store : Store} (place : Location)
    (answered : walker.store.answer kind (some line) = .ok store) :
    (walker.awaiting kind place).enter line = { walker with store }.machine := by
  simp only [Store.answer, Option.getD] at answered
  unfold Machine.enter
  simp only [awaiting]
  cases read : Machine.readLine kind (String.ofList (chomp line.toList)) with
  | error => rw [read] at answered; cases answered
  | ok value =>
    rw [read] at answered
    have pushed : walker.store.push value = .ok store := answered
    have same : walker.machine.operands = walker.store.operands := rfl
    simp only [Store.push, Stack.accepted] at pushed
    simp only [same]
    generalize walker.store.operands.push value = result at pushed ⊢
    obtain ⟨outcome, operands⟩ := result
    cases outcome with
    | error => cases pushed
    | ok => cases pushed; rfl

/-- A line that is no answer is a fault. -/
theorem enter_of_error {kind : InputKind} {line : String} {cause : Cause} (place : Location)
    (failed : walker.store.answer kind (some line) = .error cause) :
    ∃ after : Machine, (walker.awaiting kind place).enter line =
        { after with fault := some ⟨cause, some place⟩ } ∧ after.Calm := by
  simp only [Store.answer, Option.getD] at failed
  unfold Machine.enter
  simp only [awaiting]
  cases read : Machine.readLine kind (String.ofList (chomp line.toList)) with
  | error =>
    rw [read] at failed
    cases failed
    exact ⟨walker.machine, rfl, ⟨rfl, rfl, rfl⟩⟩
  | ok value =>
    rw [read] at failed
    have pushed : walker.store.push value = .error cause := failed
    have same : walker.machine.operands = walker.store.operands := rfl
    simp only [Store.push, Stack.accepted] at pushed
    simp only [same]
    generalize walker.store.operands.push value = result at pushed ⊢
    obtain ⟨outcome, operands⟩ := result
    cases outcome with
    | ok => cases pushed
    | error =>
      cases pushed
      exact ⟨{ walker.machine with operands }, rfl, ⟨rfl, rfl, rfl⟩⟩

/-- Where input has ended, some line is the answer. -/
theorem closeInput_awaiting (walker : Walker) (kind : InputKind) (place : Location) :
    ∃ line, (walker.awaiting kind place).closeInput = (walker.awaiting kind place).enter line ∧
      ∀ store : Store, store.answer kind none = store.answer kind (some line) := by
  cases kind with
  | number => exact ⟨"0", rfl, fun _ => rfl⟩
  | string => exact ⟨"", rfl, fun _ => rfl⟩

theorem farewell_cases (store : Store) :
    store.farewell = [.stopped] ∨ ∃ regions slots, store.farewell = [.leak regions slots, .stopped] := by
  unfold Store.farewell
  dsimp only
  split
  · exact .inl rfl
  · exact .inr ⟨_, _, rfl⟩

/-- What an execution shows where the walker's next move is not a silent one. -/
def Reports (walker : Walker) (workspace : Workspace) (result : Run.Result) : Prop :=
  match walker.move with
  | .prints text next => result = (.print text, ⟨next.machine, []⟩, workspace)
  | .asks kind prompt place next =>
    result = (.input prompt, ⟨next.awaiting kind place, []⟩, workspace)
  | .failed failure => ∃ after : Machine, after.Calm ∧
      result = (.error failure, ⟨{ after with phase := .finished }, []⟩, workspace)
  | .ends => ∃ event later, walker.store.farewell = event :: later ∧
      result = (event, ⟨{ walker.machine with phase := .finished }, []⟩, workspace)
  | .crossed _ | .ran _ | .imports .. => False

theorem finish_machine (walker : Walker) :
    ∃ event later, walker.store.farewell = event :: later ∧
      walker.machine.finish = .shows event { walker.machine with phase := .finished } := by
  have same : walker.machine.heap = walker.store.heap := rfl
  simp only [Machine.finish, Store.farewell, same]
  split
  · exact ⟨_, _, rfl, rfl⟩
  · exact ⟨_, _, rfl, rfl⟩

/-- The move shows something. -/
def Move.Shows : Move → Prop
  | .crossed _ | .ran _ | .imports .. => False
  | .prints .. | .asks .. | .failed _ | .ends => True

/-- Where the walker's next move shows something, a turn of his machine shows it. -/
theorem Placed.reports (placed : walker.Placed) (shows : walker.move.Shows) {machine : Machine}
    (same : machine.settle = walker.machine.settle) (settings : Settings) (execute : Run → Workspace → Run.Result)
    (turns : Nat) (workspace : Workspace) :
    walker.Reports workspace (Run.advance settings execute (turns + 1) ⟨machine, []⟩ workspace) := by
  have agrees := placed.agrees
  rw [Run.advance, Machine.step_of_settle same, Reports]
  cases moved : walker.move with
  | crossed | ran | imports =>
    rw [moved] at shows
    exact shows.elim
  | prints text next =>
    rw [moved] at agrees
    rw [agrees.1]
  | asks kind prompt place next =>
    rw [moved] at agrees
    rw [agrees.1]
    rfl
  | failed failure =>
    rw [moved] at agrees
    obtain ⟨cause, after, fails, rfl, calm⟩ := agrees
    rw [fails]
    exact ⟨after, calm, rfl⟩
  | ends =>
    rw [moved] at agrees
    obtain ⟨event, later, farewell, finish⟩ := walker.finish_machine
    have ends : walker.machine.step = walker.machine.finish := agrees
    rw [ends, finish]
    exact ⟨event, later, farewell, rfl⟩

/-- So many turns take a walker to another one, where the slice has ended or something is shown. -/
theorem Sound.advance (sound : walker.Sound) (settings : Settings)
    (execute : Run → Workspace → Run.Result) (turns : Nat) (workspace : Workspace) :
    ∃ moves last, Strolls moves walker last ∧ last.Sound ∧
      (turns ≤ moves ∧ Run.advance settings execute turns ⟨walker.machine, []⟩ workspace =
          (.running, ⟨last.machine, []⟩, workspace) ∨
        last.Reports workspace (Run.advance settings execute turns ⟨walker.machine, []⟩ workspace)) := by
  induction turns generalizing walker with
  | zero => exact ⟨0, walker, .refl, sound, .inl ⟨Nat.le_refl _, rfl⟩⟩
  | succ turns ih =>
    obtain ⟨moves, last, stroll, sound', same, settled⟩ := sound.turn
    have leads := sound'.leads
    cases moved : last.move with
    | crossed next => exact (settled next moved).elim
    | imports name place =>
      rw [moved] at leads
      exact leads.elim
    | ran next =>
      have agrees := sound'.1.agrees
      rw [moved] at leads agrees
      obtain ⟨more, final, further, final_sound, result⟩ := ih leads
      refine ⟨moves + (more + 1), final, stroll.trans (.ran moved further), final_sound, ?_⟩
      rw [Run.advance, Machine.step_of_settle same, agrees.1]
      rcases result with ⟨enough, same⟩ | reports
      · exact .inl ⟨by omega, same⟩
      · exact .inr reports
    | prints | asks | failed | ends =>
      have shows : last.move.Shows := by
        rw [moved]
        trivial
      exact ⟨moves, last, stroll, sound', .inr (sound'.1.reports shows same settings execute turns workspace)⟩

/-- A slice of a walker's machine. -/
theorem Sound.execute (sound : walker.Sound) (settings : Settings) (cycles : Nat) (workspace : Workspace) :
    ∃ moves last, Strolls moves walker last ∧ last.Sound ∧
      (cycles ≤ moves ∧ Run.execute settings cycles ⟨walker.machine, []⟩ workspace =
          (.running, ⟨last.machine, []⟩, workspace) ∨
        last.Reports workspace (Run.execute settings cycles ⟨walker.machine, []⟩ workspace)) :=
  sound.advance settings _ cycles workspace

theorem execute_faulty {after : Machine} {failure : Failure} (calm : after.Calm) (settings : Settings)
    (cycles : Nat) (workspace : Workspace) :
    Run.execute settings cycles ⟨{ after with fault := some failure }, []⟩ workspace =
      (.error failure, ⟨{ after with phase := .finished }, []⟩, workspace) := by
  simp only [Run.execute, Run.executeWithin, calm.interrupted, Run.fail]
  rw [← calm.fault]
  rfl

theorem execute_finished {after : Machine} (calm : after.Calm) (settings : Settings) (cycles : Nat)
    (workspace : Workspace) :
    Run.execute settings cycles ⟨{ after with phase := .finished }, []⟩ workspace =
      (.stopped, ⟨{ after with phase := .finished }, []⟩, workspace) := by
  simp only [Run.execute, Run.executeWithin, calm.interrupted, calm.fault]
  rfl

theorem machine_calm (walker : Walker) : walker.machine.Calm :=
  ⟨rfl, rfl, rfl⟩

end Walker

end TapeMachine
