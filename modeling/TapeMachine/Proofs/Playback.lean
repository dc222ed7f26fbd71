import TapeMachine.Proofs.Evaluator
import TapeMachine.Proofs.Simulation

namespace TapeMachine

namespace Log

/-- A log that is cut off may go on in any way; one that has ended stays as it is. -/
structure Below (first second : Log) : Prop where
  shown : first.shown <+: second.shown
  ended : first.ending ≠ .unfinished → first = second

theorem Below.refl (log : Log) : log.Below log :=
  ⟨List.prefix_refl _, fun _ => rfl⟩

theorem Below.trans {first second third : Log} (lower : first.Below second) (upper : second.Below third) :
    first.Below third where
  shown := lower.shown.trans upper.shown
  ended ended := by
    have same := lower.ended ended
    exact same.trans (upper.ended (same ▸ ended))

theorem Below.of_eq {first second : Log} (same : first = second) : first.Below second :=
  same ▸ .refl first

theorem Below.of_cut {dialogue : Dialogue} {log : Log} (shown : dialogue.shown <+: log.shown) :
    dialogue.cut.Below log :=
  ⟨shown, fun ended => (ended rfl).elim⟩

end Log

namespace Walker

/-- What a walker's move shows; `go` is what comes behind it. -/
def Move.log (go : Walker → Dialogue → Log) (walker : Walker) (dialogue : Dialogue) : Move → Log
  | .crossed next | .ran next => go next dialogue
  | .prints text next => go next (dialogue.say (.print text))
  | .asks kind prompt place next =>
    match next.store.answer kind dialogue.lines.head? with
    | .ok store => go { next with store } (dialogue.ask prompt)
    | .error cause => (dialogue.ask prompt).fail ⟨cause, some place⟩
  | .imports _ _ => ⟨dialogue.shown, .importing⟩
  | .failed failure => dialogue.fail failure
  | .ends => dialogue.close walker.store walker.functions.names

/-- The log of at most so many moves. -/
def play : (moves : Nat) → Walker → Dialogue → Log
  | 0, _, dialogue => dialogue.cut
  | moves + 1, walker, dialogue => walker.move.log (play moves) walker dialogue

/-- A play keeps what has been shown before it. -/
theorem shown_play (moves : Nat) (walker : Walker) (dialogue : Dialogue) :
    dialogue.shown <+: (walker.play moves dialogue).shown := by
  induction moves generalizing walker dialogue with
  | zero => exact List.prefix_refl _
  | succ moves ih =>
    rw [play]
    cases walker.move with
    | crossed next | ran next => exact ih next dialogue
    | prints text next => exact (List.prefix_append _ _).trans (ih next (dialogue.say (.print text)))
    | asks kind prompt place next =>
      simp only [Move.log]
      split
      · exact (List.prefix_append _ _).trans (ih _ (dialogue.ask prompt))
      · exact (List.prefix_append _ [.input prompt]).trans (List.prefix_append _ _)
    | imports name place => exact List.prefix_refl _
    | failed failure | ends => exact List.prefix_append _ _

/-- Move by move a play goes on where it was cut off. -/
theorem play_below_succ (moves : Nat) (walker : Walker) (dialogue : Dialogue) :
    (walker.play moves dialogue).Below (walker.play (moves + 1) dialogue) := by
  induction moves generalizing walker dialogue with
  | zero => exact .of_cut (shown_play 1 walker dialogue)
  | succ moves ih =>
    rw [play, play]
    cases walker.move with
    | crossed next | ran next => exact ih next dialogue
    | prints text next => exact ih next _
    | asks kind prompt place next =>
      simp only [Move.log]
      split
      · exact ih _ _
      · exact .refl _
    | imports | failed | ends => exact .refl _

theorem play_below {fewer more : Nat} (le : fewer ≤ more) (walker : Walker) (dialogue : Dialogue) :
    (walker.play fewer dialogue).Below (walker.play more dialogue) := by
  induction le with
  | refl => exact .refl _
  | step _ ih => exact ih.trans (play_below_succ _ walker dialogue)

/-- In so many moves a walker gets from one place to another. -/
def Travels (moves : Nat) (walker : Walker) (dialogue : Dialogue) (next : Walker) (later : Dialogue) : Prop :=
  ∀ more, walker.play (moves + more) dialogue = next.play more later

theorem Travels.refl (walker : Walker) (dialogue : Dialogue) : Travels 0 walker dialogue walker dialogue := by
  intro more
  rw [Nat.zero_add]

theorem Travels.trans {first second third : Walker} {before between after : Dialogue} {moves more : Nat}
    (travel : Travels moves first before second between) (further : Travels more second between third after) :
    Travels (moves + more) first before third after := by
  intro rest
  rw [Nat.add_assoc, travel, further]

variable {walker next : Walker} {dialogue : Dialogue}

theorem travels_of_ran (moved : walker.move = .ran next) : Travels 1 walker dialogue next dialogue := by
  intro more
  rw [Nat.add_comm, play, moved]
  rfl

theorem travels_of_crossed (moved : walker.move = .crossed next) :
    Travels 1 walker dialogue next dialogue := by
  intro more
  rw [Nat.add_comm, play, moved]
  rfl

end Walker

theorem Verdict.andThen_done (verdict : Verdict) : verdict.andThen .done = verdict := by
  cases verdict <;> rfl

/-- What a walker's table of functions means to the evaluator. -/
def Routine.meaning : Routine → Meaning
  | builtin word => .builtin word
  | user _ _ _ body => .body body

namespace Walker

/-- The walker has `code` to do inside `blocks`, and all else is as in the scene. -/
structure Stands (walker : Walker) (scene : Scene) (code : List Piece) (blocks : List Block) : Prop where
  code : walker.code = code
  blocks : walker.blocks = blocks
  store : walker.store = scene.store
  functions : walker.functions.map Routine.meaning = scene.functions

/-- A walker acts a verdict out: it gets behind the code with the scene that comes of it, or its play is
the log. A log that is cut off takes as many moves as there was fuel. -/
def Acts (fuel : Nat) (walker : Walker) (dialogue : Dialogue) (rest : List Piece) (blocks : List Block) :
    Verdict → Prop
  | .done scene => ∃ moves next, Travels moves walker dialogue next scene.dialogue ∧ next.Stands scene rest blocks
  | .ended log => ∃ moves, fuel ≤ moves ∧ walker.play moves dialogue = log

variable {fuel : Nat} {walker next : Walker} {dialogue : Dialogue} {rest : List Piece} {blocks : List Block}
variable {verdict : Verdict}

theorem Acts.mono {more : Nat} (acts : walker.Acts more dialogue rest blocks verdict) (le : fuel ≤ more) :
    walker.Acts fuel dialogue rest blocks verdict := by
  cases verdict with
  | done scene => exact acts
  | ended log =>
    obtain ⟨moves, enough, same⟩ := acts
    exact ⟨moves, Nat.le_trans le enough, same⟩

theorem Travels.acts {moves : Nat} {later : Dialogue} (travel : Travels moves walker dialogue next later)
    (acts : next.Acts fuel later rest blocks verdict) :
    walker.Acts (fuel + moves) dialogue rest blocks verdict := by
  cases verdict with
  | done scene =>
    obtain ⟨more, final, further, stands⟩ := acts
    exact ⟨moves + more, final, travel.trans further, stands⟩
  | ended log =>
    obtain ⟨more, enough, same⟩ := acts
    exact ⟨moves + more, by omega, (travel more).trans same⟩

/-- Behind one verdict the next one is acted out. -/
theorem Acts.andThen {between : List Piece} {inner : List Block} {go : Scene → Verdict}
    (acts : walker.Acts fuel dialogue between inner verdict)
    (goes : ∀ scene next, Stands next scene between inner →
      next.Acts fuel scene.dialogue rest blocks (go scene)) :
    walker.Acts fuel dialogue rest blocks (verdict.andThen go) := by
  cases verdict with
  | done scene =>
    obtain ⟨moves, next, travel, stands⟩ := acts
    exact (travel.acts (goes scene next stands)).mono (Nat.le_add_right _ _)
  | ended log => exact acts

theorem move_mark {mark : Mark} {place : Location} (code : walker.code = .mark mark place :: rest) :
    walker.move = .ran (walker.pass mark rest) := by
  rw [move, code]

theorem move_item {item : Item} (code : walker.code = .item item :: rest) :
    walker.move = walker.perform item rest := by
  rw [move, code]

theorem move_close {block : Block} {outer : List Block} (code : walker.code = [])
    (blocks : walker.blocks = block :: outer) : walker.move = walker.close block outer := by
  rw [move, code, blocks]

theorem acts_of_ran (moved : walker.move = .ran next) (acts : next.Acts fuel dialogue rest blocks verdict) :
    walker.Acts (fuel + 1) dialogue rest blocks verdict :=
  (travels_of_ran moved).acts acts

theorem acts_of_crossed (moved : walker.move = .crossed next)
    (acts : next.Acts fuel dialogue rest blocks verdict) :
    walker.Acts (fuel + 1) dialogue rest blocks verdict :=
  (travels_of_crossed moved).acts acts

theorem acts_done (scene : Scene) (stands : walker.Stands scene rest blocks) :
    walker.Acts fuel scene.dialogue rest blocks (.done scene) :=
  ⟨0, walker, .refl _ _, stands⟩

/-- The `end` of a block changes nothing. -/
theorem acts_mark (scene : Scene) {place : Location} (stands : walker.Stands scene (.mark .noop place :: rest) blocks) :
    walker.Acts fuel scene.dialogue rest blocks (.done scene) := by
  refine (acts_of_ran (move_mark stands.code) (acts_done scene ?_)).mono (Nat.le_succ _)
  exact ⟨rfl, stands.blocks, stands.store, stands.functions⟩

/-- A failure of the walker is one of the evaluator. -/
theorem acts_after {α : Type} {outcome : Outcome α} {place : Location} {onward : α → Move} {go : α → Verdict}
    (moved : walker.move = .after outcome place onward)
    (goes : ∀ found, outcome = .ok found → walker.move = onward found →
      walker.Acts fuel dialogue rest blocks (go found)) :
    walker.Acts fuel dialogue rest blocks (.after dialogue place outcome go) := by
  cases outcome with
  | ok found => exact goes found rfl moved
  | error cause =>
    refine ⟨fuel + 1, Nat.le_succ _, ?_⟩
    rw [play, moved]
    rfl

/-- A walker that leaves a block passes its `end` too. -/
theorem acts_leave (scene : Scene) {left : Walker} {closing : Closing} {outer : List Block}
    (moved : walker.move = .crossed (left.leave closing outer)) (store : left.store = scene.store)
    (functions : left.functions.map Routine.meaning = scene.functions) :
    walker.Acts fuel scene.dialogue closing.rest outer (.done scene) := by
  exact (acts_of_crossed moved (acts_mark scene ⟨rfl, rfl, store, functions⟩)).mono (Nat.le_succ _)

/-- Wherever a walker has the items to do, it acts out what the evaluator makes of them. -/
def Enacts (fuel : Nat) (run : Scene → Verdict) (items : List Item) : Prop :=
  ∀ walker scene rest blocks, Stands walker scene (Piece.ofItems items ++ rest) blocks →
    walker.Acts fuel scene.dialogue rest blocks (run scene)

theorem Enacts.mono {more : Nat} {run : Scene → Verdict} {items : List Item} (enacts : Enacts more run items)
    (le : fuel ≤ more) : Enacts fuel run items := by
  intro walker scene rest blocks stands
  exact (enacts walker scene rest blocks stands).mono le

/-- On the level of a block there is nothing behind the items. -/
theorem Enacts.inside {run : Scene → Verdict} {items : List Item} (enacts : Enacts fuel run items)
    (scene : Scene) {block : Block} {address : Nat} {outer : List Block} (store : walker.store = scene.store)
    (functions : walker.functions.map Routine.meaning = scene.functions) :
    (walker.inside block address items outer).Acts fuel scene.dialogue [] (block :: outer) (run scene) :=
  enacts _ scene [] _ ⟨(List.append_nil _).symm, rfl, store, functions⟩

/-- Each turn of a repetition runs the body once. -/
theorem Enacts.again {run : Scene → Verdict} {body : List Item} (enacts : Enacts fuel run body)
    {start remaining : Nat} {closing : Closing} {outer : List Block} (scene : Scene)
    (store : walker.store = scene.store) (functions : walker.functions.map Routine.meaning = scene.functions) :
    (walker.inside (.repeats start body remaining closing) (start + 1) body outer).Acts fuel scene.dialogue
      closing.rest outer (Scene.again run (remaining + 1) scene) := by
  induction remaining generalizing walker scene with
  | zero =>
    refine (enacts.inside scene store functions).andThen ?_
    intro closed last stands
    exact acts_leave closed (move_close stands.code stands.blocks) stands.store stands.functions
  | succ remaining ih =>
    refine (enacts.inside scene store functions).andThen ?_
    intro closed last stands
    have onward := ih closed stands.store stands.functions
    exact (acts_of_crossed (move_close stands.code stands.blocks) onward).mono (Nat.le_succ _)

/-- A loop that may run its test `limit` times makes at least so many moves before it is given up. -/
theorem Enacts.alternate {test body : Scene → Verdict} {loop : Loop} (tests : Enacts fuel test loop.test)
    (runs : Enacts fuel body loop.body) {limit : Nat} (bounded : limit ≤ fuel) {closing : Closing}
    {outer : List Block} (scene : Scene) (store : walker.store = scene.store)
    (functions : walker.functions.map Routine.meaning = scene.functions) :
    (walker.inside (.test loop closing) (loop.start + 1) loop.test outer).Acts limit scene.dialogue
      closing.rest outer (Scene.alternate test body loop.place limit scene) := by
  induction limit generalizing walker scene with
  | zero => exact ⟨0, Nat.le_refl _, rfl⟩
  | succ limit ih =>
    refine ((tests.mono bounded).inside scene store functions).andThen ?_
    intro tested judge stands
    have moved := move_close stands.code stands.blocks
    rw [close, stands.store] at moved
    refine acts_after moved ?_
    rintro ⟨n, store⟩ - moved
    dsimp only at moved ⊢
    split at moved
    · rename_i zero
      rw [if_pos zero]
      exact acts_leave { tested with store } moved rfl stands.functions
    · rename_i more
      rw [if_neg more]
      have le : limit ≤ fuel := by omega
      refine acts_of_crossed moved (Acts.andThen ((runs.mono le).inside { tested with store } rfl stands.functions) ?_)
      intro again last stands
      have onward := ih le again stands.store stands.functions
      exact (acts_of_crossed (move_close stands.code stands.blocks) onward).mono (Nat.le_succ _)

/-- A body that has been called runs inside its call, behind two marks. -/
theorem Enacts.call {run : Scene → Verdict} {body : List Item} (enacts : Enacts fuel run body) {scene : Scene}
    {caller : Tape} {address : Nat} {place : Location}
    (stands : walker.Stands scene (.mark .noop place :: .mark .enter place :: Piece.ofItems body)
      (.call caller address rest :: blocks)) :
    walker.Acts fuel scene.dialogue rest blocks (run scene) := by
  have first := move_mark stands.code
  have second : (walker.pass .noop (.mark .enter place :: Piece.ofItems body)).move = _ := move_mark rfl
  have inside := enacts ((walker.pass .noop (.mark .enter place :: Piece.ofItems body)).pass .enter _) scene []
    (.call caller address rest :: blocks) ⟨(List.append_nil _).symm, stands.blocks, stands.store, stands.functions⟩
  rw [← Verdict.andThen_done (run scene)]
  refine (acts_of_ran first (acts_of_ran second (inside.andThen ?_))).mono (Nat.le_add_right _ 2)
  intro closed last stood
  refine (acts_of_ran (move_close stood.code stood.blocks) (acts_done closed ?_)).mono (Nat.le_succ _)
  exact ⟨rfl, rfl, stood.store, stood.functions⟩

/-- An instruction that only works on the store. -/
theorem Stands.acts_store {scene : Scene} {code : List Piece} {place : Location} {outcome : Outcome Store}
    (stands : walker.Stands scene code blocks)
    (moved : walker.move = .after outcome place fun store => .ran (walker.next rest store)) :
    walker.Acts fuel scene.dialogue rest blocks (scene.after place outcome scene.keep) := by
  refine acts_after moved ?_
  intro store _ moved
  refine (acts_of_ran moved (acts_done { scene with store } ?_)).mono (Nat.le_succ _)
  exact ⟨rfl, stands.blocks, rfl, stands.functions⟩

theorem Stands.acts_builtin {scene : Scene} {code : List Piece} {place : Location} {word : Builtin}
    (stands : walker.Stands scene code blocks) (moved : walker.move = walker.builtin word place rest) :
    walker.Acts fuel scene.dialogue rest blocks (scene.builtin word place) := by
  rw [builtin, stands.store] at moved
  refine acts_after moved ?_
  rintro ⟨effect, store⟩ - moved
  have stood : ∀ dialogue store, (walker.next rest store).Stands { scene with store, dialogue } rest blocks :=
    fun dialogue store => ⟨rfl, stands.blocks, rfl, stands.functions⟩
  cases effect with
  | «continue» => exact (acts_of_ran moved (acts_done _ (stood scene.dialogue store))).mono (Nat.le_succ _)
  | print text =>
    have travel : Travels 1 walker scene.dialogue (walker.next rest store) (scene.dialogue.say (.print text)) := by
      intro more
      rw [Nat.add_comm, play, moved]
      rfl
    exact (travel.acts (acts_done _ (stood _ store))).mono (Nat.le_succ _)
  | input kind prompt =>
    dsimp only
    cases answered : store.answer kind scene.dialogue.lines.head? with
    | error cause =>
      refine ⟨fuel + 1, Nat.le_succ _, ?_⟩
      rw [play, moved]
      simp only [Move.log, next, answered]
    | ok final =>
      have travel : Travels 1 walker scene.dialogue (walker.next rest final) (scene.dialogue.ask prompt) := by
        intro more
        rw [Nat.add_comm, play, moved]
        simp only [Move.log, next, answered]
      exact (travel.acts (acts_done _ (stood _ final))).mono (Nat.le_succ _)

/-- A word costs a move, so that a body may be left to an evaluator with less fuel. -/
theorem Stands.acts_word {scene : Scene} {place : Location} {name : String} {call : List Item → Scene → Verdict}
    (calls : ∀ items, Enacts fuel (call items) items)
    (stands : walker.Stands scene (.item (.word place name) :: rest) blocks) :
    walker.Acts (fuel + 1) scene.dialogue rest blocks (scene.word call name place) := by
  have moved : walker.move = walker.word name place rest := move_item stands.code
  have known : scene.functions.get? name = (walker.functions.get? name).map Routine.meaning := by
    rw [← stands.functions, Dictionary.get?_map]
  rw [word] at moved
  rw [Scene.word, known]
  cases found : walker.functions.get? name with
  | none =>
    rw [found, stands.store] at moved
    exact stands.acts_store moved
  | some routine =>
    rw [found] at moved
    cases routine with
    | builtin word => exact stands.acts_builtin moved
    | user tape definition from_ body =>
      exact acts_of_ran moved
        ((calls body).call ⟨rfl, congrArg (_ :: ·) stands.blocks, stands.store, stands.functions⟩)

/-- Behind the items of an opened block comes what stands behind them, marks first. -/
theorem Enacts.opened {run : Scene → Verdict} {items : List Item} (enacts : Enacts fuel run items)
    (scene : Scene) {place : Location}
    (stands : walker.Stands scene (Piece.ofItems items ++ .mark .noop place :: rest) blocks) :
    walker.Acts fuel scene.dialogue rest blocks (run scene) := by
  rw [← Verdict.andThen_done (run scene)]
  refine (enacts walker scene _ blocks stands).andThen ?_
  intro closed last stood
  exact acts_mark closed stood

mutual

/-- A walker that begins an item acts out what the evaluator makes of it. -/
theorem acts_evaluate {call : List Item → Scene → Verdict} (calls : ∀ items, Enacts fuel (call items) items)
    (item : Item) {walker : Walker} {scene : Scene} {rest : List Piece} {blocks : List Block}
    (stands : walker.Stands scene (.item item :: rest) blocks) :
    walker.Acts (fuel + 1) scene.dialogue rest blocks (evaluate (fuel + 1) call item scene) := by
  -- The walker is never behind: what the evaluator does in one go takes it at least as many moves.
  have moved := move_item stands.code
  cases item with
  | number place n =>
    rw [perform, stands.store] at moved
    exact stands.acts_store moved
  | string place text =>
    rw [perform, stands.store] at moved
    exact stands.acts_store moved
  | word place name => exact stands.acts_word calls
  | imports place name =>
    refine ⟨fuel + 1, Nat.le_refl _, ?_⟩
    rw [play, moved]
    rfl
  | branch place body stop =>
    rw [perform, stands.store] at moved
    refine acts_after moved ?_
    rintro ⟨n, store⟩ - moved
    dsimp only at moved ⊢
    split at moved
    · rename_i holds
      rw [if_pos holds]
      have inside := enacts_evaluateAll calls body
      exact (acts_of_ran moved (inside.opened { scene with store } ⟨rfl, stands.blocks, rfl, stands.functions⟩)).mono
        (Nat.le_succ _)
    · rename_i holds
      rw [if_neg holds]
      exact (acts_of_ran moved (acts_mark { scene with store } ⟨rfl, stands.blocks, rfl, stands.functions⟩)).mono
        (Nat.le_succ _)
  | choice place consequent middle alternative stop =>
    rw [perform, stands.store] at moved
    refine acts_after moved ?_
    rintro ⟨n, store⟩ - moved
    dsimp only at moved ⊢
    split at moved
    · rename_i holds
      rw [if_pos holds, ← Verdict.andThen_done (evaluateAll _ _ _ _), ← stands.blocks]
      have inside := enacts_evaluateAll calls consequent
      refine (acts_of_ran moved
        (Acts.andThen (inside.inside { scene with store } rfl stands.functions) ?_)).mono (Nat.le_succ _)
      intro closed last stood
      exact acts_leave closed (move_close stood.code stood.blocks) stood.store stood.functions
    · rename_i holds
      rw [if_neg holds]
      have inside := enacts_evaluateAll calls alternative
      exact (acts_of_ran moved (acts_of_ran (move_mark rfl) (inside.opened { scene with store }
        ⟨rfl, stands.blocks, rfl, stands.functions⟩))).mono (Nat.le_add_right _ 2)
  | repeats place body stop =>
    rw [perform, stands.store] at moved
    refine acts_after moved ?_
    rintro ⟨count, store⟩ - moved
    cases count with
    | zero =>
      exact (acts_of_ran moved (acts_mark { scene with store } ⟨rfl, stands.blocks, rfl, stands.functions⟩)).mono
        (Nat.le_succ _)
    | succ more =>
      rw [← stands.blocks]
      have inside := enacts_evaluateAll calls body
      exact (acts_of_ran moved (inside.again { scene with store } rfl stands.functions)).mono (Nat.le_succ _)
  | loop place test middle body stop =>
    have tests := enacts_evaluateAll calls test
    have runs := enacts_evaluateAll calls body
    rw [← stands.blocks]
    exact (acts_of_ran moved
      (Enacts.alternate tests runs (Nat.le_refl _) scene stands.store stands.functions)).mono (Nat.le_succ _)
  | bind place names body stop =>
    rw [perform, stands.store] at moved
    refine acts_after moved ?_
    intro store _ moved
    have inside := enacts_evaluateAll calls body
    refine (acts_of_ran moved (Acts.andThen
      (inside _ { scene with store } _ _ ⟨rfl, stands.blocks, rfl, stands.functions⟩) ?_)).mono (Nat.le_succ _)
    intro closed last stood
    exact (acts_of_ran (move_mark stood.code) (acts_mark { closed with store := closed.store.unbind }
      ⟨rfl, stood.blocks, congrArg Store.unbind stood.store, stood.functions⟩)).mono (Nat.le_succ _)
  | cell place name body stop =>
    rw [perform, stands.store] at moved
    refine acts_after moved ?_
    rintro ⟨owned, store⟩ - moved
    rw [← stands.blocks]
    have inside := enacts_evaluateAll calls body
    refine (acts_of_ran moved
      (Acts.andThen (inside.inside { scene with store } rfl stands.functions) ?_)).mono (Nat.le_succ _)
    intro closed last stood
    have left := move_close stood.code stood.blocks
    rw [close, stood.store] at left
    refine acts_after left ?_
    intro store _ left
    exact acts_leave { closed with store } left rfl stood.functions
  | define place heading body stop =>
    have functions : (walker.functions.insert heading.name (.user walker.tape
        ⟨heading, walker.ip + 1, walker.ip + 3 + span body⟩ place body)).map Routine.meaning =
        scene.functions.insert heading.name (.body body) := by
      rw [Dictionary.map_insert, stands.functions]
      rfl
    exact (acts_of_ran moved (acts_of_ran (move_mark rfl)
      (acts_mark { scene with functions := scene.functions.insert heading.name (.body body) }
        ⟨rfl, stands.blocks, stands.store, functions⟩))).mono (Nat.le_add_right _ 2)

theorem enacts_evaluateAll {call : List Item → Scene → Verdict} (calls : ∀ items, Enacts fuel (call items) items)
    (items : List Item) : Enacts (fuel + 1) (evaluateAll (fuel + 1) call items) items := by
  intro walker scene rest blocks stands
  match items with
  | [] => exact acts_done scene stands
  | item :: later =>
    refine (acts_evaluate calls item stands).andThen ?_
    intro scene next stood
    exact enacts_evaluateAll calls later next scene rest blocks stood

end

/-- A walker acts out what an evaluator with any fuel makes of a body. -/
theorem enacts_evaluateBody (fuel : Nat) (items : List Item) : Enacts fuel (evaluateBody fuel items) items := by
  induction fuel generalizing items with
  | zero =>
    intro walker scene rest blocks stands
    exact ⟨0, Nat.le_refl _, rfl⟩
  | succ fuel ih => exact enacts_evaluateAll ih items

theorem names_map {α β : Type} (f : α → β) (dictionary : Dictionary α) :
    (dictionary.map f).names = dictionary.names := by
  simp [Dictionary.names, Dictionary.map]

/-- The log that the evaluator gives with some fuel is a play of at least so many moves. -/
theorem exists_play_eq_evaluate (capacity fuel : Nat) (items : List Item) (lines : List String) :
    ∃ moves, fuel ≤ moves ∧
      (start capacity items).play moves { lines } = evaluateProgram capacity fuel items lines := by
  have stands : (start capacity items).Stands (.start capacity lines) (Piece.ofItems items ++ []) [] := by
    refine ⟨(List.append_nil _).symm, rfl, rfl, ?_⟩
    simp only [start, Scene.start, Dictionary.ofList, Dictionary.map_insertAll, List.map_map]
    rfl
  have acts := enacts_evaluateBody fuel items _ _ _ _ stands
  rw [evaluateProgram]
  cases verdict : evaluateBody fuel items (.start capacity lines) with
  | ended log =>
    rw [verdict] at acts
    exact acts
  | done scene =>
    rw [verdict] at acts
    obtain ⟨moves, last, travel, stood⟩ := acts
    refine ⟨moves + (fuel + 1), by omega, (travel (fuel + 1)).trans ?_⟩
    have ends : last.move = .ends := by rw [move, stood.code, stood.blocks]
    rw [play, ends, Verdict.log, ← stood.store, ← stood.functions, names_map]
    rfl

end Walker

end TapeMachine
