import TapeMachine.Proofs.Store

namespace TapeMachine

/-- How a run ends. What counts in the end is the stack, the heap and the names of the functions. -/
inductive Conclusion
  | unfinished
  /-- At an import, which is not for a single machine to resolve. -/
  | importing
  | failed
  | stopped (operands : Stack Value) (heap : Heap) (names : List String)

/-- What a run has shown, first to last, and how it has ended. -/
structure Log where
  shown : List Event
  ending : Conclusion

/-- The lines that have not been read yet, and what has been shown so far. -/
structure Dialogue where
  lines : List String
  shown : List Event := []

namespace Dialogue

def say (dialogue : Dialogue) (event : Event) : Dialogue :=
  { dialogue with shown := dialogue.shown ++ [event] }

/-- Ask for a line, which is then used up. -/
def ask (dialogue : Dialogue) (prompt : String) : Dialogue where
  lines := dialogue.lines.tail
  shown := dialogue.shown ++ [.input prompt]

def cut (dialogue : Dialogue) : Log where
  shown := dialogue.shown
  ending := .unfinished

def fail (dialogue : Dialogue) (failure : Failure) : Log where
  shown := dialogue.shown ++ [.error failure]
  ending := .failed

/-- The end of a program, with what is left behind. -/
def close (dialogue : Dialogue) (store : Store) (names : List String) : Log where
  shown := dialogue.shown ++ store.farewell
  ending := .stopped store.operands store.heap names

end Dialogue

/-- What a name stands for: a builtin, or the tree of a function's body. -/
inductive Meaning
  | builtin (word : Builtin)
  | body (items : List Item)

def Dictionary.names {α : Type} (dictionary : Dictionary α) : List String :=
  dictionary.entries.map Prod.fst

/-- All that a tree is evaluated in. -/
structure Scene where
  store : Store
  functions : Dictionary Meaning
  dialogue : Dialogue

/-- What comes of a tree: a scene to go on with, or the log of a run that ends inside it. -/
inductive Verdict
  | done (scene : Scene)
  | ended (log : Log)

namespace Verdict

def andThen (verdict : Verdict) (next : Scene → Verdict) : Verdict :=
  match verdict with
  | done scene => next scene
  | ended log => ended log

/-- Go on with what came of a store, unless it failed at `place`. -/
def after {α : Type} (dialogue : Dialogue) (place : Location) (outcome : Outcome α)
    (next : α → Verdict) : Verdict :=
  match outcome with
  | .ok found => next found
  | .error cause => .ended (dialogue.fail ⟨cause, some place⟩)

end Verdict

namespace Scene

def after {α : Type} (scene : Scene) (place : Location) (outcome : Outcome α) (next : α → Verdict) : Verdict :=
  .after scene.dialogue place outcome next

/-- Replace the store. -/
def keep (scene : Scene) (store : Store) : Verdict :=
  .done { scene with store }

/-- Run `body` a number of times. -/
def again (body : Scene → Verdict) : (count : Nat) → Scene → Verdict
  | 0, scene => .done scene
  | count + 1, scene => (body scene).andThen (again body count)

/-- Run `test` and `body` in turns until the test leaves 0. After `limit` tests the evaluator gives
up. -/
def alternate (test body : Scene → Verdict) (place : Location) : (limit : Nat) → Scene → Verdict
  | 0, scene => .ended scene.dialogue.cut
  | limit + 1, scene =>
    (test scene).andThen fun tested =>
      tested.after place tested.store.takeNumber fun (n, store) =>
        if n.isZero then tested.keep store
        else (body { tested with store }).andThen (alternate test body place limit)

/-- Call a builtin, and do what it asks the surroundings for. -/
def builtin (scene : Scene) (word : Builtin) (place : Location) : Verdict :=
  scene.after place (scene.store.invoke word) fun (effect, store) =>
    match effect with
    | .continue => scene.keep store
    | .print text => .done { scene with store, dialogue := scene.dialogue.say (.print text) }
    | .input kind prompt =>
      let dialogue := scene.dialogue.ask prompt
      .after dialogue place (store.answer kind scene.dialogue.lines.head?) fun store =>
        .done { scene with store, dialogue }

/-- A word by its name: what the name stands for now, or else what it is bound to. -/
def word (scene : Scene) (call : List Item → Scene → Verdict) (name : String) (place : Location) : Verdict :=
  match scene.functions.get? name with
  | some (.builtin word) => scene.builtin word place
  | some (.body items) => call items scene
  | none => scene.after place (scene.store.fetch name) scene.keep

end Scene

mutual

/-- Evaluate one item. Bodies of functions are left to `call`, and no loop may run its test more than
`limit` times. -/
def evaluate (limit : Nat) (call : List Item → Scene → Verdict) (item : Item) (scene : Scene) : Verdict :=
  match item with
  | .number place n => scene.after place (scene.store.push (.number n)) scene.keep
  | .string place text => scene.after place (scene.store.push (.string text)) scene.keep
  | .word place name => scene.word call name place
  | .imports _ _ => .ended ⟨scene.dialogue.shown, .importing⟩
  | .branch place body _ =>
    scene.after place scene.store.takeNumber fun (n, store) =>
      if Decimal.one.le n then evaluateAll limit call body { scene with store } else scene.keep store
  | .choice place consequent _ alternative _ =>
    scene.after place scene.store.takeNumber fun (n, store) =>
      if Decimal.one.le n then evaluateAll limit call consequent { scene with store }
      else evaluateAll limit call alternative { scene with store }
  | .repeats place body _ =>
    scene.after place scene.store.takeCount fun (count, store) =>
      Scene.again (evaluateAll limit call body) count { scene with store }
  | .loop _ test middle body _ =>
    Scene.alternate (evaluateAll limit call test) (evaluateAll limit call body) middle limit scene
  | .bind place names body _ =>
    scene.after place (scene.store.bind names) fun store =>
      (evaluateAll limit call body { scene with store }).andThen fun closed =>
        closed.keep closed.store.unbind
  | .cell place name body stop =>
    scene.after place (scene.store.claim name) fun (owned, store) =>
      (evaluateAll limit call body { scene with store }).andThen fun closed =>
        closed.after stop (closed.store.release owned) closed.keep
  | .define _ heading body _ =>
    .done { scene with functions := scene.functions.insert heading.name (.body body) }

/-- Evaluate items one behind the other. -/
def evaluateAll (limit : Nat) (call : List Item → Scene → Verdict) (items : List Item) (scene : Scene) : Verdict :=
  match items with
  | [] => .done scene
  | item :: rest => (evaluate limit call item scene).andThen (evaluateAll limit call rest)

end

/-- Evaluate a body; `fuel` bounds the depth of calls and the turns of loops. -/
def evaluateBody : (fuel : Nat) → List Item → Scene → Verdict
  | 0, _, scene => .ended scene.dialogue.cut
  | fuel + 1, items, scene => evaluateAll (fuel + 1) (evaluateBody fuel) items scene

namespace Scene

/-- Where every program begins. -/
def start (capacity : Nat) (lines : List String) : Scene where
  store := .start capacity
  functions := .ofList (Builtin.all.map fun word => (word.name, .builtin word))
  dialogue := { lines }

end Scene

/-- The log of a verdict on a whole program. -/
def Verdict.log : Verdict → Log
  | done scene => scene.dialogue.close scene.store scene.functions.names
  | ended log => log

/-- Evaluate a whole program on lines of input. -/
def evaluateProgram (capacity fuel : Nat) (items : List Item) (lines : List String) : Log :=
  (evaluateBody fuel items (.start capacity lines)).log

end TapeMachine
