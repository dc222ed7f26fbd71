import TapeMachine.Dictionary

namespace TapeMachine

/-- The bindings in force: one frame for each open block, newest first. -/
structure Scope (α : Type) where
  frames : List (Dictionary α) := []
  deriving Inhabited

namespace Scope

variable {α : Type}

/-- Open an empty frame. -/
def push (scope : Scope α) : Scope α where
  frames := {} :: scope.frames

/-- Close the newest frame, if there is one. -/
def pop (scope : Scope α) : Scope α where
  frames := scope.frames.tail

/-- Bind in the newest frame, opening one if there is none. -/
def insert (scope : Scope α) (name : String) (value : α) : Scope α where
  frames :=
    match scope.frames with
    | [] => [({} : Dictionary α).insert name value]
    | frame :: rest => frame.insert name value :: rest

/-- A newer frame hides what older ones bind. -/
def get? (scope : Scope α) (name : String) : Option α :=
  scope.frames.findSome? fun frame => frame.get? name

/-- Open a frame that binds each name to the value beside it. A name that comes twice has the later
value. -/
def bind (scope : Scope α) (names : List String) (values : List α) : Scope α where
  frames := Dictionary.ofList (names.zip values) :: scope.frames

theorem get?_insert (scope : Scope α) (key name : String) (value : α) :
    (scope.insert key value).get? name = if key = name then some value else scope.get? name := by
  cases scope with
  | mk frames =>
    cases frames with
    | nil =>
      by_cases same : key = name <;> simp [get?, insert, Dictionary.get?_insert, same]
    | cons frame rest =>
      by_cases same : key = name <;>
        simp [get?, insert, Dictionary.get?_insert, same, List.findSome?_cons]

theorem get?_bind (scope : Scope α) (names : List String) (values : List α) (name : String) :
    (scope.bind names values).get? name =
      ((Dictionary.ofList (names.zip values)).get? name).or (scope.get? name) := by
  rw [get?, bind, List.findSome?_cons, get?]
  cases (Dictionary.ofList (names.zip values)).get? name <;> rfl

end Scope

end TapeMachine
