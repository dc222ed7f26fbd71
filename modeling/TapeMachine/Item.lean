import TapeMachine.Decimal.Basic
import TapeMachine.Source

namespace TapeMachine

/-- The name of a function and the type names of its signature, as written. -/
structure Heading where
  name : String
  inputs : List String
  outputs : List String
  deriving DecidableEq

/-- A program as a tree. Every item knows where it stands: `place` is that of its first token,
`middle` that of the `else` or `do` inside it, and `stop` that of its `end`. -/
inductive Item
  | number (place : Location) (n : Decimal)
  | string (place : Location) (text : String)
  | word (place : Location) (name : String)
  | imports (place : Location) (name : String)
  | branch (place : Location) (body : List Item) (stop : Location)
  | choice (place : Location) (consequent : List Item) (middle : Location) (alternative : List Item)
      (stop : Location)
  | repeats (place : Location) (body : List Item) (stop : Location)
  | loop (place : Location) (test : List Item) (middle : Location) (body : List Item)
      (stop : Location)
  | bind (place : Location) (names : List String) (body : List Item) (stop : Location)
  | cell (place : Location) (name : String) (body : List Item) (stop : Location)
  | define (place : Location) (heading : Heading) (body : List Item) (stop : Location)

/-- Where an item ends. -/
def Item.last : Item → Location
  | number place _ | string place _ | word place _ | imports place _ => place
  | branch _ _ stop | choice _ _ _ _ stop | repeats _ _ stop | loop _ _ _ _ stop |
    bind _ _ _ stop | cell _ _ _ stop | define _ _ _ stop => stop

end TapeMachine
