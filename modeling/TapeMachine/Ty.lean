namespace TapeMachine

/-- What is known of a value before it exists. -/
inductive Ty
  | number
  | string
  | pointer
  | any
  deriving DecidableEq, Repr

namespace Ty

def name : Ty → String
  | number => "number"
  | string => "string"
  | pointer => "ptr"
  | any => "any"

/-- The spellings a signature may use. -/
def ofName? (name : String) : Option Ty :=
  if name ∈ ["number", "num", "n"] then some number
  else if name ∈ ["string", "str", "s"] then some string
  else if name ∈ ["ptr", "pointer", "p"] then some pointer
  else if name ∈ ["any", "a"] then some any
  else none

/-- `any` fits everything, from either side. -/
def accepts (wanted found : Ty) : Bool :=
  wanted == any || found == any || wanted == found

theorem ofName?_name (t : Ty) : ofName? t.name = some t := by
  cases t <;> decide

/-- `found` has one type for each of `wanted`, and each fits. -/
def acceptsAll (wanted found : List Ty) : Bool :=
  wanted.length == found.length && (wanted.zip found).all fun pair => accepts pair.1 pair.2

def listText (types : List Ty) : String :=
  if types.isEmpty then "nothing" else " ".intercalate (types.map name)

end Ty

end TapeMachine
