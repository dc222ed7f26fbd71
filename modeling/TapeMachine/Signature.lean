import TapeMachine.Builtin
import TapeMachine.Item
import TapeMachine.Stack

namespace TapeMachine

/-- What a word takes from the stack and leaves on it, deepest first. -/
structure Signature where
  inputs : List Ty
  outputs : List Ty
  deriving DecidableEq

def Builtin.signature (word : Builtin) : Signature where
  inputs := word.inputs
  outputs := word.outputs

/-- The type of this name, which has to be one. -/
def Ty.named (name : String) : Outcome Ty :=
  match Ty.ofName? name with
  | some found => .ok found
  | none => .error (.notAType name)

/-- The signature that a definition declares. -/
def Heading.signature (heading : Heading) : Outcome Signature :=
  (heading.inputs.mapM Ty.named).bind fun inputs =>
    (heading.outputs.mapM Ty.named).map fun outputs => ⟨inputs, outputs⟩

namespace Signature

/-- The effect of a call of `word` on the types on the stack. -/
def apply (signature : Signature) (word : String) (stack : Stack Ty) : Outcome (Stack Ty) :=
  match stack.pop signature.inputs.length with
  | .error _ => .error (.tooFewFor word signature.inputs.length stack.size)
  | .ok (found, rest) =>
    if Ty.acceptsAll signature.inputs found then Stack.accepted (rest.pushAll signature.outputs)
    else .error (.arguments word signature.inputs found)

end Signature

end TapeMachine
