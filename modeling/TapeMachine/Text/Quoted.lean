import TapeMachine.Text.Hidden

namespace TapeMachine.Quoted

/-- The characters that stand for `c` inside double quotes, where the hidden ones are written by their numbers. -/
def escape (hidden : Char → Bool) (c : Char) : List Char :=
  if c = '"' then ['\\', '"']
  else if c = '\\' then ['\\', '\\']
  else if c = '\n' then ['\\', 'n']
  else if c = '\t' then ['\\', 't']
  else if c = '\r' then ['\\', 'r']
  else if c = '\x00' then ['\\', '0']
  else if hidden c then "\\u\x7b".toList ++ Nat.toDigits 16 c.toNat ++ "\x7d".toList
  else [c]

/-- `text` between double quotes, with every character escaped that has to be or is hidden. -/
def encodeBy (hidden : Char → Bool) (text : String) : String :=
  String.ofList ('"' :: text.toList.flatMap (escape hidden) ++ ['"'])

/-- `text` between double quotes, with every character escaped that would not show as itself. -/
def encode (text : String) : String :=
  encodeBy isHidden text

end TapeMachine.Quoted
