import TapeMachine.Source
import TapeMachine.Text.Quoted

namespace TapeMachine

inductive Keyword
  | if_
  | else_
  | end_
  | repeat_
  | while_
  | let_
  | do_
  | fn
  | colon
  | var
  | import_
  deriving DecidableEq, Repr

namespace Keyword

def all : List Keyword :=
  [if_, else_, end_, repeat_, while_, let_, do_, fn, colon, var, import_]

def text : Keyword → String
  | if_ => "if"
  | else_ => "else"
  | end_ => "end"
  | repeat_ => "repeat"
  | while_ => "while"
  | let_ => "let"
  | do_ => "do"
  | fn => "fn"
  | colon => ":"
  | var => "var"
  | import_ => "import"

def ofText? (text : String) : Option Keyword :=
  all.find? fun keyword => keyword.text == text

theorem text_of_ofText? {text : String} {keyword : Keyword} (found : ofText? text = some keyword) :
    keyword.text = text :=
  beq_iff_eq.1 (List.find?_some (p := fun keyword : Keyword => keyword.text == text) found)

end Keyword

/-- The content of a token. A number keeps its spelling, and a string is held without its quotes and
escapes. -/
inductive Lexeme
  | number (digits : String)
  | string (contents : String)
  | keyword (keyword : Keyword)
  | word (name : String)
  deriving DecidableEq, Inhabited

namespace Lexeme

/-- `[0-9]+(\.[0-9]+)?` -/
def isNumber (text : List Char) : Bool :=
  let whole := text.takeWhile Char.isDigit
  !whole.isEmpty &&
    match text.dropWhile Char.isDigit with
    | [] => true
    | c :: fraction => c == '.' && !fraction.isEmpty && fraction.all Char.isDigit

/-- What a run of characters without blanks stands for. -/
def ofWord (text : List Char) : Lexeme :=
  if isNumber text then number (String.ofList text)
  else
    match Keyword.ofText? (String.ofList text) with
    | some found => keyword found
    | none => word (String.ofList text)

def contents : Lexeme → String
  | number digits => digits
  | string contents => contents
  | keyword meant => meant.text
  | word name => name

/-- The text of a token in messages: strings are quoted. -/
def text : Lexeme → String
  | string contents => Quoted.encode contents
  | lexeme => lexeme.contents

end Lexeme

structure Token where
  lexeme : Lexeme
  place : Location
  deriving DecidableEq, Inhabited

end TapeMachine
