import QuantumBoard.Json.Basic
import QuantumBoard.Decimal.Notation

/-! Writing JSON: on one line without blanks, as messages quote a document, or laid out
with one element a line. A double that is no number is written as `null`. -/

namespace QuantumBoard.Json

/-- A character inside a string. -/
def escaped (c : Char) : List Char :=
  match c with
  | '"' => ['\\', '"']
  | '\\' => ['\\', '\\']
  | '\x08' => ['\\', 'b']
  | '\x0c' => ['\\', 'f']
  | '\n' => ['\\', 'n']
  | '\r' => ['\\', 'r']
  | '\t' => ['\\', 't']
  | c =>
    if c.toNat < 0x20 then
      ['\\', 'u', '0', '0', if c.toNat < 0x10 then '0' else '1', (c.toNat % 16).digitChar]
    else [c]

def renderText (s : String) : String :=
  String.ofList ('"' :: s.toList.flatMap escaped ++ ['"'])

def renderNumber (x : Float) : String :=
  if x.isFinite then Decimal.number x else "null"

/-- The text of a value that holds no others. -/
def renderScalar : Json → String
  | null => "null"
  | bool value => if value then "true" else "false"
  | integer value => toString value
  | real value => renderNumber value
  | text value => renderText value
  | _ => ""

mutual

/-- The value on one line. -/
def render : Json → String
  | array items => "[" ++ renderItems items ++ "]"
  | object members => "\x7b" ++ renderMembers members ++ "\x7d"
  | scalar => renderScalar scalar

def renderItems : List Json → String
  | [] => ""
  | [item] => render item
  | item :: rest => render item ++ "," ++ renderItems rest

def renderMembers : List (String × Json) → String
  | [] => ""
  | [(key, value)] => renderText key ++ ":" ++ render value
  | (key, value) :: rest => renderText key ++ ":" ++ render value ++ "," ++ renderMembers rest

end

/-- A new line at a depth of two blanks a level. -/
def newline (depth : Nat) : String := "\n" ++ String.ofList (List.replicate (2 * depth) ' ')

mutual

/-- The value over several lines, one element or member a line. -/
def layout (depth : Nat) : Json → String
  | array [] => "[]"
  | array items => "[" ++ layoutItems (depth + 1) items ++ newline depth ++ "]"
  | object [] => "\x7b\x7d"
  | object members => "\x7b" ++ layoutMembers (depth + 1) members ++ newline depth ++ "\x7d"
  | scalar => renderScalar scalar

def layoutItems (depth : Nat) : List Json → String
  | [] => ""
  | [item] => newline depth ++ layout depth item
  | item :: rest => newline depth ++ layout depth item ++ "," ++ layoutItems depth rest

def layoutMembers (depth : Nat) : List (String × Json) → String
  | [] => ""
  | [(key, value)] => newline depth ++ renderText key ++ ": " ++ layout depth value
  | (key, value) :: rest =>
    newline depth ++ renderText key ++ ": " ++ layout depth value ++ "," ++
      layoutMembers depth rest

end

end QuantumBoard.Json
