import QuantumBoard.Json.Token

/-! Reading JSON text. The tokens drive a machine whose stack holds the arrays and
objects that are still open, the innermost first; one token is one step, so reading
follows the token list. At most 127 arrays and objects may be open at a time. -/

namespace QuantumBoard.Json

/-- An open array or object: what it holds so far (an array in reverse), and the key of
the member whose value is being read. -/
inductive Frame where
  | array (items : List Json)
  | object (members : List (String × Json))
  | keyed (members : List (String × Json)) (key : String)

/-- What may come next. -/
inductive Expecting where
  | value
  | valueOrClose
  | keyOrClose
  | key
  | colon
  | commaOrClose
  | finish (result : Json)

structure Machine where
  stack : List Frame
  expecting : Expecting

namespace Machine

def start : Machine := ⟨[], .value⟩

/-- Puts a complete value in its place. -/
def deliver (value : Json) : List Frame → Machine
  | .array items :: outer => ⟨.array (value :: items) :: outer, .commaOrClose⟩
  | .keyed members key :: outer =>
    ⟨.object (insertMember key value members) :: outer, .commaOrClose⟩
  | stack => ⟨stack, .finish value⟩

/-- Opens an array or object, unless too many are open. -/
def openFrame (frame : Frame) (expecting : Expecting) (stack : List Frame) : Option Machine :=
  if stack.length < 127 then some ⟨frame :: stack, expecting⟩ else none

/-- A token where a value may start. -/
def startValue (stack : List Frame) : Token → Option Machine
  | .literal value => some (deliver value stack)
  | .text value => some (deliver (.text value) stack)
  | .openArray => openFrame (.array []) .valueOrClose stack
  | .openObject => openFrame (.object []) .keyOrClose stack
  | _ => none

/-- Closes the innermost array or object. -/
def close : Token → List Frame → Option Machine
  | .closeArray, .array items :: outer => some (deliver (.array items.reverse) outer)
  | .closeObject, .object members :: outer => some (deliver (.object members) outer)
  | _, _ => none

def step (m : Machine) (token : Token) : Option Machine :=
  match m.expecting, token, m.stack with
  | .value, token, stack => startValue stack token
  | .valueOrClose, .closeArray, stack => close .closeArray stack
  | .valueOrClose, token, stack => startValue stack token
  | .keyOrClose, .closeObject, stack => close .closeObject stack
  | .keyOrClose, .text key, .object members :: outer =>
    some ⟨.keyed members key :: outer, .colon⟩
  | .key, .text key, .object members :: outer => some ⟨.keyed members key :: outer, .colon⟩
  | .colon, .colon, stack => some ⟨stack, .value⟩
  | .commaOrClose, .comma, .array items :: outer => some ⟨.array items :: outer, .value⟩
  | .commaOrClose, .comma, .object members :: outer => some ⟨.object members :: outer, .key⟩
  | .commaOrClose, token, stack => close token stack
  | _, _, _ => none

def run (m : Machine) : List Token → Option Machine
  | [] => some m
  | token :: rest => (m.step token).bind fun m => m.run rest

/-- The value that has been read, once nothing is open. -/
def result? (m : Machine) : Option Json :=
  match m.expecting with
  | .finish value => some value
  | _ => none

end Machine

/-- The value that a text denotes, if it is JSON. -/
def parse? (text : String) : Option Json := do
  let ts ← tokens text.toList
  let final ← Machine.start.run ts
  final.result?

end QuantumBoard.Json
