import QuantumBoard.Board.Document
import QuantumBoard.Json.Reader
import QuantumBoard.Text.Basic

/-! Links to a board: an address of the board, and the document in the fragment. -/

namespace QuantumBoard.Board

def address : String := "https://algassert.com/quirk"

/-- The addresses of the board. -/
def addresses : List String :=
  [address, "https://www.algassert.com/quirk", "http://algassert.com/quirk",
    "http://www.algassert.com/quirk"]

/-- The rest of a text behind a text that it starts with. -/
def behind? (start : String) (cs : List Char) : Option (List Char) :=
  start.toList.isPrefixOf? cs

/-- The document of a link; none for a link to an empty board. -/
def payload? (link : String) : Except LinkError (Option (List Char)) :=
  match addresses.findSome? (behind? · link.toList) with
  | none => .error (.address address link)
  | some [] | some ['#'] => .ok none
  | some ('#' :: fragment) =>
    match behind? "circuit=" fragment with
    | some payload => .ok (some payload)
    | none => .error .fragment
  | some rest => .error (.afterAddress (String.ofList rest))

/-- The document that a payload holds. -/
def document (payload : List Char) : Except BoardError Json :=
  match Text.decodeUtf8 (Text.percentDecode payload) with
  | .error e => .error (.link (.notUtf8 e.message))
  | .ok text =>
    match Json.parse? text with
    | none => .error .notJson
    | some document => .ok document

/-- The circuit of the document in a link. -/
def compileLink (link : String) : Except BoardError Circuit :=
  match payload? link with
  | .error e => .error (.link e)
  | .ok none => .ok ⟨"", #[]⟩
  | .ok (some payload) => do compile (← document payload)

end QuantumBoard.Board
