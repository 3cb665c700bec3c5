/-! JSON values. A number is an integer when it is written as one that fits 64 bits,
with or without a sign; every other number is a double. -/

namespace QuantumBoard

inductive Json where
  | null
  | bool (value : Bool)
  | integer (value : Int)
  | real (value : Float)
  | text (value : String)
  | array (items : List Json)
  | object (members : List (String × Json))

namespace Json

instance : Inhabited Json := ⟨null⟩

/-- The member of an object with the given key. -/
def member? (key : String) : Json → Option Json
  | object members => members.lookup key
  | _ => none

/-- Adds a member at its place in key order; a key that is present takes the new value. -/
def insertMember (key : String) (value : Json) : List (String × Json) → List (String × Json)
  | [] => [(key, value)]
  | (k, v) :: rest =>
    if key = k then (key, value) :: rest
    else if key < k then (key, value) :: (k, v) :: rest
    else (k, v) :: insertMember key value rest

/-- The double that a number denotes. -/
def number? : Json → Option Float
  | integer n => some (if n < 0 then -(n.natAbs.toUInt64.toFloat) else n.natAbs.toUInt64.toFloat)
  | real x => some x
  | _ => none

/-- A double as a number; infinity and the undefined number are written as null. -/
def ofFloat (x : Float) : Json := if x.isFinite then real x else null

end Json

end QuantumBoard
