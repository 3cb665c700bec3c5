import QuantumBoard.Formula.Fraction
import QuantumBoard.Formula.Parser
import QuantumBoard.Json.Writer
import QuantumBoard.Text.Quoted

/-! Formulas as arguments of cells. A formula may depend on the time only, and each of
its constant parts must have a finite value; what is accepted comes out folded. -/

namespace QuantumBoard.Formula

inductive Fault where
  | badSyntax (error : SyntaxError)
  | notFinite

def Fault.message : Fault → String
  | badSyntax error => error.message
  | notFinite => "does not evaluate to a finite number"

inductive Error where
  | notText (value : Json)
  | malformed (formula : String) (fault : Fault)
  | otherVariable (formula : String)

def Error.message : Error → String
  | notText value => "Formula must be a string: " ++ value.render
  | malformed formula fault =>
    "Failed to parse the gate formula " ++ Text.quoted formula ++ ": " ++ fault.message ++
      ". Quirk accepts some forms this parser does not, " ++
      "e.g. Quirk allows \"2 pi\" whereas this parser requires \"2*pi\""
  | otherVariable formula =>
    "Formula has variables besides time \"t\": " ++ Text.quoted formula

/-- The one variable of a formula. -/
def timeName : String := "t"

/-- Whether no constant of a folded expression is infinite or undefined and no constant
divisor is zero. -/
def constantsFinite : Expr → Bool
  | .constant v => v.isFinite
  | .symbol _ | .pi | .euler => true
  | .neg e | .call _ e => constantsFinite e
  | .binary .div a b =>
    !(b.value?.any (· == 0)) && constantsFinite a && constantsFinite b
  | .binary _ a b => constantsFinite a && constantsFinite b

/-- The folded expression of a formula in the time. -/
def ofText (text : String) : Except Error Expr :=
  match parse (expandFractions text.toList) with
  | .error e => .error (.malformed text (.badSyntax e))
  | .ok e =>
    if e.symbols.any (· ≠ timeName) then .error (.otherVariable text)
    else if constantsFinite e.simplify then .ok e.simplify
    else .error (.malformed text .notFinite)

/-- The formula of a cell: its argument, or the default of the cell when it has none. -/
def ofArgument (default : String) : Option Json → Except Error Expr
  | none | some .null => ofText default
  | some (.text text) => ofText text
  | some value => .error (.notText value)

end QuantumBoard.Formula
