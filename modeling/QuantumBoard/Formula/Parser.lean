import QuantumBoard.Formula.Expr
import QuantumBoard.Formula.Token

/-! Reading the tokens of a formula by precedence. Sums bind least, then products, then
a sign or a root in front, and powers most; powers group to the right, all else to the
left, and nothing is multiplied by standing side by side. -/

namespace QuantumBoard.Formula

inductive SyntaxError where
  | badCharacter (bad : BadCharacter)
  | unexpected (token : Token)
  | unexpectedEnd
  | unclosed (found : Option Token)
  | unknownFunction (name : String)

def SyntaxError.message : SyntaxError → String
  | badCharacter ⟨char, position⟩ =>
    "invalid token '" ++ String.ofList char ++ "' at position " ++ toString position
  | unexpected token => "unexpected '" ++ token.listing ++ "'"
  | unexpectedEnd => "unexpected end of formula"
  | unclosed (some token) => "expected ')', found '" ++ token.listing ++ "'"
  | unclosed none => "expected ')', found end of formula"
  | unknownFunction name => "unknown function '" ++ name ++ "'"

def precedence : BinaryOp → Nat
  | .add | .sub => 1
  | .mul | .div => 2
  | .pow => 4

/-- The precedence of a sign or root in front: above products, below powers. -/
def unaryPrecedence : Nat := 3

/-- The least precedence in the operand on the right of an operator. -/
def rightMinimum : BinaryOp → Nat
  | .pow => precedence .pow
  | op => precedence op + 1

def operator? : Token → Option BinaryOp
  | .plus => some .add
  | .minus => some .sub
  | .star => some .mul
  | .slash => some .div
  | .caret | .power => some .pow
  | _ => none

/-- What a name means that is not followed by a bracket. -/
def named : String → Expr
  | "pi" => .pi
  | "e" => .euler
  | "tau" => .constant 6.283185307179586
  | name => .symbol name

/-- The tokens after a closing bracket. -/
def close : (ts : List Token) →
    Except SyntaxError { rest : List Token // rest.length < ts.length }
  | .closeParen :: rest => .ok ⟨rest, Nat.lt_succ_self _⟩
  | ts => .error (.unclosed ts.head?)

/-- An expression read from the front of a list of tokens, and the tokens after it. -/
abbrev Parsed (ts : List Token) :=
  Except SyntaxError (Expr × { rest : List Token // rest.length < ts.length })

mutual

/-- An expression whose operators outside brackets have at least the given precedence. -/
def parseFrom (minimum : Nat) (ts : List Token) : Parsed ts := do
  let (left, ⟨rest, h⟩) ← parseOperand ts
  let (e, ⟨rest, h'⟩) ← parseOperators minimum left rest
  return (e, ⟨rest, Nat.lt_of_le_of_lt h' h⟩)
termination_by (ts.length, 1)

/-- The operators and operands that continue an expression. -/
def parseOperators (minimum : Nat) (left : Expr) (ts : List Token) :
    Except SyntaxError (Expr × { rest : List Token // rest.length ≤ ts.length }) :=
  match ts with
  | [] => .ok (left, ⟨[], Nat.le_refl _⟩)
  | token :: rest =>
    match operator? token with
    | none => .ok (left, ⟨token :: rest, Nat.le_refl _⟩)
    | some op =>
      if precedence op < minimum then .ok (left, ⟨token :: rest, Nat.le_refl _⟩)
      else do
        let (right, ⟨rest', h⟩) ← parseFrom (rightMinimum op) rest
        let (e, ⟨rest'', h'⟩) ← parseOperators minimum (.binary op left right) rest'
        return (e, ⟨rest'', by simp only [List.length_cons]; omega⟩)
termination_by (ts.length, 0)

/-- One operand: signs and roots in front of a number, a name, a call or a bracket. -/
def parseOperand (ts : List Token) : Parsed ts :=
  match ts with
  | [] => .error .unexpectedEnd
  | .minus :: rest => do
    let (e, ⟨rest', h⟩) ← parseFrom unaryPrecedence rest
    return (.neg e, ⟨rest', Nat.lt_succ_of_lt h⟩)
  | .plus :: rest => do
    let (e, ⟨rest', h⟩) ← parseFrom unaryPrecedence rest
    return (e, ⟨rest', Nat.lt_succ_of_lt h⟩)
  | .root :: rest => do
    let (e, ⟨rest', h⟩) ← parseFrom unaryPrecedence rest
    return (.call .sqrt e, ⟨rest', Nat.lt_succ_of_lt h⟩)
  | .number v :: rest => .ok (.constant v, ⟨rest, Nat.lt_succ_self _⟩)
  | .pi :: rest => .ok (.pi, ⟨rest, Nat.lt_succ_self _⟩)
  | .name name :: .openParen :: rest =>
    match Elementary.ofName? name with
    | none => .error (.unknownFunction name)
    | some f => do
      let (e, ⟨rest', h⟩) ← parseFrom 0 rest
      let ⟨rest'', h'⟩ ← close rest'
      return (.call f e, ⟨rest'', by simp only [List.length_cons]; omega⟩)
  | .name name :: rest => .ok (named name, ⟨rest, Nat.lt_succ_self _⟩)
  | .openParen :: rest => do
    let (e, ⟨rest', h⟩) ← parseFrom 0 rest
    let ⟨rest'', h'⟩ ← close rest'
    return (e, ⟨rest'', by simp only [List.length_cons]; omega⟩)
  | token :: _ => .error (.unexpected token)
termination_by (ts.length, 0)

end

/-- The expression that a whole list of tokens spells. -/
def parseTokens (ts : List Token) : Except SyntaxError Expr := do
  let (e, ⟨rest, _⟩) ← parseFrom 0 ts
  match rest with
  | [] => return e
  | token :: _ => throw (.unexpected token)

/-- The expression that a text spells. -/
def parse (text : List Char) : Except SyntaxError Expr := do
  parseTokens (← (tokens text).mapError .badCharacter)

end QuantumBoard.Formula
