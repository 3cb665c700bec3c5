import QuantumBoard.Formula.Parser
import QuantumBoard.Proofs.Success

/-! What the parser reads, without the bounds on the rest that make it terminate: an expression and
the tokens after it, by one equation for each kind of first token. -/

namespace QuantumBoard.Formula

open Success

/-- An expression from the front of a list of tokens, and the tokens after it. -/
abbrev Reading := Except SyntaxError (Expr × List Token)

/-- What `parseFrom` reads. -/
def readFrom (minimum : Nat) (ts : List Token) : Reading :=
  (fun (e, rest) => (e, rest.1)) <$> parseFrom minimum ts

/-- What `parseOperators` reads. -/
def readOperators (minimum : Nat) (left : Expr) (ts : List Token) : Reading :=
  (fun (e, rest) => (e, rest.1)) <$> parseOperators minimum left ts

/-- What `parseOperand` reads. -/
def readOperand (ts : List Token) : Reading :=
  (fun (e, rest) => (e, rest.1)) <$> parseOperand ts

theorem readFrom_eq (minimum : Nat) (ts : List Token) :
    readFrom minimum ts =
      readOperand ts >>= fun (left, rest) => readOperators minimum left rest := by
  rw [readFrom, parseFrom, readOperand]
  rcases parseOperand ts with _ | ⟨left, rest, h⟩
  · rfl
  · show (_ <$> ((parseOperators minimum left rest) >>= _)) = readOperators minimum left rest
    rw [readOperators]
    rcases parseOperators minimum left rest with _ | ⟨e, rest', h'⟩ <;> rfl

theorem readOperators_nil (minimum : Nat) (left : Expr) :
    readOperators minimum left [] = .ok (left, []) := by
  rw [readOperators, parseOperators]
  rfl

theorem readOperators_cons (minimum : Nat) (left : Expr) (token : Token) (ts : List Token) :
    readOperators minimum left (token :: ts) =
      match operator? token with
      | none => .ok (left, token :: ts)
      | some op =>
        if precedence op < minimum then .ok (left, token :: ts)
        else
          readFrom (rightMinimum op) ts >>= fun (right, rest) =>
            readOperators minimum (.binary op left right) rest := by
  rw [readOperators, parseOperators]
  rcases operator? token with _ | op
  · rfl
  simp only
  split
  · rfl
  rw [readFrom]
  rcases parseFrom (rightMinimum op) ts with _ | ⟨right, rest, h⟩
  · rfl
  · show (_ <$> ((parseOperators minimum (.binary op left right) rest) >>= _)) =
      readOperators minimum (.binary op left right) rest
    rw [readOperators]
    rcases parseOperators minimum (.binary op left right) rest with _ | ⟨e, rest', h'⟩ <;> rfl

theorem readOperand_minus (ts : List Token) :
    readOperand (.minus :: ts) =
      readFrom unaryPrecedence ts >>= fun (e, rest) => .ok (.neg e, rest) := by
  rw [readOperand, parseOperand, readFrom]
  rcases parseFrom unaryPrecedence ts with _ | ⟨e, rest, h⟩ <;> rfl

theorem readOperand_plus (ts : List Token) :
    readOperand (.plus :: ts) =
      readFrom unaryPrecedence ts >>= fun (e, rest) => .ok (e, rest) := by
  rw [readOperand, parseOperand, readFrom]
  rcases parseFrom unaryPrecedence ts with _ | ⟨e, rest, h⟩ <;> rfl

theorem readOperand_root (ts : List Token) :
    readOperand (.root :: ts) =
      readFrom unaryPrecedence ts >>= fun (e, rest) => .ok (.call .sqrt e, rest) := by
  rw [readOperand, parseOperand, readFrom]
  rcases parseFrom unaryPrecedence ts with _ | ⟨e, rest, h⟩ <;> rfl

theorem close_eq_ok {ts : List Token} {rest : { rest : List Token // rest.length < ts.length }} :
    close ts = .ok rest ↔ ts = .closeParen :: rest.1 := by
  unfold close
  split
  · simp [Subtype.ext_iff, eq_comm]
  · rename_i open_
    refine ⟨nofun, fun same => ?_⟩
    exact absurd same (open_ rest.1)

/-- The tokens behind a closing bracket. -/
def readClose (ts : List Token) : Except SyntaxError (List Token) := Subtype.val <$> close ts

@[simp] theorem readClose_eq_ok {ts rest : List Token} :
    readClose ts = .ok rest ↔ ts = .closeParen :: rest := by
  rw [readClose, map_eq_ok]
  constructor
  · rintro ⟨after, closed, rfl⟩
    exact close_eq_ok.mp closed
  · rintro rfl
    exact ⟨⟨rest, Nat.lt_succ_self _⟩, rfl, rfl⟩

theorem readOperand_openParen (ts : List Token) :
    readOperand (.openParen :: ts) =
      readFrom 0 ts >>= fun (e, rest) => readClose rest >>= fun after => .ok (e, after) := by
  rw [readOperand, parseOperand, readFrom]
  rcases parseFrom 0 ts with _ | ⟨e, rest, h⟩
  · rfl
  · show (_ <$> (close rest >>= _)) = readClose rest >>= _
    rw [readClose]
    rcases close rest with _ | after <;> rfl

theorem readOperand_call (name : String) (ts : List Token) :
    readOperand (.name name :: .openParen :: ts) =
      match Elementary.ofName? name with
      | none => .error (.unknownFunction name)
      | some f =>
        readFrom 0 ts >>= fun (e, rest) =>
          readClose rest >>= fun after => .ok (.call f e, after) := by
  rw [readOperand, parseOperand, readFrom]
  rcases Elementary.ofName? name with _ | f
  · rfl
  rcases parseFrom 0 ts with _ | ⟨e, rest, h⟩
  · rfl
  · show (_ <$> (close rest >>= _)) = readClose rest >>= _
    rw [readClose]
    rcases close rest with _ | after <;> rfl

theorem readOperand_name {name : String} {ts : List Token} (bare : ts.head? ≠ some .openParen) :
    readOperand (.name name :: ts) = .ok (named name, ts) := by
  rw [readOperand, parseOperand]
  · rfl
  · rintro rest rfl
    exact bare rfl

theorem readOperand_number (v : Float) (ts : List Token) :
    readOperand (.number v :: ts) = .ok (.constant v, ts) := by
  rw [readOperand, parseOperand]
  rfl

theorem readOperand_pi (ts : List Token) : readOperand (.pi :: ts) = .ok (.pi, ts) := by
  rw [readOperand, parseOperand]
  rfl

theorem readOperand_nil : readOperand [] = .error .unexpectedEnd := by
  rw [readOperand, parseOperand]
  rfl

/-- The tokens that begin no operand. -/
theorem readOperand_unexpected {token : Token} (h : token ∈ [.star, .slash, .caret, .power,
    .closeParen]) (ts : List Token) : readOperand (token :: ts) = .error (.unexpected token) := by
  rw [readOperand, parseOperand]
  · rfl
  all_goals
    intros
    subst token
    simp at h

end QuantumBoard.Formula
