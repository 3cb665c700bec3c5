import QuantumBoard.Proofs.Decimal.ReadBack
import QuantumBoard.Proofs.Formula.Lexeme

/-! # Tokens with spaces between them

No token has a blank in its text. So the longest token at the front of a token's text and a space is
that token, and tokens that are written one after the other, with a space between two of them, are
read back as they are, however their texts begin and end. -/

namespace QuantumBoard.Formula

open Decimal (Positional isNegative digitsOf withoutSign)

/-- The token is spelled by its listing: a name is spelled as names are, and a number is finite and
has no sign. -/
def Token.isPrintable : Token → Bool
  | number v => v.isFinite && !isNegative v
  | name text => isName text
  | pi | root | plus | minus | star | slash | caret | power | openParen | closeParen => true

/-- The listings of the tokens, with a space between two of them. -/
def spaced (ts : List Token) : String := " ".intercalate (ts.map Token.listing)

theorem spaced_singleton (token : Token) : spaced [token] = token.listing := by
  simp [spaced]

theorem spaced_cons_cons (token other : Token) (ts : List Token) :
    (spaced (token :: other :: ts)).toList =
      token.listing.toList ++ ' ' :: (spaced (other :: ts)).toList := by
  simp [spaced, String.intercalate_cons_cons]

/-! ## Listings -/

theorem isNumeral_of_positional {cs : List Char} (h : Positional cs) : IsNumeral cs := by
  cases h with
  | whole some digits =>
    have numeral := IsNumeral.parts digits .none (.inl some) .none
    rwa [List.append_nil, List.append_nil] at numeral
  | point some digits fraction =>
    have numeral := IsNumeral.parts digits (.point fraction) (.inl some) .none
    rwa [List.append_nil] at numeral

theorem spells_plain {v : Float} (finite : v.isFinite = true) (positive : isNegative v = false) :
    Spells (Decimal.plain v).toList (.number v) := by
  have text : (Decimal.plain v).toList = digitsOf v := by
    rw [Decimal.plain_of_finite finite, String.toList_ofList, Decimal.signOf, positive]
    rfl
  have same : withoutSign v = v := by rw [withoutSign, positive, if_neg Bool.false_ne_true]
  have value := Decimal.unsigned?_digits finite
  rw [same] at value
  rw [text]
  exact .number (isNumeral_of_positional (Decimal.positional_digitsOf v)) value

theorem spells_listing {token : Token} (printable : token.isPrintable = true) :
    Spells token.listing.toList token := by
  cases token with
  | number v =>
    obtain ⟨finite, positive⟩ : v.isFinite = true ∧ isNegative v = false := by
      simpa [Token.isPrintable] using printable
    exact spells_plain finite positive
  | name text => exact .name printable
  | pi | root | plus | minus | star | slash | caret | power | openParen | closeParen =>
    exact .sign rfl

/-! ## Spaces -/

/-- Nothing is longer than the text of a token in front of a blank. -/
theorem isLongest_of_spells {cs rest : List Char} {token : Token} (spelled : Spells cs token)
    (apart : ∀ c ∈ rest.head?, isBlank c = true) : IsLongest (cs ++ rest) token rest := by
  refine ⟨⟨cs, rfl, spelled⟩, fun front other tail split longer => ?_⟩
  rcases List.append_eq_append_iff.mp split with ⟨more, rfl, rfl⟩ | ⟨_, _, rfl⟩
  · -- A longer front would have the blank in it.
    cases more with
    | nil => exact Nat.le_refl _
    | cons c more =>
      have inked := longer.not_isBlank c (by simp)
      rw [apart c rfl] at inked
      cases inked
  · simp

theorem lexes_spaced {ts : List Token} (printable : ∀ token ∈ ts, token.isPrintable = true) :
    Lexes (spaced ts).toList ts := by
  induction ts with
  | nil => exact .nil
  | cons token ts ih =>
    have spelled : Spells token.listing.toList token :=
      spells_listing (printable token (List.mem_cons_self ..))
    have rest := ih fun other mem => printable other (List.mem_cons_of_mem _ mem)
    cases ts with
    | nil =>
      have last : IsLongest (token.listing.toList ++ []) token [] :=
        isLongest_of_spells spelled nofun
      rw [List.append_nil] at last
      rw [spaced_singleton]
      exact .token last .nil
    | cons other ts =>
      rw [spaced_cons_cons]
      exact .token (isLongest_of_spells spelled (by simp [isBlank])) (.blank rfl rest)

/-- Printable tokens are read back from their listings with spaces between them. -/
theorem tokens_spaced {ts : List Token} (printable : ∀ token ∈ ts, token.isPrintable = true) :
    tokens (spaced ts).toList = .ok ts :=
  tokens_eq_ok_iff.mpr (lexes_spaced printable)

/-- Names and numbers that would run together, and stars beside stars. -/
def closeTokens : List Token :=
  [.number 2, .name "e5", .number 0.1, .star, .star, .power, .name "_x2", .pi, .root, .number 1e21]

theorem tokens_spaced_closeTokens : tokens (spaced closeTokens).toList = .ok closeTokens :=
  tokens_spaced (List.all_eq_true.mp (by decide +kernel))

end QuantumBoard.Formula
