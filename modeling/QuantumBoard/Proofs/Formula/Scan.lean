import QuantumBoard.Formula.Expr
import QuantumBoard.Formula.Fraction
import QuantumBoard.Formula.Token
import QuantumBoard.Proofs.Decimal.Plain

/-! # Scanning piece by piece

A text that is put together from numerals, names and signs gives the tokens of its pieces, when
behind each numeral and each name stands a character that does not go on with it. -/

namespace QuantumBoard.Formula

open Decimal (Positional unsigned? ofParts)

/-- A numeral or a name in front of the text ends there. -/
def EndsToken (rest : List Char) : Prop := ∀ c ∈ rest.head?, isNamePart c = false ∧ c ≠ '.'

/-- In front of the rest, the text gives the tokens. -/
def Scans (cs : List Char) (ts : List Token) (rest : List Char) : Prop :=
  scan (cs ++ rest) = (ts ++ ·) <$> scan rest

theorem endsToken_nil : EndsToken [] := nofun

theorem endsToken_cons {c : Char} (part : isNamePart c = false) (point : c ≠ '.')
    (rest : List Char) : EndsToken (c :: rest) := by
  intro d hd
  obtain rfl := Option.some.inj hd
  exact ⟨part, point⟩

theorem Scans.append {cs ds rest : List Char} {ts us : List Token}
    (first : Scans cs ts (ds ++ rest)) (second : Scans ds us rest) :
    Scans (cs ++ ds) (ts ++ us) rest := by
  rw [Scans, List.append_assoc, first, second, ← LawfulFunctor.comp_map]
  congr 1
  funext vs
  exact (List.append_assoc ts us vs).symm

theorem scan_of_scans {cs : List Char} {ts : List Token} (h : Scans cs ts []) :
    scan cs = .ok ts := by
  rw [Scans, List.append_nil, scan] at h
  rw [h]
  exact congrArg Except.ok (List.append_nil ts)

/-! ## Signs and blanks -/

theorem not_isBlank_of {p : Char → Bool} (none : [' ', '\t', '\r', '\n'].any p = false)
    {c : Char} (h : p c = true) : isBlank c = false := by
  rw [← Bool.not_eq_true]
  intro blank
  simp only [isBlank, Bool.or_eq_true, beq_iff_eq] at blank
  have mem : c ∈ [' ', '\t', '\r', '\n'] := by
    rcases blank with ((rfl | rfl) | rfl) | rfl <;> simp
  rw [List.any_eq_true.mpr ⟨c, mem, h⟩] at none
  cases none

theorem scans_blank {c : Char} (blank : isBlank c = true) (rest : List Char) :
    Scans [c] [] rest := by
  rw [Scans, List.singleton_append, scan, if_pos blank]
  exact (id_map _).symm

theorem scans_of_scanToken {c : Char} (cs : List Char) {rest : List Char} {token : Token}
    (blank : isBlank c = false)
    (first : ∃ bound, scanToken c (cs ++ rest) = some (token, ⟨rest, bound⟩)) :
    Scans (c :: cs) [token] rest := by
  obtain ⟨bound, first⟩ := first
  rw [Scans, List.cons_append, scan, blank, if_neg Bool.false_ne_true, first]
  rfl

theorem scans_minus (rest : List Char) : Scans ['-'] [.minus] rest :=
  scans_of_scanToken [] rfl ⟨Nat.le_refl _, rfl⟩

theorem scans_openParen (rest : List Char) : Scans ['('] [.openParen] rest :=
  scans_of_scanToken [] rfl ⟨Nat.le_refl _, rfl⟩

theorem scans_closeParen (rest : List Char) : Scans [')'] [.closeParen] rest :=
  scans_of_scanToken [] rfl ⟨Nat.le_refl _, rfl⟩

/-- The token of an operator. -/
def operatorToken : BinaryOp → Token
  | .add => .plus
  | .sub => .minus
  | .mul => .star
  | .div => .slash
  | .pow => .caret

/-- An operator between blanks. -/
theorem scans_operator (op : BinaryOp) (rest : List Char) :
    Scans ([' '] ++ op.sign.toList ++ [' ']) [operatorToken op] rest := by
  have sign : Scans op.sign.toList [operatorToken op] ([' '] ++ rest) := by
    cases op <;> exact scans_of_scanToken [] rfl ⟨Nat.le_refl _, rfl⟩
  exact ((scans_blank rfl _).append sign).append (scans_blank rfl rest)

/-! ## Runs of characters -/

section

variable {p : Char → Bool} {cs rest : List Char} (run : ∀ c ∈ cs, p c = true)
  (stop : ∀ c ∈ rest.head?, p c = false)

include run stop

theorem takeWhile_run : (cs ++ rest).takeWhile p = cs := by
  rw [List.takeWhile_append_of_pos run]
  cases rest with
  | nil => simp
  | cons c rest => simp [stop c rfl]

theorem dropWhile_run : (cs ++ rest).dropWhile p = rest := by
  rw [List.dropWhile_append_of_pos run]
  cases rest with
  | nil => rfl
  | cons c rest => simp [stop c rfl]

end

/-! ## Names -/

/-- A letter or a bar, and then parts of names. -/
def isName (name : String) : Bool :=
  match name.toList with
  | [] => false
  | c :: cs => isNameStart c && cs.all isNamePart

theorem not_isDigit_of_isNameStart {c : Char} (start : isNameStart c = true) :
    c.isDigit = false := by
  rw [← Bool.not_eq_true]
  intro digit
  simp only [isNameStart, Char.isAlpha, Char.isUpper, Char.isLower, Bool.or_eq_true,
    Bool.and_eq_true, decide_eq_true_eq, beq_iff_eq] at start
  simp only [Char.isDigit, Bool.and_eq_true, decide_eq_true_eq] at digit
  rcases start with (upper | lower) | rfl
  · exact absurd (UInt32.le_trans upper.1 digit.2) (by decide)
  · exact absurd (UInt32.le_trans lower.1 digit.2) (by decide)
  · exact absurd digit.2 (by decide)

theorem scans_name {name : String} (h : isName name = true) {rest : List Char}
    (ends : EndsToken rest) : Scans name.toList [.name name] rest := by
  obtain ⟨cs, rfl⟩ : ∃ cs, name = String.ofList cs := ⟨name.toList, String.ofList_toList.symm⟩
  rw [isName, String.toList_ofList] at h
  rw [String.toList_ofList]
  cases cs with
  | nil => cases h
  | cons c cs =>
    simp only [Bool.and_eq_true, List.all_eq_true] at h
    obtain ⟨start, parts⟩ := h
    have stop : ∀ c ∈ rest.head?, isNamePart c = false := fun c hc => (ends c hc).1
    refine scans_of_scanToken cs (not_isBlank_of (by decide) start) ⟨by simp, ?_⟩
    unfold scanToken
    rw [not_isDigit_of_isNameStart start, if_neg Bool.false_ne_true, if_pos start]
    simp only [Text.splitWhile, takeWhile_run parts stop, dropWhile_run parts stop]

/-! ## Numerals -/

theorem EndsToken.not_isDigit {rest : List Char} (ends : EndsToken rest) :
    ∀ c ∈ rest.head?, c.isDigit = false := by
  intro c hc
  have part := (ends c hc).1
  simp only [isNamePart, Char.isAlphanum, Bool.or_eq_false_iff] at part
  exact part.1.2

theorem splitFraction_of_ends {rest : List Char} (ends : EndsToken rest) :
    splitFraction rest = ([], .whole rest) := by
  unfold splitFraction
  split
  · exact absurd rfl (ends '.' rfl).2
  · rfl

theorem splitFraction_point (rest : List Char) :
    (splitFraction ('.' :: rest)).1 = rest.takeWhile Char.isDigit ∧
      (splitFraction ('.' :: rest)).2.1 = rest.dropWhile Char.isDigit := ⟨rfl, rfl⟩

theorem splitExponent_of_ends {rest : List Char} (ends : EndsToken rest) :
    splitExponent rest = (0, .whole rest) := by
  unfold splitExponent
  split
  · rfl
  · rename_i c rest
    refine if_neg ?_
    rintro (rfl | rfl)
    · cases (ends 'e' rfl).1
    · cases (ends 'E' rfl).1

/-- The parts of a number, one after the other. -/
theorem scanNumber_eq (cs : List Char) :
    let fraction := splitFraction (cs.dropWhile Char.isDigit)
    let exponent := splitExponent fraction.2.1
    (scanNumber cs).1 = ofParts (cs.takeWhile Char.isDigit) fraction.1 exponent.1 ∧
      (scanNumber cs).2.1 = exponent.2.1 := ⟨rfl, rfl⟩

theorem scanNumber_of_positional {cs rest : List Char} (h : Positional cs) (ends : EndsToken rest) :
    unsigned? cs = some (scanNumber (cs ++ rest)).1 ∧ (scanNumber (cs ++ rest)).2.1 = rest := by
  obtain ⟨value, left⟩ := scanNumber_eq (cs ++ rest)
  rw [value, left, unsigned?]
  cases h with
  | whole some digits =>
    rw [takeWhile_run digits ends.not_isDigit, dropWhile_run digits ends.not_isDigit,
      List.takeWhile_eq_self_iff.mpr digits, List.dropWhile_eq_nil_iff.mpr digits,
      splitFraction_of_ends ends]
    simp [Text.Rest.whole, splitExponent_of_ends ends, Decimal.exponent?, some]
  | @point ds fs some digits fraction =>
    have stop : ∀ tail, ∀ c ∈ ('.' :: tail : List Char).head?, c.isDigit = false := by
      intro tail c hc
      obtain rfl := Option.some.inj hc
      rfl
    rw [List.append_assoc, List.cons_append, takeWhile_run digits (stop _),
      dropWhile_run digits (stop _), takeWhile_run digits (stop _), dropWhile_run digits (stop _),
      (splitFraction_point _).1, (splitFraction_point _).2, takeWhile_run fraction ends.not_isDigit,
      dropWhile_run fraction ends.not_isDigit, splitExponent_of_ends ends]
    simp [Text.Rest.whole, Decimal.exponent?, some, List.takeWhile_eq_self_iff.mpr fraction,
      List.dropWhile_eq_nil_iff.mpr fraction]

theorem scans_number {cs rest : List Char} {v : Float} (h : Positional cs)
    (spelled : unsigned? cs = some v) (ends : EndsToken rest) : Scans cs [.number v] rest := by
  obtain ⟨value, left⟩ := scanNumber_of_positional h ends
  obtain ⟨c, cs, rfl, digit⟩ := h.cons
  have shorter : rest.length ≤ (cs ++ rest).length := by simp
  refine scans_of_scanToken cs (not_isBlank_of (by decide) digit) ⟨shorter, ?_⟩
  rw [List.cons_append] at value left
  unfold scanToken
  rw [if_pos digit, numberFrom]
  simp only [left]
  rw [dif_pos shorter, Option.some.inj (spelled.symm.trans value)]

/-! ## Fraction glyphs -/

theorem replacePair_of_not_mem {a b : Char} {text cs : List Char} (none : b ∉ cs) :
    replacePair a b text cs = cs := by
  fun_induction replacePair a b text cs with
  | case1 => rfl
  | case2 => rfl
  | case3 c d rest both => exact absurd (both.2 ▸ by simp) none
  | case4 c d rest _ ih => rw [ih fun mem => none (List.mem_cons_of_mem c mem)]

theorem replaceEach_of_not_mem {a : Char} {text cs : List Char} (none : a ∉ cs) :
    replaceEach a text cs = cs := by
  unfold replaceEach
  induction cs with
  | nil => rfl
  | cons c cs ih =>
    rw [List.mem_cons, not_or] at none
    rw [List.flatMap_cons, if_neg (Ne.symm none.1), ih none.2, List.singleton_append]

def isAscii (c : Char) : Bool := c.toNat < 128

theorem Fraction.glyph_not_isAscii : ∀ f ∈ Fraction.all, isAscii f.glyph = false := by decide

theorem expandFractions_of_not_mem {cs : List Char} (glyphs : ∀ f ∈ Fraction.all, f.glyph ∉ cs) :
    expandFractions cs = cs := by
  unfold expandFractions
  generalize Fraction.all = fractions at glyphs ⊢
  induction fractions with
  | nil => rfl
  | cons f fractions ih =>
    have here : f.glyph ∉ cs := glyphs f (by simp)
    rw [List.foldl_cons, Fraction.expand, replacePair_of_not_mem here, replaceEach_of_not_mem here]
    exact ih fun g hg => glyphs g (List.mem_cons_of_mem f hg)

theorem expandFractions_of_ascii {cs : List Char} (ascii : cs.all isAscii = true) :
    expandFractions cs = cs := by
  refine expandFractions_of_not_mem fun f hf mem => ?_
  have above := Fraction.glyph_not_isAscii f hf
  rw [List.all_eq_true.mp ascii _ mem] at above
  cases above

end QuantumBoard.Formula
