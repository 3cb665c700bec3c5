import QuantumBoard.Proofs.Formula.Scan
import QuantumBoard.Proofs.Success

/-! # The texts of tokens

Which texts spell a token is said here without the scanner: a number is spelled by digits with at
most a point and an exponent, a name by what names are made of, and each sign by its own text. At
every place the scanner takes the longest front of the text that spells a token, and it finds no
token only where no front spells one. -/

namespace QuantumBoard.Formula

open Decimal (unsigned? exponent? ofParts)

/-! ## Numerals -/

/-- The texts of a sign in front of digits. -/
abbrev signs : List (List Char) := [[], ['+'], ['-']]

/-- Nothing, or a mark, perhaps a sign, and digits. -/
inductive IsExponent : List Char → Prop
  | none : IsExponent []
  | digits {mark : Char} {sign ds : List Char} : mark ∈ ['e', 'E'] → sign ∈ signs →
      ds ≠ [] → (∀ c ∈ ds, c.isDigit = true) → IsExponent (mark :: (sign ++ ds))

/-- Nothing, or a point with digits behind it; the digits stand second. -/
inductive IsFraction : List Char → List Char → Prop
  | none : IsFraction [] []
  | point {ds : List Char} : (∀ c ∈ ds, c.isDigit = true) → IsFraction ('.' :: ds) ds

/-- Digits, a fraction and an exponent, with a digit in front of the exponent. -/
inductive IsNumeral : List Char → Prop
  | parts {whole fraction ds exponent : List Char} : (∀ c ∈ whole, c.isDigit = true) →
      IsFraction fraction ds → (whole ≠ [] ∨ ds ≠ []) → IsExponent exponent →
      IsNumeral (whole ++ (fraction ++ exponent))

section

variable {ds : List Char} (starts : ∀ c ∈ ds.head?, c.isDigit = true)

include starts

theorem splitSign_digits : splitSign ds = (false, .whole ds) := by
  unfold splitSign
  split
  · exact absurd (starts '-' rfl) (by decide)
  · exact absurd (starts '+' rfl) (by decide)
  · rfl

theorem decimal_splitSign_digits : Decimal.splitSign ds = (false, ds) := by
  unfold Decimal.splitSign
  split
  · exact absurd (starts '-' rfl) (by decide)
  · exact absurd (starts '+' rfl) (by decide)
  · rfl

/-- What stands first in digits is no sign. -/
theorem splitSign_signs {sign : List Char} (mem : sign ∈ signs) :
    Decimal.splitSign (sign ++ ds) = (sign == ['-'], ds) ∧
      (splitSign (sign ++ ds)).1 = (sign == ['-']) ∧ (splitSign (sign ++ ds)).2.1 = ds := by
  simp only [List.mem_cons, List.not_mem_nil, or_false] at mem
  rcases mem with rfl | rfl | rfl
  · rw [List.nil_append, splitSign_digits starts, decimal_splitSign_digits starts]
    exact ⟨rfl, rfl, rfl⟩
  · exact ⟨rfl, rfl, rfl⟩
  · exact ⟨rfl, rfl, rfl⟩

end

theorem splitSign_eq (cs : List Char) :
    ∃ sign ∈ signs, cs = sign ++ (splitSign cs).2.1 ∧ (splitSign cs).1 = (sign == ['-']) := by
  unfold splitSign
  split
  · exact ⟨['-'], by simp, rfl, rfl⟩
  · exact ⟨['+'], by simp, rfl, rfl⟩
  · exact ⟨[], by simp, rfl, rfl⟩

/-- Behind its mark an exponent is a sign and the digits that follow it. -/
theorem splitExponent_mark {mark : Char} (mem : mark ∈ ['e', 'E']) (rest : List Char) :
    let after := (splitSign rest).2.1
    let ds := after.takeWhile Char.isDigit
    (splitExponent (mark :: rest)).1 =
        (if (splitSign rest).1 = true then -(Decimal.ofDigits ds : Int) else Decimal.ofDigits ds) ∧
      (splitExponent (mark :: rest)).2.1 =
        if ds = [] then mark :: rest else after.dropWhile Char.isDigit := by
  have marked : mark = 'e' ∨ mark = 'E' := by simpa using mem
  rw [splitExponent, if_pos marked]
  cases digits : (splitSign rest).2.1.takeWhile Char.isDigit with
  | nil => simp [Text.splitWhile, digits, Text.Rest.whole, Decimal.ofDigits]
  | cons d ds => simp [Text.splitWhile, digits, Text.Rest.behind, Text.Rest.after]

theorem splitExponent_unmarked {c : Char} (other : c ∉ ['e', 'E']) (rest : List Char) :
    splitExponent (c :: rest) = (0, .whole (c :: rest)) := by
  rw [splitExponent]
  exact if_neg (by simpa using other)

theorem IsExponent.head?_mem {exponent : List Char} (h : IsExponent exponent) :
    ∀ c ∈ exponent.head?, c ∈ ['e', 'E'] := by
  cases h with
  | none => nofun
  | digits mark =>
    intro c hc
    obtain rfl := Option.some.inj hc
    exact mark

theorem exponent?_digits {mark : Char} {sign ds : List Char} (marked : mark ∈ ['e', 'E'])
    (signed : sign ∈ signs) (some : ds ≠ []) (digits : ∀ c ∈ ds, c.isDigit = true) :
    exponent? (mark :: (sign ++ ds)) =
      .some (if sign == ['-'] then -(Decimal.ofDigits ds : Int) else Decimal.ofDigits ds) := by
  have marked : mark = 'e' ∨ mark = 'E' := by simpa using marked
  have starts : ∀ c ∈ ds.head?, c.isDigit = true := fun c hc => digits c (List.mem_of_mem_head? hc)
  have all : ds ≠ [] ∧ ds.all Char.isDigit = true := ⟨some, List.all_eq_true.mpr digits⟩
  rw [exponent?, if_pos marked, (splitSign_signs starts signed).1]
  exact if_pos all

/-- The front of a text that is taken as its exponent. -/
theorem splitExponent_spelled (cs : List Char) :
    ∃ exponent, cs = exponent ++ (splitExponent cs).2.1 ∧ IsExponent exponent ∧
      exponent? exponent = some (splitExponent cs).1 := by
  cases cs with
  | nil => exact ⟨[], rfl, .none, rfl⟩
  | cons c rest =>
    by_cases marked : c ∈ ['e', 'E']
    · obtain ⟨sign, signed, split, negative⟩ := splitSign_eq rest
      obtain ⟨value, left⟩ := splitExponent_mark marked rest
      rw [value, left, negative]
      split
      · rename_i none
        exact ⟨[], rfl, .none, by simp [none, exponent?, Decimal.ofDigits]⟩
      · rename_i some
        have digits : ∀ c ∈ (splitSign rest).2.1.takeWhile Char.isDigit, c.isDigit = true :=
          fun _ => List.mem_takeWhile_imp
        refine ⟨c :: (sign ++ (splitSign rest).2.1.takeWhile Char.isDigit), ?_,
          .digits marked signed some digits, exponent?_digits marked signed some digits⟩
        rw [List.cons_append, List.append_assoc, List.takeWhile_append_dropWhile, ← split]
    · rw [splitExponent_unmarked marked]
      exact ⟨[], rfl, .none, rfl⟩

/-- No exponent at the front of a text is longer than the one that is taken. -/
theorem splitExponent_longest {exponent : List Char} (h : IsExponent exponent) (rest : List Char) :
    (splitExponent (exponent ++ rest)).2.1.length ≤ rest.length := by
  cases h with
  | none => exact (splitExponent rest).2.2
  | @digits mark sign ds marked signed some digits =>
    obtain ⟨d, ds, rfl⟩ := List.exists_cons_of_ne_nil some
    have digit : d.isDigit = true := digits d (by simp)
    have starts : ∀ c ∈ (d :: ds ++ rest).head?, c.isDigit = true := by simp [digit]
    obtain ⟨-, left⟩ := splitExponent_mark marked (sign ++ (d :: ds ++ rest))
    have after := (splitSign_signs starts signed).2.2
    simp only [after] at left
    rw [List.cons_append, List.append_assoc, left, if_neg (by simp [digit]),
      List.dropWhile_append_of_pos digits]
    exact (List.dropWhile_suffix _).length_le

/-! ### Fractions -/

theorem splitFraction_pointless {cs : List Char} (pointless : cs.head? ≠ some '.') :
    splitFraction cs = ([], .whole cs) := by
  unfold splitFraction
  split
  · exact absurd rfl pointless
  · rfl

/-- The front of a text that is taken as its fraction. -/
theorem splitFraction_spelled (cs : List Char) :
    ∃ fraction, cs = fraction ++ (splitFraction cs).2.1 ∧
      IsFraction fraction (splitFraction cs).1 := by
  by_cases point : cs.head? = some '.'
  · obtain ⟨rest, rfl⟩ := List.head?_eq_some_iff.mp point
    obtain ⟨digits, left⟩ := splitFraction_point rest
    rw [digits, left]
    refine ⟨'.' :: rest.takeWhile Char.isDigit, ?_, .point fun _ => List.mem_takeWhile_imp⟩
    rw [List.cons_append, List.takeWhile_append_dropWhile]
  · rw [splitFraction_pointless point]
    exact ⟨[], rfl, .none⟩

/-! ### Whole numerals -/

/-- The value of a numeral, from its parts. -/
theorem unsigned?_parts {whole fraction ds exponent : List Char}
    (digits : ∀ c ∈ whole, c.isDigit = true) (fractional : IsFraction fraction ds)
    (some : whole ≠ [] ∨ ds ≠ []) (scaled : IsExponent exponent) :
    unsigned? (whole ++ (fraction ++ exponent)) = (exponent? exponent).map (ofParts whole ds) := by
  have stop : ∀ c ∈ exponent.head?, c.isDigit = false := by
    intro c hc
    have mark : c = 'e' ∨ c = 'E' := by simpa using scaled.head?_mem c hc
    rcases mark with rfl | rfl <;> rfl
  cases fractional with
  | none =>
    have some : whole ≠ [] := by simpa using some
    rw [unsigned?, List.nil_append, takeWhile_run digits stop, dropWhile_run digits stop]
    cases exponent with
    | nil => simp [some]
    | cons mark rest =>
      have other : mark ≠ '.' := by
        rintro rfl
        exact absurd (scaled.head?_mem '.' rfl) (by decide)
      simp [other, some]
  | point fs =>
    have nonempty : ¬ (whole = [] ∧ ds = []) := by
      rintro ⟨rfl, rfl⟩
      simp at some
    have point : ∀ c ∈ ('.' :: (ds ++ exponent) : List Char).head?, c.isDigit = false := by
      intro c hc
      obtain rfl := Option.some.inj hc
      rfl
    rw [unsigned?, List.cons_append, takeWhile_run digits point, dropWhile_run digits point]
    simp only [takeWhile_run fs stop, dropWhile_run fs stop, if_neg nonempty]

theorem scanNumber_spelled {cs : List Char}
    (starts : cs.takeWhile Char.isDigit ≠ [] ∨ (splitFraction (cs.dropWhile Char.isDigit)).1 ≠ []) :
    ∃ numeral, cs = numeral ++ (scanNumber cs).2.1 ∧ IsNumeral numeral ∧
      unsigned? numeral = some (scanNumber cs).1 := by
  obtain ⟨value, left⟩ := scanNumber_eq cs
  have digits : ∀ c ∈ cs.takeWhile Char.isDigit, c.isDigit = true := fun _ => List.mem_takeWhile_imp
  obtain ⟨fraction, split, fractional⟩ := splitFraction_spelled (cs.dropWhile Char.isDigit)
  obtain ⟨exponent, split', scaled, power⟩ :=
    splitExponent_spelled (splitFraction (cs.dropWhile Char.isDigit)).2.1
  refine ⟨cs.takeWhile Char.isDigit ++ (fraction ++ exponent), ?_,
    .parts digits fractional starts scaled, ?_⟩
  · rw [left, List.append_assoc, List.append_assoc, ← split', ← split,
      List.takeWhile_append_dropWhile]
  · rw [value, unsigned?_parts digits fractional starts scaled, power]
    rfl

/-- An exponent is left whole by what takes digits or a fraction. -/
theorem exponent_kept {exponent : List Char} (h : IsExponent exponent) (some : exponent ≠ [])
    (rest : List Char) :
    (exponent ++ rest).dropWhile Char.isDigit = exponent ++ rest ∧
      splitFraction (exponent ++ rest) = ([], .whole (exponent ++ rest)) := by
  obtain ⟨mark, tail, rfl⟩ := List.exists_cons_of_ne_nil some
  have marked : mark = 'e' ∨ mark = 'E' := by simpa using h.head?_mem mark rfl
  constructor
  · rcases marked with rfl | rfl <;> rfl
  · refine splitFraction_pointless fun point => ?_
    rcases marked with rfl | rfl <;> cases point

/-- No numeral at the front of a text is longer than the one that is taken. -/
theorem scanNumber_longest {numeral : List Char} (h : IsNumeral numeral) (rest : List Char) :
    (scanNumber (numeral ++ rest)).2.1.length ≤ rest.length := by
  obtain ⟨-, left⟩ := scanNumber_eq (numeral ++ rest)
  obtain @⟨whole, fraction, fs, exponent, digits, fractional, -, scaled⟩ := h
  rw [left, List.append_assoc, List.append_assoc, List.dropWhile_append_of_pos digits]
  have dropped : (rest.dropWhile Char.isDigit).length ≤ rest.length :=
    (List.dropWhile_suffix _).length_le
  cases fractional with
  | none =>
    rw [List.nil_append]
    by_cases none : exponent = []
    · subst none
      exact (splitExponent _).2.2.trans ((splitFraction _).2.2.trans dropped)
    · obtain ⟨kept, pointless⟩ := exponent_kept scaled none rest
      rw [kept, pointless]
      exact splitExponent_longest scaled rest
  | point fractional =>
    have behind : (splitFraction (('.' :: fs ++ (exponent ++ rest)).dropWhile Char.isDigit)).2.1 =
        (exponent ++ rest).dropWhile Char.isDigit := List.dropWhile_append_of_pos fractional
    rw [behind]
    by_cases none : exponent = []
    · subst none
      exact (splitExponent _).2.2.trans dropped
    · rw [(exponent_kept scaled none rest).1]
      exact splitExponent_longest scaled rest

/-! ## Tokens -/

/-- The token has one text only. -/
def Token.isSign : Token → Bool
  | number _ | name _ => false
  | pi | root | plus | minus | star | slash | caret | power | openParen | closeParen => true

/-- The texts of tokens. -/
inductive Spells : List Char → Token → Prop
  | number {numeral : List Char} {v : Float} : IsNumeral numeral → unsigned? numeral = some v →
      Spells numeral (.number v)
  | name {name : String} : isName name = true → Spells name.toList (.name name)
  | sign {token : Token} : token.isSign = true → Spells token.listing.toList token

theorem Spells.of_sign {cs : List Char} {token : Token} (sign : token.isSign = true)
    (text : token.listing.toList = cs) : Spells cs token := text ▸ .sign sign

/-- A numeral starts with a digit, or with a point and a digit. -/
theorem IsNumeral.cons {numeral : List Char} (h : IsNumeral numeral) :
    ∃ c cs, numeral = c :: cs ∧
      (c.isDigit = true ∨ c = '.' ∧ ∃ d ∈ cs.head?, d.isDigit = true) := by
  obtain @⟨whole, fraction, fs, exponent, digits, fractional, some, -⟩ := h
  cases whole with
  | cons d whole => exact ⟨d, _, rfl, .inl (digits d (by simp))⟩
  | nil =>
    obtain ⟨d, fs, rfl⟩ := List.exists_cons_of_ne_nil (some.resolve_left (absurd rfl))
    cases fractional with
    | point digits => exact ⟨'.', _, rfl, .inr ⟨rfl, d, rfl, digits d (by simp)⟩⟩

theorem isName_cons {name : String} (h : isName name = true) :
    ∃ c cs, name.toList = c :: cs ∧ isNameStart c = true ∧ ∀ c ∈ cs, isNamePart c = true := by
  unfold isName at h
  split at h
  · cases h
  · rename_i c cs text
    rw [Bool.and_eq_true, List.all_eq_true] at h
    exact ⟨c, cs, text, h⟩

/-- A sign is one character, or two stars. -/
theorem sign_text {token : Token} (sign : token.isSign = true) :
    (∃ c, token.listing.toList = [c] ∧ isBlank c = false) ∨ token = .power := by
  cases token with
  | number _ | name _ => cases sign
  | power => exact .inr rfl
  | pi | root | plus | minus | star | slash | caret | openParen | closeParen =>
    exact .inl ⟨_, rfl, by decide⟩

/-- What a token may start with, and what decides which token it is. -/
theorem Spells.head {c : Char} {cs : List Char} {token : Token} (h : Spells (c :: cs) token) :
    (IsNumeral (c :: cs) ∧ (c.isDigit = true ∨ c = '.' ∧ ∃ d ∈ cs.head?, d.isDigit = true)) ∨
      (isNameStart c = true ∧ ∀ c ∈ cs, isNamePart c = true) ∨
      (cs = [] ∧ token.isSign = true ∧ token.listing.toList = [c]) ∨ c = '*' ∧ cs = ['*'] := by
  generalize text : c :: cs = front at h
  cases h with
  | number numeral _ =>
    obtain ⟨d, ds, same, starts⟩ := numeral.cons
    subst same
    cases text
    exact .inl ⟨numeral, starts⟩
  | name named =>
    obtain ⟨d, ds, same, start, parts⟩ := isName_cons named
    rw [same] at text
    cases text
    exact .inr (.inl ⟨start, parts⟩)
  | sign sign =>
    rcases sign_text sign with ⟨d, single, -⟩ | rfl
    · rw [single] at text
      cases text
      exact .inr (.inr (.inl ⟨rfl, sign, single⟩))
    · cases text
      exact .inr (.inr (.inr ⟨rfl, rfl⟩))

/-! ## The scanner -/

/-- A number is found where a numeral begins, and its text is the longest numeral there. -/
theorem numberFrom_spelled {c : Char} {rest : List Char}
    (starts : c.isDigit = true ∨ c = '.' ∧ ∃ d ∈ rest.head?, d.isDigit = true) :
    ∃ numeral v after, numberFrom c rest = some (.number v, after) ∧
      c :: rest = numeral ++ after.1 ∧ IsNumeral numeral ∧ unsigned? numeral = some v ∧
      after.1 = (scanNumber (c :: rest)).2.1 := by
  have digit : (c :: rest).takeWhile Char.isDigit ≠ [] ∨
      (splitFraction ((c :: rest).dropWhile Char.isDigit)).1 ≠ [] := by
    rcases starts with digit | ⟨rfl, d, first, digit⟩
    · exact .inl (by simp [digit])
    · obtain ⟨tail, rfl⟩ := List.head?_eq_some_iff.mp first
      refine .inr ?_
      show (d :: tail).takeWhile Char.isDigit ≠ []
      simp [digit]
  obtain ⟨numeral, split, spelled, value⟩ := scanNumber_spelled digit
  have shorter : (scanNumber (c :: rest)).2.1.length ≤ rest.length := by
    obtain ⟨d, ds, rfl, -⟩ := spelled.cons
    have length := congrArg List.length split
    simp only [List.length_append, List.length_cons] at length
    omega
  exact ⟨numeral, _, ⟨_, shorter⟩, dif_pos shorter, split, spelled, value, rfl⟩

/-- The scanner finds a token that the front of the text spells. -/
theorem scanToken_spelled {c : Char} {rest : List Char} {token : Token}
    {after : Text.Rest rest} (h : scanToken c rest = some (token, after)) :
    ∃ front, c :: rest = front ++ after.1 ∧ Spells front token := by
  unfold scanToken at h
  split at h
  · rename_i digit
    obtain ⟨numeral, v, left, found, split, spelled, value, -⟩ := numberFrom_spelled (.inl digit)
    rw [found] at h
    cases h
    exact ⟨numeral, split, .number spelled value⟩
  split at h
  · rename_i start
    cases h
    have named : isName (String.ofList (c :: rest.takeWhile isNamePart)) = true := by
      rw [isName, String.toList_ofList]
      simp [start]
    refine ⟨_, ?_, .name named⟩
    rw [String.toList_ofList, List.cons_append]
    exact congrArg (c :: ·) List.takeWhile_append_dropWhile.symm
  split at h
  · split at h
    · rename_i d _ _ _ digit
      obtain ⟨numeral, v, left, found, split, spelled, value, -⟩ :=
        numberFrom_spelled (.inr ⟨rfl, d, List.head?_cons, digit⟩)
      rw [found] at h
      cases h
      exact ⟨numeral, split, .number spelled value⟩
    · cases h
  · cases h
    exact ⟨['*', '*'], rfl, .of_sign rfl (by decide)⟩
  all_goals cases h
  all_goals exact ⟨[_], rfl, .of_sign rfl (by decide)⟩

theorem scanToken_number {c : Char} {rest : List Char}
    (starts : c.isDigit = true ∨ c = '.' ∧ ∃ d ∈ rest.head?, d.isDigit = true) :
    scanToken c rest = numberFrom c rest := by
  rcases starts with digit | ⟨rfl, d, first, digit⟩
  · unfold scanToken
    exact if_pos digit
  · obtain ⟨tail, rfl⟩ := List.head?_eq_some_iff.mp first
    exact if_pos digit

theorem scanToken_name {c : Char} (start : isNameStart c = true) (rest : List Char) :
    scanToken c rest = some (.name (String.ofList (c :: rest.takeWhile isNamePart)),
      (Text.splitWhile isNamePart rest).2) := by
  unfold scanToken
  rw [not_isDigit_of_isNameStart start, if_neg Bool.false_ne_true, if_pos start]
  rfl

/-- A text whose one character is a sign. -/
theorem scanToken_sign {c : Char} {token : Token} (sign : token.isSign = true)
    (text : token.listing.toList = [c]) (rest : List Char) : (scanToken c rest).isSome = true := by
  cases token with
  | number _ | name _ => cases sign
  | power => cases text
  | star =>
    obtain rfl : '*' = c := List.head_eq_of_cons_eq text
    have unnamed : isNameStart '*' = false := rfl
    cases rest with
    | nil => rfl
    | cons d rest =>
      by_cases twice : d = '*'
      · subst twice
        rfl
      · simp [scanToken, unnamed, twice]
  | pi | root | plus | minus | slash | caret | openParen | closeParen =>
    obtain rfl := List.head_eq_of_cons_eq text
    rfl

/-- Where a front of the text spells a token, the scanner finds one that is not shorter. -/
theorem scanToken_reaches {c : Char} {cs : List Char} {other : Token}
    (spelled : Spells (c :: cs) other) (tail : List Char) :
    ∃ token after, scanToken c (cs ++ tail) = some (token, after) ∧
      after.1.length ≤ tail.length := by
  rcases spelled.head with ⟨numeral, starts⟩ | ⟨start, parts⟩ | ⟨rfl, sign, text⟩ | ⟨rfl, rfl⟩
  · have starts : c.isDigit = true ∨ c = '.' ∧ ∃ d ∈ (cs ++ tail).head?, d.isDigit = true := by
      refine starts.imp_right fun ⟨point, d, first, digit⟩ => ⟨point, d, ?_, digit⟩
      rw [List.head?_append, Option.mem_def.mp first]
      rfl
    obtain ⟨_, v, after, found, -, -, -, taken⟩ := numberFrom_spelled starts
    refine ⟨_, after, (scanToken_number starts).trans found, ?_⟩
    rw [taken]
    exact scanNumber_longest numeral tail
  · refine ⟨_, _, scanToken_name start _, ?_⟩
    show ((cs ++ tail).dropWhile isNamePart).length ≤ tail.length
    rw [List.dropWhile_append_of_pos parts]
    exact (List.dropWhile_suffix _).length_le
  · obtain ⟨⟨token, after⟩, found⟩ := Option.isSome_iff_exists.mp (scanToken_sign sign text tail)
    exact ⟨token, after, found, after.2⟩
  · exact ⟨_, _, rfl, Nat.le_refl _⟩

/-- A text that spells a token is scanned as the token. -/
theorem Spells.scanToken {front : List Char} {token : Token} (h : Spells front token) :
    ∃ c cs after, front = c :: cs ∧ scanToken c cs = some (token, after) := by
  cases h with
  | number spelled value =>
    obtain ⟨c, cs, rfl, starts⟩ := spelled.cons
    obtain ⟨numeral, v, after, found, split, -, value', taken⟩ := numberFrom_spelled starts
    have bound := scanNumber_longest spelled []
    rw [List.append_nil, ← taken] at bound
    have none : after.1 = [] := List.eq_nil_of_length_eq_zero (Nat.le_zero.mp bound)
    rw [none, List.append_nil] at split
    rw [← split, value] at value'
    cases value'
    exact ⟨c, cs, after, rfl, (scanToken_number starts).trans found⟩
  | @name name named =>
    obtain ⟨c, cs, text, start, parts⟩ := isName_cons named
    have found := scanToken_name start cs
    rw [List.takeWhile_eq_self_iff.mpr parts, ← text, String.ofList_toList] at found
    exact ⟨c, cs, _, text, found⟩
  | sign sign =>
    cases token with
    | number _ | name _ => cases sign
    | pi | root | plus | minus | star | slash | caret | power | openParen | closeParen =>
      exact ⟨_, _, _, rfl, rfl⟩

/-- A text spells one token only. -/
theorem Spells.unique {cs : List Char} {token other : Token} (h : Spells cs token)
    (h' : Spells cs other) : token = other := by
  obtain ⟨c, cs, after, rfl, found⟩ := h.scanToken
  obtain ⟨_, _, _, same, found'⟩ := h'.scanToken
  cases same
  rw [found] at found'
  cases found'
  rfl

/-- The token is spelled by the longest front of the text that spells one, and the rest is left. -/
structure IsLongest (cs : List Char) (token : Token) (rest : List Char) : Prop where
  spelled : ∃ front, cs = front ++ rest ∧ Spells front token
  longest : ∀ front other tail, cs = front ++ tail → Spells front other →
    rest.length ≤ tail.length

theorem IsLongest.unique {cs rest rest' : List Char} {token token' : Token}
    (h : IsLongest cs token rest) (h' : IsLongest cs token' rest') :
    token = token' ∧ rest = rest' := by
  obtain ⟨front, split, spelled⟩ := h.spelled
  obtain ⟨front', split', spelled'⟩ := h'.spelled
  have length := Nat.le_antisymm (h.longest front' token' rest' split' spelled')
    (h'.longest front token rest split spelled)
  obtain ⟨rfl, rfl⟩ := List.append_inj' (split.symm.trans split') length
  exact ⟨spelled.unique spelled', rfl⟩

/-- The scanner takes the longest front of the text that spells a token. -/
theorem isLongest_of_scanToken {c : Char} {rest : List Char} {token : Token}
    {after : Text.Rest rest} (h : scanToken c rest = some (token, after)) :
    IsLongest (c :: rest) token after.1 := by
  refine ⟨scanToken_spelled h, fun front other tail split spelled => ?_⟩
  obtain ⟨d, cs, _, rfl, -⟩ := spelled.scanToken
  rw [List.cons_append, List.cons.injEq] at split
  obtain ⟨rfl, rfl⟩ := split
  obtain ⟨found, left, same, bound⟩ := scanToken_reaches spelled tail
  rw [same] at h
  cases h
  exact bound

theorem scanToken_of_isLongest {c : Char} {rest left : List Char} {token : Token}
    (h : IsLongest (c :: rest) token left) :
    ∃ after, scanToken c rest = some (token, after) ∧ after.1 = left := by
  obtain ⟨front, split, spelled⟩ := h.spelled
  obtain ⟨d, cs, _, rfl, -⟩ := spelled.scanToken
  rw [List.cons_append, List.cons.injEq] at split
  obtain ⟨rfl, rfl⟩ := split
  obtain ⟨found, after, same, -⟩ := scanToken_reaches spelled left
  obtain ⟨rfl, left⟩ := h.unique (isLongest_of_scanToken same)
  exact ⟨after, same, left.symm⟩

/-! ## Blanks -/

theorem IsExponent.not_isBlank {exponent : List Char} (h : IsExponent exponent) :
    ∀ c ∈ exponent, isBlank c = false := by
  cases h with
  | none => nofun
  | @digits mark sign ds marked signed _ digits =>
    intro c hc
    rcases List.mem_cons.mp hc with rfl | hc
    · have mark : c = 'e' ∨ c = 'E' := by simpa using marked
      rcases mark with rfl | rfl <;> rfl
    · rcases List.mem_append.mp hc with hc | hc
      · have signs : c = '+' ∨ c = '-' := by
          simp only [List.mem_cons, List.not_mem_nil, or_false] at signed
          rcases signed with rfl | rfl | rfl <;> simp_all
        rcases signs with rfl | rfl <;> rfl
      · exact not_isBlank_of (by decide) (digits c hc)

theorem IsNumeral.not_isBlank {numeral : List Char} (h : IsNumeral numeral) :
    ∀ c ∈ numeral, isBlank c = false := by
  obtain @⟨whole, fraction, fs, exponent, digits, fractional, -, scaled⟩ := h
  intro c hc
  rcases List.mem_append.mp hc with hc | hc
  · exact not_isBlank_of (by decide) (digits c hc)
  rcases List.mem_append.mp hc with hc | hc
  · cases fractional with
    | none => cases hc
    | point digits =>
      rcases List.mem_cons.mp hc with rfl | hc
      · rfl
      · exact not_isBlank_of (by decide) (digits c hc)
  · exact scaled.not_isBlank c hc

/-- No token has a blank in its text. -/
theorem Spells.not_isBlank {cs : List Char} {token : Token} (h : Spells cs token) :
    ∀ c ∈ cs, isBlank c = false := by
  cases h with
  | number numeral _ => exact numeral.not_isBlank
  | @name name named =>
    obtain ⟨c, cs, text, start, parts⟩ := isName_cons named
    rw [text]
    intro d hd
    rcases List.mem_cons.mp hd with rfl | hd
    · exact not_isBlank_of (by decide) start
    · exact not_isBlank_of (by decide) (parts d hd)
  | sign sign =>
    intro c hc
    rcases sign_text sign with ⟨d, single, inked⟩ | rfl
    · rw [single, List.mem_singleton] at hc
      rw [hc, inked]
    · have star : c = '*' := by simpa [Token.listing] using hc
      rw [star]
      rfl

/-! ## Whole texts -/

/-- The text is made of the tokens: each is spelled by the longest front at its place, and blanks
stand for nothing. -/
inductive Lexes : List Char → List Token → Prop
  | nil : Lexes [] []
  | blank {c : Char} {cs : List Char} {ts : List Token} : isBlank c = true → Lexes cs ts →
      Lexes (c :: cs) ts
  | token {cs rest : List Char} {token : Token} {ts : List Token} : IsLongest cs token rest →
      Lexes rest ts → Lexes cs (token :: ts)

theorem lexes_of_scan {cs : List Char} {ts : List Token} (h : scan cs = .ok ts) : Lexes cs ts := by
  fun_induction scan cs generalizing ts with
  | case1 =>
    cases h
    exact .nil
  | case2 c rest blank ih => exact .blank blank (ih h)
  | case3 => cases h
  | case4 c rest _ token after shorter found ih =>
    obtain ⟨us, scanned, rfl⟩ := Success.map_eq_ok.mp h
    exact .token (isLongest_of_scanToken found) (ih scanned)

theorem scan_of_lexes {cs : List Char} {ts : List Token} (h : Lexes cs ts) : scan cs = .ok ts := by
  induction h with
  | nil => rw [scan]
  | blank blank _ ih => rw [scan, if_pos blank, ih]
  | @token cs rest token ts first _ ih =>
    obtain ⟨front, split, spelled⟩ := first.spelled
    obtain ⟨c, cs, _, rfl, -⟩ := spelled.scanToken
    have inked : isBlank c = false := spelled.not_isBlank c (List.mem_cons_self ..)
    rw [List.cons_append] at split
    subst split
    obtain ⟨after, found, left⟩ := scanToken_of_isLongest first
    rw [scan, inked, if_neg Bool.false_ne_true, found]
    show (token :: ·) <$> scan after.1 = .ok (token :: ts)
    rw [left, ih]
    rfl

/-- The tokens that are read from a text are the ones that it is made of. -/
theorem tokens_eq_ok_iff {cs : List Char} {ts : List Token} : tokens cs = .ok ts ↔ Lexes cs ts := by
  rw [tokens, Success.mapError_eq_ok]
  exact ⟨lexes_of_scan, scan_of_lexes⟩

end QuantumBoard.Formula
