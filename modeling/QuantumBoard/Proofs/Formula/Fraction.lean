import QuantumBoard.Proofs.Formula.Scan

/-! # Fraction glyphs are written out in one pass

The glyphs are written out one kind after the other, each kind in two passes over the text. What
is written for a glyph has no root sign and no glyph in it, so that no pass finds anything that
another one wrote; and all passes together are one pass from left to right. -/

namespace QuantumBoard.Formula

/-- The fraction among some that has the glyph. -/
def ofGlyph? (fractions : List Fraction) (c : Char) : Option Fraction :=
  fractions.find? (·.glyph = c)

/-- One pass from left to right. A glyph right behind a root sign becomes the root of its fraction,
any other glyph its fraction, and every other character is copied. -/
def expandPass (fractions : List Fraction) : List Char → List Char
  | [] => []
  | '√' :: c :: rest =>
    match ofGlyph? fractions c with
    | some f => f.rooted ++ expandPass fractions rest
    | none => '√' :: expandPass fractions (c :: rest)
  | c :: rest =>
    match ofGlyph? fractions c with
    | some f => f.spelled ++ expandPass fractions rest
    | none => c :: expandPass fractions rest

section

variable {fractions : List Fraction} {c : Char} {rest : List Char}

theorem ofGlyph?_eq_none : ofGlyph? fractions c = none ↔ ∀ f ∈ fractions, f.glyph ≠ c := by
  simp [ofGlyph?]

theorem ofGlyph?_eq_some {f : Fraction} (h : ofGlyph? fractions c = some f) :
    f ∈ fractions ∧ f.glyph = c :=
  ⟨List.mem_of_find?_eq_some h, by simpa using List.find?_some h⟩

theorem ofGlyph?_concat_of_some {f g : Fraction} (h : ofGlyph? fractions c = some f) :
    ofGlyph? (fractions ++ [g]) c = some f := by
  unfold ofGlyph? at h ⊢
  rw [List.find?_append, h]
  rfl

theorem ofGlyph?_concat_self {f : Fraction} (h : ofGlyph? fractions f.glyph = none) :
    ofGlyph? (fractions ++ [f]) f.glyph = some f := by
  unfold ofGlyph? at h ⊢
  simp [List.find?_append, h]

theorem ofGlyph?_concat_of_ne {f : Fraction} (h : ofGlyph? fractions c = none)
    (other : c ≠ f.glyph) : ofGlyph? (fractions ++ [f]) c = none := by
  rw [ofGlyph?_eq_none] at h ⊢
  intro g mem
  rcases List.mem_append.mp mem with mem | mem
  · exact h g mem
  · rw [List.mem_singleton.mp mem]
    exact Ne.symm other

theorem expandPass_root (c : Char) (rest : List Char) :
    expandPass fractions ('√' :: c :: rest) =
      match ofGlyph? fractions c with
      | some f => f.rooted ++ expandPass fractions rest
      | none => '√' :: expandPass fractions (c :: rest) := by
  rw [expandPass]

theorem expandPass_cons (h : c ≠ '√') :
    expandPass fractions (c :: rest) =
      match ofGlyph? fractions c with
      | some f => f.spelled ++ expandPass fractions rest
      | none => c :: expandPass fractions rest :=
  expandPass.eq_3 fractions c rest fun _ _ same => absurd same h

theorem expandPass_copied (plain : c ≠ '√') (unlisted : ofGlyph? fractions c = none) :
    expandPass fractions (c :: rest) = c :: expandPass fractions rest := by
  rw [expandPass_cons plain, unlisted]

end

theorem expandPass_nil (cs : List Char) : expandPass [] cs = cs := by
  fun_induction expandPass [] cs with
  | case1 => rfl
  | case2 c rest f found => cases found
  | case3 c rest _ ih => rw [ih]
  | case4 c rest _ f found => cases found
  | case5 c rest _ _ ih => rw [ih]

/-! ## One pass more -/

/-- The glyph is neither ASCII nor the root sign, and what is written for it is ASCII. -/
structure Fraction.Spellable (f : Fraction) : Prop where
  glyph : isAscii f.glyph = false
  root : f.glyph ≠ '√'
  text : ∀ c ∈ f.rooted, isAscii c = true

theorem Fraction.all_spellable : ∀ f ∈ Fraction.all, f.Spellable := by
  have root : ∀ f ∈ Fraction.all, f.glyph ≠ '√' := by decide
  have text : ∀ f ∈ Fraction.all, f.rooted.all isAscii = true := by decide
  exact fun f mem => ⟨glyph_not_isAscii f mem, root f mem, List.all_eq_true.mp (text f mem)⟩

/-- The division that is written for each glyph, in the order in which the glyphs are written out. A
root sign in front of the glyph becomes the root of the division. -/
theorem Fraction.all_texts :
    Fraction.all.map (fun f => (f.glyph, String.ofList f.spelled)) =
        [('½', "(1/2)"), ('¼', "(1/4)"), ('¾', "(3/4)"), ('⅓', "(1/3)"), ('⅔', "(2/3)"),
          ('⅕', "(1/5)"), ('⅖', "(2/5)"), ('⅗', "(3/5)"), ('⅘', "(4/5)"), ('⅙', "(1/6)"),
          ('⅚', "(5/6)"), ('⅐', "(1/7)"), ('⅛', "(1/8)"), ('⅜', "(3/8)"), ('⅝', "(5/8)"),
          ('⅞', "(7/8)"), ('⅑', "(1/9)"), ('⅒', "(1/10)")] ∧
      ∀ f ∈ Fraction.all, String.ofList f.rooted = "(sqrt" ++ String.ofList f.spelled ++ ")" := by
  constructor <;> decide

theorem Fraction.Spellable.spelled {f : Fraction} (spellable : f.Spellable) :
    ∀ c ∈ f.spelled, isAscii c = true := by
  intro c mem
  exact spellable.text c (List.mem_append_left _ (List.mem_append_right _ mem))

theorem ne_of_isAscii {c d : Char} (ascii : isAscii c = true) (other : isAscii d = false) :
    c ≠ d := by
  rintro rfl
  rw [ascii] at other
  cases other

section

variable {a b c : Char} {text cs : List Char}

theorem replacePair_cons_of_ne (h : c ≠ a) :
    replacePair a b text (c :: cs) = c :: replacePair a b text cs := by
  cases cs with
  | nil => rfl
  | cons d cs => rw [replacePair, if_neg fun both => h both.1]

theorem replacePair_cons_of_head (h : cs.head? ≠ some b) :
    replacePair a b text (c :: cs) = c :: replacePair a b text cs := by
  cases cs with
  | nil => rfl
  | cons d cs =>
    have unpaired : ¬(c = a ∧ d = b) := fun both => h (congrArg some both.2)
    rw [replacePair, if_neg unpaired]

theorem replacePair_pair :
    replacePair a b text (a :: b :: cs) = text ++ replacePair a b text cs := by
  rw [replacePair, if_pos ⟨rfl, rfl⟩]

theorem replaceEach_cons_of_ne (h : c ≠ a) :
    replaceEach a text (c :: cs) = c :: replaceEach a text cs := by
  rw [replaceEach, List.flatMap_cons, if_neg h]
  rfl

theorem replaceEach_cons_self : replaceEach a text (a :: cs) = text ++ replaceEach a text cs := by
  rw [replaceEach, List.flatMap_cons, if_pos rfl]
  rfl

theorem replaceEach_append (before cs : List Char) :
    replaceEach a text (before ++ cs) = replaceEach a text before ++ replaceEach a text cs :=
  List.flatMap_append

end

namespace Fraction

variable {f : Fraction} {c : Char} {cs : List Char}

theorem expand_cons (root : c ≠ '√') (glyph : c ≠ f.glyph) :
    f.expand (c :: cs) = c :: f.expand cs := by
  rw [expand, replacePair_cons_of_ne root, replaceEach_cons_of_ne glyph, expand]

theorem expand_glyph (root : f.glyph ≠ '√') :
    f.expand (f.glyph :: cs) = f.spelled ++ f.expand cs := by
  rw [expand, replacePair_cons_of_ne root, replaceEach_cons_self, expand]

theorem expand_root (root : f.glyph ≠ '√') (behind : cs.head? ≠ some f.glyph) :
    f.expand ('√' :: cs) = '√' :: f.expand cs := by
  rw [expand, replacePair_cons_of_head behind, replaceEach_cons_of_ne (Ne.symm root), expand]

namespace Spellable

variable (spellable : f.Spellable)

include spellable

theorem expand_ascii {text : List Char} (ascii : ∀ c ∈ text, isAscii c = true) (cs : List Char) :
    f.expand (text ++ cs) = text ++ f.expand cs := by
  induction text with
  | nil => rfl
  | cons c text ih =>
    have here := ascii c List.mem_cons_self
    rw [List.cons_append, List.cons_append,
      expand_cons (ne_of_isAscii here (by decide)) (ne_of_isAscii here spellable.glyph),
      ih fun d mem => ascii d (List.mem_cons_of_mem c mem)]

theorem expand_rootGlyph : f.expand ('√' :: f.glyph :: cs) = f.rooted ++ f.expand cs := by
  have none : f.glyph ∉ f.rooted := fun mem =>
    ne_of_isAscii (spellable.text _ mem) spellable.glyph rfl
  rw [expand, replacePair_pair, replaceEach_append, replaceEach_of_not_mem none, expand]

end Spellable

end Fraction

/-- What a pass copies keeps its place behind a root sign: the pass gives a text that starts with
a glyph only if it was given one. -/
theorem head?_expandPass {fractions : List Fraction} {c : Char} (other : isAscii c = false)
    {cs : List Char} (h : (expandPass fractions cs).head? = some c) : cs.head? = some c := by
  fun_cases expandPass fractions cs with
  | case1 => cases h
  | case2 d rest f found =>
    rw [expandPass_root, found] at h
    cases h
    cases other
  | case3 d rest unlisted =>
    rw [expandPass_root, unlisted] at h
    exact h
  | case4 d rest single f found =>
    rw [expandPass.eq_3 _ _ _ single, found] at h
    cases h
    cases other
  | case5 d rest single unlisted =>
    rw [expandPass.eq_3 _ _ _ single, unlisted] at h
    exact h

/-- To write out one more glyph after a pass is to let the pass write it out. -/
theorem expand_expandPass {fractions : List Fraction} {f : Fraction}
    (spellable : ∀ g ∈ fractions ++ [f], g.Spellable) (cs : List Char) :
    f.expand (expandPass fractions cs) = expandPass (fractions ++ [f]) cs := by
  have last : f.Spellable := spellable f (by simp)
  have listed : ∀ g ∈ fractions, g.Spellable := fun g mem =>
    spellable g (List.mem_append_left _ mem)
  fun_induction expandPass fractions cs with
  | case1 => rfl
  | case2 c rest g found ih =>
    have text := (listed g (ofGlyph?_eq_some found).1).text
    rw [last.expand_ascii text, ih, expandPass_root, ofGlyph?_concat_of_some found]
  | case3 c rest unlisted ih =>
    rw [expandPass_root]
    by_cases same : c = f.glyph
    · subst same
      rw [expandPass_copied last.root unlisted] at ih ⊢
      rw [expandPass_cons last.root, ofGlyph?_concat_self unlisted,
        Fraction.expand_glyph last.root] at ih
      rw [ofGlyph?_concat_self unlisted, last.expand_rootGlyph, List.append_cancel_left ih]
    · have behind : (expandPass fractions (c :: rest)).head? ≠ some f.glyph := by
        intro head
        have := head?_expandPass last.glyph head
        exact same (Option.some.inj this)
      rw [ofGlyph?_concat_of_ne unlisted same, Fraction.expand_root last.root behind, ih]
  | case4 c rest single g found ih =>
    have text := (listed g (ofGlyph?_eq_some found).1).spelled
    rw [last.expand_ascii text, ih, expandPass.eq_3 _ _ _ single, ofGlyph?_concat_of_some found]
  | case5 c rest single unlisted ih =>
    rw [expandPass.eq_3 _ _ _ single]
    by_cases same : c = f.glyph
    · subst same
      rw [ofGlyph?_concat_self unlisted, Fraction.expand_glyph last.root, ih]
    · rw [ofGlyph?_concat_of_ne unlisted same, ← ih]
      by_cases root : c = '√'
      · subst root
        cases rest with
        | nil => exact Fraction.expand_root last.root (by simp [expandPass])
        | cons d rest => exact absurd rfl (single d rest rfl)
      · exact Fraction.expand_cons root same

/-- Writing out some glyphs, one after the other, is one pass. -/
theorem foldl_expand_expandPass {fractions more : List Fraction}
    (spellable : ∀ g ∈ fractions ++ more, g.Spellable) (cs : List Char) :
    more.foldl (fun cs f => f.expand cs) (expandPass fractions cs) =
      expandPass (fractions ++ more) cs := by
  induction more generalizing fractions with
  | nil => rw [List.foldl_nil, List.append_nil]
  | cons f more ih =>
    rw [List.append_cons] at spellable ⊢
    rw [List.foldl_cons, expand_expandPass fun g mem => spellable g (List.mem_append_left _ mem),
      ih spellable]

theorem expandFractions_eq_expandPass (cs : List Char) :
    expandFractions cs = expandPass Fraction.all cs := by
  have passes := @foldl_expand_expandPass [] Fraction.all Fraction.all_spellable cs
  rwa [expandPass_nil] at passes

/-! ## What is left behind -/

theorem rootless {fractions : List Fraction} (spellable : ∀ f ∈ fractions, f.Spellable) :
    ofGlyph? fractions '√' = none :=
  ofGlyph?_eq_none.mpr fun f mem => (spellable f mem).root

/-- A character that a pass leaves behind was written for a glyph, or it was there and is none. -/
theorem mem_expandPass {fractions : List Fraction} (spellable : ∀ f ∈ fractions, f.Spellable)
    {c : Char} {cs : List Char} (h : c ∈ expandPass fractions cs) :
    (∃ f ∈ fractions, c ∈ f.rooted) ∨ c ∈ cs ∧ ofGlyph? fractions c = none := by
  fun_induction expandPass fractions cs with
  | case1 => cases h
  | case2 d rest f found ih =>
    rcases List.mem_append.mp h with h | h
    · exact .inl ⟨f, (ofGlyph?_eq_some found).1, h⟩
    · exact (ih h).imp_right fun kept => ⟨by simp [kept.1], kept.2⟩
  | case3 d rest unlisted ih =>
    rcases List.mem_cons.mp h with rfl | h
    · exact .inr ⟨List.mem_cons_self, rootless spellable⟩
    · exact (ih h).imp_right fun kept => ⟨List.mem_cons_of_mem _ kept.1, kept.2⟩
  | case4 d rest _ f found ih =>
    rcases List.mem_append.mp h with h | h
    · exact .inl ⟨f, (ofGlyph?_eq_some found).1,
        List.mem_append_left _ (List.mem_append_right _ h)⟩
    · exact (ih h).imp_right fun kept => ⟨List.mem_cons_of_mem _ kept.1, kept.2⟩
  | case5 d rest _ unlisted ih =>
    rcases List.mem_cons.mp h with rfl | h
    · exact .inr ⟨List.mem_cons_self, unlisted⟩
    · exact (ih h).imp_right fun kept => ⟨List.mem_cons_of_mem _ kept.1, kept.2⟩

theorem not_mem_expandFractions {c : Char} (unwritten : ∀ f ∈ Fraction.all, c ∉ f.rooted)
    {cs : List Char} (absent : c ∉ cs) : c ∉ expandFractions cs := by
  intro mem
  rw [expandFractions_eq_expandPass] at mem
  rcases mem_expandPass Fraction.all_spellable mem with ⟨f, listed, text⟩ | ⟨kept, -⟩
  · exact unwritten f listed text
  · exact absent kept

theorem glyph_not_mem_expandFractions (cs : List Char) :
    ∀ f ∈ Fraction.all, f.glyph ∉ expandFractions cs := by
  intro f listed mem
  rw [expandFractions_eq_expandPass] at mem
  rcases mem_expandPass Fraction.all_spellable mem with ⟨g, other, text⟩ | ⟨-, unlisted⟩
  · exact ne_of_isAscii ((Fraction.all_spellable g other).text _ text)
      (Fraction.all_spellable f listed).glyph rfl
  · exact ofGlyph?_eq_none.mp unlisted f listed rfl

/-- Writing out the glyphs one kind after the other comes to one pass from left to right. It
leaves no glyph, and there is nothing to write out in what it leaves. -/
theorem expandFractions_in_one_pass (cs : List Char) :
    expandFractions cs = expandPass Fraction.all cs ∧
      (∀ f ∈ Fraction.all, f.glyph ∉ expandFractions cs) ∧
      expandFractions (expandFractions cs) = expandFractions cs :=
  ⟨expandFractions_eq_expandPass cs, glyph_not_mem_expandFractions cs,
    expandFractions_of_not_mem (glyph_not_mem_expandFractions cs)⟩

/-- Only the root sign right before a glyph is taken with it. -/
example : expandFractions "√√½¼".toList = "√(sqrt(1/2))(1/4)".toList := by decide

/-! ## Texts put together -/

/-- A pass takes nothing across a character that is copied. -/
theorem expandPass_append_cons {fractions : List Fraction}
    (rootless : ofGlyph? fractions '√' = none) {c : Char} (plain : c ≠ '√')
    (unlisted : ofGlyph? fractions c = none) (before cs : List Char) :
    expandPass fractions (before ++ c :: cs) =
      expandPass fractions before ++ c :: expandPass fractions cs := by
  fun_induction expandPass fractions before with
  | case1 => exact expandPass_copied plain unlisted
  | case2 d rest f found ih =>
    rw [List.cons_append, List.cons_append, expandPass_root, found, List.append_assoc, ← ih]
  | case3 d rest missing ih =>
    rw [List.cons_append, List.cons_append, expandPass_root, missing, List.cons_append, ← ih]
    rfl
  | case4 d rest single f found ih =>
    have other : d ≠ '√' := by
      rintro rfl
      rw [rootless] at found
      cases found
    rw [List.cons_append, expandPass_cons other, found, List.append_assoc, ← ih]
  | case5 d rest single missing ih =>
    by_cases root : d = '√'
    · subst root
      cases rest with
      | nil =>
        rw [List.singleton_append, expandPass_root, unlisted, expandPass_copied plain unlisted]
        rfl
      | cons e rest => exact absurd rfl (single e rest rfl)
    · rw [List.cons_append, expandPass_copied root missing, List.cons_append, ← ih]

theorem ofGlyph?_of_isAscii {c : Char} (ascii : isAscii c = true) :
    ofGlyph? Fraction.all c = none :=
  ofGlyph?_eq_none.mpr fun f mem =>
    Ne.symm (ne_of_isAscii ascii (Fraction.glyph_not_isAscii f mem))

theorem expandPass_ascii_append {text : List Char} (ascii : ∀ c ∈ text, isAscii c = true)
    (cs : List Char) :
    expandPass Fraction.all (text ++ cs) = text ++ expandPass Fraction.all cs := by
  induction text with
  | nil => rfl
  | cons c text ih =>
    have here := ascii c List.mem_cons_self
    rw [List.cons_append, expandPass_copied (ne_of_isAscii here (by decide))
      (ofGlyph?_of_isAscii here), ih fun d mem => ascii d (List.mem_cons_of_mem c mem)]
    rfl

/-- The glyphs on the two sides of a text without glyphs are written out on each side for itself. -/
theorem expandPass_append_ascii {text : List Char} (ascii : ∀ c ∈ text, isAscii c = true)
    (nonempty : text ≠ []) (before cs : List Char) :
    expandPass Fraction.all (before ++ text ++ cs) =
      expandPass Fraction.all before ++ text ++ expandPass Fraction.all cs := by
  obtain ⟨c, text, rfl⟩ := List.exists_cons_of_ne_nil nonempty
  have here := ascii c List.mem_cons_self
  rw [List.append_assoc, List.cons_append,
    expandPass_append_cons (rootless Fraction.all_spellable) (ne_of_isAscii here (by decide))
      (ofGlyph?_of_isAscii here),
    expandPass_ascii_append fun d mem => ascii d (List.mem_cons_of_mem c mem), List.append_assoc,
    List.cons_append]

/-- The glyphs of texts between separators are written out in each text for itself. -/
theorem expandFractions_intercalate {separator : List Char}
    (ascii : separator.all isAscii = true) (nonempty : separator ≠ []) (texts : List (List Char)) :
    expandFractions (separator.intercalate texts) =
      separator.intercalate (texts.map expandFractions) := by
  have passes : expandFractions = expandPass Fraction.all := funext expandFractions_eq_expandPass
  have plain := List.all_eq_true.mp ascii
  rw [passes]
  induction texts with
  | nil => rfl
  | cons text texts ih =>
    cases texts with
    | nil => simp only [List.map_cons, List.map_nil, List.intercalate_singleton]
    | cons next texts =>
      rw [List.intercalate_cons_cons, expandPass_append_ascii plain nonempty, ih]
      simp only [List.map_cons, List.intercalate_cons_cons]

end QuantumBoard.Formula
