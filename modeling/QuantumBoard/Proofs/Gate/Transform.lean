import QuantumBoard.Gate.Arithmetic
import QuantumBoard.Proofs.Word.Modular

/-! Transforms, the transforms that undo them, and the gates that are made of them. Without
a bound on the width all transforms but one undo each other exactly; cutting the number to the
width of the register does not disturb that. The reflection below an input is the exception: it
looks at the size of its target, which a cut can change, but only for numbers that it does not
reflect. -/

namespace QuantumBoard

open Word (lowBits)

namespace Transform

/-- The inverse transform undoes a transform before any cut. -/
theorem wide_inverse {t : Transform} (h : t ≠ .flipBelow) (x a b : UInt64) :
    t.inverse.wide (t.wide x a b) a b = x := by
  cases t with
  | flipBelow => exact absurd rfl h
  | increment | decrement | addA | subA | addSquare | subSquare | addProduct | subProduct
  | addCount | subCount => simp only [inverse, wide]; grind
  | xorA => simp only [inverse, wide]; rw [UInt64.xor_assoc, UInt64.xor_self, UInt64.xor_zero]
  | mulA =>
    simp only [inverse, wide]
    by_cases ha : Word.isSet a 0 = true
    · have hinv := Word.mul_oddInverse (Word.isSet_zero_iff.mp ha)
      rw [if_pos ha, if_pos ha, UInt64.mul_assoc, hinv, UInt64.mul_one]
    · rw [if_neg ha, if_neg ha]
  | divA =>
    simp only [inverse, wide]
    by_cases ha : Word.isSet a 0 = true
    · have hinv := Word.mul_oddInverse (Word.isSet_zero_iff.mp ha)
      rw [if_pos ha, if_pos ha, UInt64.mul_assoc, UInt64.mul_comm _ a, hinv, UInt64.mul_one]
    · rw [if_neg ha, if_neg ha]
  | compare relation =>
    simp only [inverse, wide]
    split
    · rw [UInt64.xor_assoc, UInt64.xor_self, UInt64.xor_zero]
    · rfl

/-- The target may be cut before the transform as well as after it. -/
theorem wide_and_lowBits {t : Transform} (h : t ≠ .flipBelow) (x a b : UInt64) (w : Nat) :
    t.wide (x &&& lowBits w) a b &&& lowBits w = t.wide x a b &&& lowBits w := by
  cases t with
  | flipBelow => exact absurd rfl h
  | increment | addA | addSquare | addProduct | addCount => exact Word.add_and_lowBits _ _ _
  | decrement | subA | subSquare | subProduct | subCount => exact Word.sub_and_lowBits _ _ _
  | xorA => exact Word.xor_and_lowBits _ _ _
  | mulA | divA =>
    simp only [wide]
    split
    · exact Word.mul_and_lowBits _ _ _
    · exact Word.and_lowBits_idem _ _
  | compare relation =>
    simp only [wide]
    split
    · exact Word.xor_and_lowBits _ _ _
    · exact Word.and_lowBits_idem _ _

/-- Reflecting twice below an input, with a cut after each time. -/
theorem flipBelow_involutive (x a b : UInt64) {w : Nat} (hx : x &&& lowBits w = x) :
    wide (wide x a b .flipBelow &&& lowBits w) a b .flipBelow &&& lowBits w = x := by
  by_cases h : x < a
  · have hlt : x.toNat < a.toNat := UInt64.lt_iff_toNat_lt.mp h
    -- the reflected number is below the input, and a cut makes it no larger
    have hy : a - x - 1 < a := by
      rw [UInt64.lt_iff_toNat_lt, UInt64.toNat_sub_of_le _ _ (by
        rw [UInt64.le_iff_toNat_le, UInt64.toNat_sub_of_le _ _ (UInt64.le_of_lt h)]
        show 1 ≤ _
        omega), UInt64.toNat_sub_of_le _ _ (UInt64.le_of_lt h)]
      show a.toNat - x.toNat - 1 < _
      omega
    have hcut : a - x - 1 &&& lowBits w < a := UInt64.lt_of_le_of_lt (Word.and_lowBits_le _ w) hy
    simp only [wide, if_pos h, if_pos hcut]
    have hback : a - (a - x - 1 &&& lowBits w) - 1 &&& lowBits w = x &&& lowBits w := by
      have hswap : ∀ c : UInt64, a - c - 1 = a - 1 - c := fun c => by grind
      rw [hswap, Word.rsub_and_lowBits, show a - 1 - (a - x - 1) = x by grind]
    rw [hback, hx]
  · simp only [wide, if_neg h, hx]

/-- The inverse transform undoes a transform of a register of any width. -/
theorem apply_inverse (t : Transform) {x : UInt64} (values : List UInt64) {w : Nat}
    (hx : x &&& lowBits w = x) : t.inverse.apply (t.apply x values w) values w = x := by
  by_cases h : t = .flipBelow
  · subst h
    exact flipBelow_involutive _ _ _ hx
  · have hinv : t.inverse ≠ .flipBelow := by
      cases t <;> simp_all [inverse]
    rw [apply, apply, wide_and_lowBits hinv, wide_inverse h, hx]

theorem apply_and_lowBits (t : Transform) (x : UInt64) (values : List UInt64) (w : Nat) :
    t.apply x values w &&& lowBits w = t.apply x values w :=
  Word.and_lowBits_idem _ _

end Transform

/-! ## Arithmetic gates -/

namespace ArithmeticGate

open Word (testBit)

theorem numQubits_of_lt {g : ArithmeticGate} (fit : g.span < 2 ^ 32) : g.numQubits = g.span :=
  Nat.mod_eq_of_lt fit

/-- Two widths that are too large together count as one qubit. -/
example : numQubits ⟨.addA, 4294967295, [2]⟩ = 1 := by decide

theorem totalWidth_cons (w : Nat) (widths : List Nat) :
    totalWidth (w :: widths) = w + totalWidth widths := rfl

/-- The inputs are read from bits behind the target, whatever the bits of the target are. -/
theorem slices_congr {x y : UInt64} {offset : Nat} {widths : List Nat}
    (agree : ∀ k < 64, offset ≤ k → testBit x k = testBit y k) (pos : ∀ w ∈ widths, 1 ≤ w)
    (fit : offset + totalWidth widths ≤ 64) : slices x offset widths = slices y offset widths := by
  induction widths generalizing offset with
  | nil => rfl
  | cons w widths ih =>
    rw [totalWidth_cons] at fit
    have hw := pos w List.mem_cons_self
    have hoff : offset < 64 := by omega
    have hhead : x >>> Word.amount offset = y >>> Word.amount offset := by
      apply Word.eq_of_testBit
      intro k _
      rw [Word.testBit_shiftRight x hoff, Word.testBit_shiftRight y hoff]
      by_cases hk : offset + k < 64
      · exact agree _ hk (by omega)
      · rw [Word.testBit_of_le _ (by omega), Word.testBit_of_le _ (by omega)]
    have htail : slices x (offset + w) widths = slices y (offset + w) widths :=
      ih (fun k h hk => agree k h (by omega)) (fun w h => pos w (List.mem_cons_of_mem _ h))
        (by omega)
    rw [slices, slices, hhead, htail]

/-- Only the bits of the target change. -/
theorem testBit_applyToBits (g : ArithmeticGate) (bits : UInt64) {k : Nat} (hk : k < 64) :
    testBit (g.applyToBits bits) k =
      if k < g.targetWidth then
        testBit (g.transform.apply (bits &&& lowBits g.targetWidth)
          (slices bits g.targetWidth g.inputWidths) g.targetWidth) k
      else testBit bits k := by
  have hcut := Transform.apply_and_lowBits g.transform (bits &&& lowBits g.targetWidth)
    (slices bits g.targetWidth g.inputWidths) g.targetWidth
  simp only [applyToBits, Word.testBit_or, Word.testBit_and, Word.testBit_not _ hk,
    Word.testBit_lowBits _ k hk]
  by_cases h : k < g.targetWidth
  · simp [h]
  · rw [← hcut, Word.testBit_and, Word.testBit_lowBits _ k hk]
    simp [h]

/-- The bits behind the target, those of the inputs among them, stay. -/
theorem testBit_applyToBits_of_le (g : ArithmeticGate) (bits : UInt64) {k : Nat}
    (h : g.targetWidth ≤ k) : testBit (g.applyToBits bits) k = testBit bits k := by
  by_cases hk : k < 64
  · rw [testBit_applyToBits g bits hk, if_neg (by omega)]
  · rw [Word.testBit_of_le _ (by omega), Word.testBit_of_le _ (by omega)]

/-- The target takes the number that the transform makes of it. -/
theorem target_applyToBits (g : ArithmeticGate) (bits : UInt64) :
    g.applyToBits bits &&& lowBits g.targetWidth =
      g.transform.apply (bits &&& lowBits g.targetWidth)
        (slices bits g.targetWidth g.inputWidths) g.targetWidth := by
  rw [← Transform.apply_and_lowBits]
  apply Word.eq_of_testBit
  intro k hk
  simp only [Word.testBit_and, testBit_applyToBits g bits hk, Word.testBit_lowBits _ k hk]
  by_cases h : k < g.targetWidth <;> simp [h]

/-- The gate of the inverse transform undoes an arithmetic gate. -/
theorem applyToBits_inverse (g : ArithmeticGate) (pos : ∀ w ∈ g.inputWidths, 1 ≤ w)
    (fit : g.span ≤ 64) (bits : UInt64) :
    g.inverse.applyToBits (g.applyToBits bits) = bits := by
  have hvalues : slices (g.applyToBits bits) g.targetWidth g.inputWidths =
      slices bits g.targetWidth g.inputWidths :=
    slices_congr (fun k _ => g.testBit_applyToBits_of_le bits) pos fit
  have hundone : g.inverse.applyToBits (g.applyToBits bits) &&& lowBits g.targetWidth =
      bits &&& lowBits g.targetWidth := by
    refine (g.inverse.target_applyToBits _).trans ?_
    -- the inverse gate has the same registers
    show g.transform.inverse.apply (g.applyToBits bits &&& lowBits g.targetWidth)
      (slices (g.applyToBits bits) g.targetWidth g.inputWidths) g.targetWidth = _
    rw [hvalues, target_applyToBits]
    exact Transform.apply_inverse _ _ (Word.and_lowBits_idem _ _)
  refine Word.eq_of_and_lowBits hundone fun k hk => ?_
  rw [testBit_applyToBits_of_le g.inverse _ hk, testBit_applyToBits_of_le g bits hk]

/-- A gate keeps to the bits of its registers. -/
theorem applyToBits_and_lowBits (g : ArithmeticGate) {bits : UInt64}
    (h : bits &&& lowBits g.span = bits) :
    g.applyToBits bits &&& lowBits g.span = g.applyToBits bits := by
  apply Word.eq_of_testBit
  intro k hk
  rw [Word.testBit_and, Word.testBit_lowBits _ k hk]
  by_cases hn : k < g.span
  · simp [hn]
  · have hw : ¬k < g.targetWidth := by
      have : g.span = g.targetWidth + totalWidth g.inputWidths := rfl
      omega
    rw [testBit_applyToBits g bits hk, if_neg hw, ← h, Word.testBit_and,
      Word.testBit_lowBits _ k hk]
    simp [hn]

/-- Whatever the transform, the registers and the word, an arithmetic gate writes its target alone,
and the gate of the inverse transform restores the word. -/
theorem applyToBits_reversible (g : ArithmeticGate) (inputs : ∀ w ∈ g.inputWidths, 1 ≤ w)
    (fit : g.span ≤ 64) (bits : UInt64) :
    (∀ k, g.targetWidth ≤ k → testBit (g.applyToBits bits) k = testBit bits k) ∧
      g.applyToBits bits &&& lowBits g.targetWidth =
        g.transform.apply (bits &&& lowBits g.targetWidth)
          (slices bits g.targetWidth g.inputWidths) g.targetWidth ∧
      g.inverse.applyToBits (g.applyToBits bits) = bits :=
  ⟨fun _ => g.testBit_applyToBits_of_le bits, g.target_applyToBits bits,
    g.applyToBits_inverse inputs fit bits⟩

/-- A reflection of three bits below a number of five, with one more input that it does not read. -/
def wideReflection : ArithmeticGate := ⟨.flipBelow, 3, [5, 1]⟩

/-- The two is reflected below 23 to 20, which leaves 4 in the target. -/
theorem applyToBits_reversible_wideReflection :
    wideReflection.applyToBits 0b110111010 = 0b110111100 ∧
      wideReflection.inverse.applyToBits 0b110111100 = 0b110111010 := by
  have reflected : wideReflection.applyToBits 0b110111010 = 0b110111100 := by decide +kernel
  obtain ⟨-, -, restored⟩ :=
    applyToBits_reversible wideReflection (by decide) (by decide) 0b110111010
  rw [reflected] at restored
  exact ⟨reflected, restored⟩

end ArithmeticGate

end QuantumBoard
