import QuantumBoard.Proofs.Formula.Fraction
import QuantumBoard.Proofs.Formula.Parser
import QuantumBoard.Proofs.Matrix.Literal

/-! # Matrices are read entry by entry

A table of texts is written down row by row, and the literal is read back in the same order: every
entry by itself, with the glyphs of its own text written out. It is a matrix when all rows have the
same length; otherwise the first row of another length than the rows before it is at fault. -/

namespace QuantumBoard.Matrix

open Formula (expandFractions isAscii)
open Success

/-! ## Texts between separators -/

theorem splitEntries_eq_splitOn (cs : List Char) : splitEntries cs = cs.splitOn ',' := by
  induction cs with
  | nil => rfl
  | cons c cs ih =>
    rw [List.splitOn_cons_eq_if_modifyHead]
    by_cases comma : c = ','
    · subst comma
      rw [splitEntries, ih, if_pos (by decide)]
    · rw [splitEntries.eq_3 c cs comma, ih, if_neg (by simpa using comma)]
      obtain ⟨entry, entries, split⟩ := List.exists_cons_of_ne_nil (List.splitOn_ne_nil ',' cs)
      rw [split]
      rfl

theorem splitEntries_intercalate {entries : List (List Char)} (nonempty : entries ≠ [])
    (plain : ∀ entry ∈ entries, ',' ∉ entry) :
    splitEntries ([','].intercalate entries) = entries := by
  rw [splitEntries_eq_splitOn, List.splitOn_intercalate _ plain nonempty]

/-- What stands between two rows. -/
def rowBreak : List Char := ['}', ',', '{']

section

variable {row : List Char} (closed : '}' ∉ row)

include closed

theorem splitRows_row : splitRows row = [row] := by
  induction row with
  | nil => rfl
  | cons c row ih =>
    rw [List.mem_cons, not_or] at closed
    rw [splitRows.eq_3 c row fun _ brace => absurd brace.symm closed.1, ih closed.2]

theorem splitRows_append (rest : List Char) :
    splitRows (row ++ rowBreak ++ rest) = row :: splitRows rest := by
  induction row with
  | nil => rfl
  | cons c row ih =>
    rw [List.mem_cons, not_or] at closed
    rw [List.cons_append, List.cons_append,
      splitRows.eq_3 c _ fun _ brace => absurd brace.symm closed.1, ih closed.2]

end

theorem splitRows_intercalate {rows : List (List Char)} (nonempty : rows ≠ [])
    (closed : ∀ row ∈ rows, '}' ∉ row) : splitRows (rowBreak.intercalate rows) = rows := by
  induction rows with
  | nil => exact absurd rfl nonempty
  | cons row rows ih =>
    have first := closed row List.mem_cons_self
    cases rows with
    | nil => rw [List.intercalate_singleton, splitRows_row first]
    | cons next rows =>
      have rest := ih (List.cons_ne_nil next rows) fun r mem =>
        closed r (List.mem_cons_of_mem row mem)
      rw [List.intercalate_cons_cons, splitRows_append first, rest]

/-! ## Tables -/

/-- The entries of a row, with commas between them. -/
def rowText (row : List (List Char)) : List Char := [','].intercalate row

/-- The rows of a table in braces, within braces. -/
def literal (table : List (List (List Char))) : String :=
  String.ofList ('{' :: '{' :: rowBreak.intercalate (table.map rowText) ++ ['}', '}'])

/-- None of the characters that part rows and entries is in the text. -/
structure Plain (entry : List Char) : Prop where
  opening : '{' ∉ entry
  closing : '}' ∉ entry
  comma : ',' ∉ entry

/-- A row of texts of which each spells a number, once its glyphs are written out. -/
structure Readable (row : List (List Char)) : Prop where
  nonempty : row ≠ []
  plain : ∀ entry ∈ row, Plain entry
  accepted : ∀ entry ∈ row, ∃ z, Amplitude.ofLiteral (expandFractions entry) = .ok z

/-- All rows have the same length. -/
def Rectangular (table : List (List (List Char))) : Prop := ∃ n, ∀ row ∈ table, row.length = n

/-- The text of a row, with the glyphs of each entry written out. -/
def expandedRow (row : List (List Char)) : List Char := rowText (row.map expandFractions)

theorem inner?_braced (body : List Char) :
    inner? ('{' :: '{' :: body ++ ['}', '}']) = some body := by
  simp [inner?]

theorem Plain.expand {entry : List Char} (plain : Plain entry) :
    Plain (expandFractions entry) where
  opening := Formula.not_mem_expandFractions (by decide) plain.opening
  closing := Formula.not_mem_expandFractions (by decide) plain.closing
  comma := Formula.not_mem_expandFractions (by decide) plain.comma

theorem closing_not_mem_rowText {row : List (List Char)} (closed : ∀ entry ∈ row, '}' ∉ entry) :
    '}' ∉ rowText row := by
  unfold rowText
  induction row with
  | nil => simp
  | cons entry row ih =>
    have rest := ih fun e mem => closed e (List.mem_cons_of_mem entry mem)
    have first := closed entry List.mem_cons_self
    cases row with
    | nil => simpa using first
    | cons next row =>
      rw [List.intercalate_cons_cons]
      simp only [List.mem_append, List.mem_singleton, not_or]
      exact ⟨⟨first, by decide⟩, rest⟩

theorem expandFractions_rowText (row : List (List Char)) :
    expandFractions (rowText row) = expandedRow row := by
  have comma : [','].all isAscii = true := by decide
  exact Formula.expandFractions_intercalate comma (List.cons_ne_nil _ _) row

/-- The texts of the rows are found, with the glyphs of each entry written out. -/
theorem splitRows_expandFractions {table : List (List (List Char))} (nonempty : table ≠ [])
    (readable : ∀ row ∈ table, Readable row) :
    splitRows (expandFractions (rowBreak.intercalate (table.map rowText))) =
      table.map expandedRow := by
  have between : rowBreak.all isAscii = true := by decide
  rw [Formula.expandFractions_intercalate between (List.cons_ne_nil _ _), List.map_map]
  simp only [Function.comp_def, expandFractions_rowText]
  refine splitRows_intercalate (by simpa using nonempty) ?_
  refine List.forall_mem_map.mpr fun row listed => ?_
  refine closing_not_mem_rowText (List.forall_mem_map.mpr fun entry inside => ?_)
  exact ((readable row listed).plain entry inside).expand.closing

/-! ## Rows -/

theorem splitEntries_expandedRow {row : List (List Char)} (readable : Readable row) :
    splitEntries (expandedRow row) = row.map expandFractions := by
  refine splitEntries_intercalate (by simpa using readable.nonempty) ?_
  exact List.forall_mem_map.mpr fun entry inside => (readable.plain entry inside).expand.comma

/-- The text of a row is read entry by entry. -/
theorem readRow_expandedRow {row : List (List Char)} (readable : Readable row) :
    ∃ numbers, readRow (expandedRow row) = .ok numbers ∧ numbers.length = row.length ∧
      ∀ c : Nat, numbers[c]? =
        row[c]?.bind fun entry => (Amplitude.ofLiteral (expandFractions entry)).toOption := by
  have accepted : ∀ text ∈ row.map expandFractions, ∃ z,
      (Amplitude.ofLiteral text).mapError (fun e => Error.badEntry e.text) = .ok z :=
    List.forall_mem_map.mpr fun entry inside => by
      simpa using readable.accepted entry inside
  obtain ⟨numbers, read⟩ := exists_mapM_eq_ok accepted
  refine ⟨numbers, ?_, ?_, fun c => ?_⟩
  · rw [readRow, splitEntries_expandedRow readable, read]
  · rw [← (mapM_eq_ok.mp read).length_eq, List.length_map]
  · rw [getElem?_of_mapM read, List.getElem?_map]
    cases row[c]? with
    | none => rfl
    | some entry => exact toOption_mapError

theorem ofLiteral_eq {text : String} {cs row : List Char} {rows : List (List Char)}
    (inner : inner? text.toList = some cs) (split : splitRows (expandFractions cs) = row :: rows) :
    ofLiteral text = readRow row >>= fun entries =>
      readRows ⟨1, entries.length, entries.toArray⟩ rows := by
  simp only [ofLiteral, inner, split]

/-- Rows of the length of the matrix are added to it. -/
theorem readRows_append {m : Matrix} {front : List (List Char)} {numbers : List (List Amplitude)}
    (read : front.mapM readRow = .ok numbers) (even : ∀ row ∈ numbers, row.length = m.columns)
    (behind : List (List Char)) :
    readRows m (front ++ behind) =
      readRows ⟨m.rows + numbers.length, m.columns, m.entries ++ numbers.flatten.toArray⟩
        behind := by
  induction mapM_eq_ok.mp read generalizing m with
  | nil => simp
  | @cons text row front numbers first rest ih =>
    have width : row.length = m.columns := even row List.mem_cons_self
    have added := @ih ⟨m.rows + 1, m.columns, m.entries ++ row.toArray⟩ (mapM_eq_ok.mpr rest)
      fun r mem => even r (List.mem_cons_of_mem row mem)
    rw [List.cons_append, readRows, first]
    show (if row.length = m.columns then _ else _) = _
    rw [if_pos width, added, List.length_cons, List.flatten_cons]
    simp only [← List.append_toArray, Array.append_assoc, Nat.add_assoc, Nat.add_comm 1]

/-- A row of another length is turned down. -/
theorem readRows_ragged {m : Matrix} {text : List Char} {row : List Amplitude}
    (read : readRow text = .ok row) (other : row.length ≠ m.columns) (behind : List (List Char)) :
    readRows m (text :: behind) = .error (.ragged m.rows row.length m.columns) := by
  rw [readRows, read]
  show (if row.length = m.columns then _ else _) = _
  rw [if_neg other]
  rfl

/-! ## Whole tables -/

section

variable {table : List (List (List Char))} (readable : ∀ row ∈ table, Readable row)

include readable

/-- The numbers of a table stand where their texts stood. -/
theorem mapM_readRow : ∃ numbers, (table.map expandedRow).mapM readRow = .ok numbers ∧
    numbers.length = table.length ∧ (∀ n, (∀ row ∈ table, row.length = n) →
      ∀ row ∈ numbers, row.length = n) ∧
    ∀ r c : Nat, numbers[r]?.bind (·[c]?) = table[r]?.bind fun row =>
      row[c]?.bind fun entry => (Amplitude.ofLiteral (expandFractions entry)).toOption := by
  have accepted : ∀ text ∈ table.map expandedRow, ∃ numbers, readRow text = .ok numbers :=
    List.forall_mem_map.mpr fun row listed =>
      (readRow_expandedRow (readable row listed)).imp fun _ read => read.1
  obtain ⟨numbers, read⟩ := exists_mapM_eq_ok accepted
  refine ⟨numbers, read, ?_, fun n even => ?_, fun r c => ?_⟩
  · rw [← (mapM_eq_ok.mp read).length_eq, List.length_map]
  · intro row mem
    obtain ⟨text, written, readText⟩ := exists_of_mem_mapM read mem
    obtain ⟨source, listed, rfl⟩ := List.mem_map.mp written
    obtain ⟨same, readSource, length, -⟩ := readRow_expandedRow (readable source listed)
    cases readText.symm.trans readSource
    rw [length, even source listed]
  · rw [getElem?_of_mapM read, List.getElem?_map]
    cases found : table[r]? with
    | none => rfl
    | some row =>
      obtain ⟨same, readText, -, entries⟩ :=
        readRow_expandedRow (readable row (List.mem_of_getElem? found))
      simp only [Option.map_some, Option.bind_some, readText, Except.toOption, entries]

/-- The literal of a table is read by adding its rows to a matrix that has none yet, but as many
columns as the first row has entries. -/
theorem ofLiteral_literal {first : List (List Char)} {rows : List (List (List Char))}
    (start : table = first :: rows) :
    ofLiteral (literal table) = readRows ⟨0, first.length, #[]⟩ (table.map expandedRow) := by
  have inner : inner? (literal table).toList = some (rowBreak.intercalate (table.map rowText)) := by
    rw [literal, String.toList_ofList, inner?_braced]
  have split := splitRows_expandFractions (start ▸ List.cons_ne_nil first rows) readable
  subst start
  rw [List.map_cons] at split
  obtain ⟨numbers, read, length, -⟩ :=
    readRow_expandedRow (readable first List.mem_cons_self)
  rw [ofLiteral_eq inner split, List.map_cons, readRows, read]
  show readRows _ _ = if numbers.length = first.length then _ else _
  rw [if_pos length, length]
  simp

end

/-! ## Matrices -/

/-- Rows of one length, one behind the other: where the entry of a row and column stands. -/
theorem getElem?_flatten {rows : List (List Amplitude)} {n : Nat}
    (even : ∀ row ∈ rows, row.length = n) {c : Nat} (inside : c < n) (r : Nat) :
    rows.flatten[r * n + c]? = rows[r]?.bind (·[c]?) := by
  induction rows generalizing r with
  | nil => simp
  | cons row rows ih =>
    have length : row.length = n := even row List.mem_cons_self
    rw [List.flatten_cons]
    cases r with
    | zero => rw [Nat.zero_mul, Nat.zero_add, List.getElem?_append_left (by omega)]; rfl
    | succ r =>
      have behind : row.length ≤ (r + 1) * n + c := by rw [Nat.succ_mul]; omega
      have place : (r + 1) * n + c - row.length = r * n + c := by rw [Nat.succ_mul]; omega
      rw [List.getElem?_append_right behind, place,
        ih fun other mem => even other (List.mem_cons_of_mem row mem)]
      rfl

/-- The matrix has the numbers that the texts of a table spell, each at its place. -/
structure SpelledBy (table : List (List (List Char))) (m : Matrix) : Prop where
  rows : m.rows = table.length
  columns : ∀ row ∈ table, row.length = m.columns
  size : m.entries.size = m.rows * m.columns
  inside : ∀ r c row entry, table[r]? = some row → row[c]? = some entry →
    ∃ z, Amplitude.ofLiteral (expandFractions entry) = .ok z ∧ m.get? r c = some z
  outside : ∀ r c, ¬(r < m.rows ∧ c < m.columns) → m.get? r c = none

section

variable {table : List (List (List Char))} (nonempty : table ≠ [])
  (readable : ∀ row ∈ table, Readable row)

include nonempty readable

theorem ofLiteral_rectangular (rectangular : Rectangular table) :
    ∃ m, ofLiteral (literal table) = .ok m ∧ m.SpelledBy table := by
  obtain ⟨first, rows, start⟩ := List.exists_cons_of_ne_nil nonempty
  obtain ⟨n, even⟩ := rectangular
  have width : first.length = n := even first (start ▸ List.mem_cons_self)
  obtain ⟨numbers, read, height, lengths, entries⟩ := mapM_readRow readable
  have result : ofLiteral (literal table) = .ok ⟨numbers.length, n, numbers.flatten.toArray⟩ := by
    have whole := @readRows_append ⟨0, n, #[]⟩ _ _ read (lengths n even) []
    rw [List.append_nil] at whole
    rw [ofLiteral_literal readable start, width, whole, readRows, Nat.zero_add, Array.empty_append]
  refine ⟨_, result, height, even, whole_of_ofLiteral result, ?_,
    fun r c outside => if_neg outside⟩
  intro r c row entry inRow inColumn
  have mem : row ∈ table := List.mem_of_getElem? inRow
  obtain ⟨z, value⟩ := (readable row mem).accepted entry (List.mem_of_getElem? inColumn)
  obtain ⟨hr, -⟩ := List.getElem?_eq_some_iff.mp inRow
  obtain ⟨hc, -⟩ := List.getElem?_eq_some_iff.mp inColumn
  rw [even row mem] at hc
  have place : r < numbers.length ∧ c < n := ⟨height ▸ hr, hc⟩
  refine ⟨z, value, ?_⟩
  rw [get?, if_pos place, List.getElem?_toArray, getElem?_flatten (lengths n even) hc, entries,
    inRow, Option.bind_some, inColumn, Option.bind_some, value]
  rfl

/-- The first row of another length than the rows before it is at fault. -/
theorem ofLiteral_ragged (ragged : ¬Rectangular table) :
    ∃ front row behind n, table = front ++ row :: behind ∧ front ≠ [] ∧
      (∀ r ∈ front, r.length = n) ∧ row.length ≠ n ∧
      ofLiteral (literal table) = .error (.ragged front.length row.length n) := by
  obtain ⟨first, rows, start⟩ := List.exists_cons_of_ne_nil nonempty
  let n := first.length
  have other : (table.find? fun row => row.length ≠ n).isSome = true := by
    rw [List.find?_isSome]
    by_contra none
    exact ragged ⟨n, fun row mem => by simpa using fun other => none ⟨row, mem, other⟩⟩
  obtain ⟨row, found⟩ := Option.isSome_iff_exists.mp other
  obtain ⟨different, front, behind, split, before⟩ := List.find?_eq_some_iff_append.mp found
  have length : row.length ≠ n := of_decide_eq_true different
  have even : ∀ r ∈ front, r.length = n := fun r mem => by simpa using before r mem
  refine ⟨front, row, behind, n, split, ?_, even, length, ?_⟩
  · rintro rfl
    cases start.symm.trans split
    exact length rfl
  have inFront : ∀ r ∈ front, Readable r := fun r mem =>
    readable r (split ▸ List.mem_append_left _ mem)
  obtain ⟨numbers, read, height, lengths, -⟩ := mapM_readRow inFront
  obtain ⟨last, readLast, lastLength, -⟩ :=
    readRow_expandedRow (readable row (split ▸ List.mem_append_right _ List.mem_cons_self))
  have turnedDown : last.length ≠ n := lastLength ▸ length
  rw [ofLiteral_literal readable start, split, List.map_append, List.map_cons,
    readRows_append read (lengths n even), readRows_ragged readLast turnedDown, height, lastLength,
    Nat.zero_add]

/-- A table of texts that each spell a number is written down and read back: as a matrix exactly
when all rows have the same length, and else with an error that tells the first row of another
length. The matrix has the rows and columns of the table, and at each place the number that the
text at this place spells. -/
theorem ofLiteral_entry_by_entry :
    ((∃ m, ofLiteral (literal table) = .ok m) ↔ Rectangular table) ∧
      (¬Rectangular table → ∃ front row behind n, table = front ++ row :: behind ∧ front ≠ [] ∧
        (∀ r ∈ front, r.length = n) ∧ row.length ≠ n ∧
        ofLiteral (literal table) = .error (.ragged front.length row.length n)) ∧
      ∀ m, ofLiteral (literal table) = .ok m → m.SpelledBy table := by
  have accepted := ofLiteral_rectangular nonempty readable
  have refused := ofLiteral_ragged nonempty readable
  have rectangular (m : Matrix) (read : ofLiteral (literal table) = .ok m) : Rectangular table := by
    by_contra ragged
    obtain ⟨front, row, behind, n, -, -, -, -, error⟩ := refused ragged
    cases read.symm.trans error
  refine ⟨⟨fun ⟨m, read⟩ => rectangular m read, fun even => ?_⟩, refused, fun m read => ?_⟩
  · obtain ⟨m, read, -⟩ := accepted even
    exact ⟨m, read⟩
  · obtain ⟨same, readSame, spelled⟩ := accepted (rectangular m read)
    cases read.symm.trans readSame
    exact spelled

end

/-- A literal spells the value of the expression that its tokens derive. -/
theorem ofLiteral_of_derives {text literal : List Char} {ts : List Formula.Token} {e : Expr}
    {z : Amplitude} (written : Amplitude.withFactor (Text.trim text) = literal)
    (scanned : Formula.scan literal = .ok ts) (derives : Formula.Derives .sum ts e)
    (value : Amplitude.ofExpr? e = some z) : Amplitude.ofLiteral text = .ok z := by
  have parsed : Formula.parse literal = .ok e := by
    rw [Formula.parse, Formula.tokens, scanned]
    exact Formula.parseTokens_of_derives derives
  simp only [Amplitude.ofLiteral, written, parsed, value]

/-- Texts that each spell a number. -/
def someEntries : List (List Char) := ["½".toList, "-i".toList, "i".toList, "√½".toList]

theorem accepted_someEntries :
    ∀ entry ∈ someEntries, ∃ z, Amplitude.ofLiteral (expandFractions entry) = .ok z := by
  have half : Formula.Derives .sum [.number 1, .slash, .number 2]
      (.binary .div (.constant 1) (.constant 2)) :=
    .product (.div (.signed (.primary (.number 1))) (.primary (.number 2)))
  have known : Elementary.ofName? "sqrt" = some .sqrt := by decide
  have root := Formula.Derives.call known half
  have unit : Formula.Derives .signed [.name "i"] (.symbol "i") :=
    .primary (.symbol (by decide))
  have spells {entry text : List Char} {ts : List Formula.Token} {e : Expr}
      (written : Amplitude.withFactor (Text.trim (expandFractions entry)) = text)
      (scanned : (Formula.scan text).toOption = some ts) (derives : Formula.Derives .sum ts e)
      (known : (Amplitude.ofExpr? e).isSome = true) :
      ∃ z, Amplitude.ofLiteral (expandFractions entry) = .ok z :=
    (Option.isSome_iff_exists.mp known).imp fun z =>
      ofLiteral_of_derives written (toOption_eq_some.mp scanned) derives
  have written : someEntries.map (fun entry => Amplitude.withFactor (Text.trim
      (expandFractions entry))) = ["(1/2)", "-i", "i", "(sqrt(1/2))"].map String.toList := by
    decide
  simp only [someEntries, List.map_cons, List.map_nil, List.cons.injEq, and_true] at written
  obtain ⟨first, second, third, fourth⟩ := written
  intro entry mem
  simp only [someEntries, List.mem_cons, List.not_mem_nil, or_false] at mem
  rcases mem with rfl | rfl | rfl | rfl
  · exact spells first (by decide +kernel) (.product (.signed (.primary (.bracket half))))
      (by decide +kernel)
  · exact spells second (by decide +kernel) (.product (.signed (.neg unit))) (by decide +kernel)
  · exact spells third (by decide +kernel) (.product (.signed unit)) (by decide +kernel)
  · exact spells fourth (by decide +kernel)
      (.product (.signed (.primary (.bracket (.product (.signed (.primary root)))))))
      (by decide +kernel)

theorem readable_someEntries {row : List (List Char)} (nonempty : row ≠ [])
    (listed : ∀ entry ∈ row, entry ∈ someEntries) : Readable row where
  nonempty := nonempty
  plain entry mem := by
    have plain : ∀ entry ∈ someEntries, '{' ∉ entry ∧ '}' ∉ entry ∧ ',' ∉ entry := by decide
    obtain ⟨opening, closing, comma⟩ := plain entry (listed entry mem)
    exact ⟨opening, closing, comma⟩
  accepted entry mem := accepted_someEntries entry (listed entry mem)

def evenTable : List (List (List Char)) :=
  [["½".toList, "-i".toList], ["i".toList, "√½".toList]]

def raggedTable : List (List (List Char)) := [["i".toList], ["½".toList, "√½".toList]]

theorem readable_tables : ∀ row ∈ evenTable ++ raggedTable, Readable row := by
  have listed : ∀ row ∈ evenTable ++ raggedTable,
      row ≠ [] ∧ ∀ entry ∈ row, entry ∈ someEntries := by
    decide
  exact fun row mem => readable_someEntries (listed row mem).1 (listed row mem).2

/-- Two rows of two entries are a matrix; of a row with one entry and a row with two, the second
is at fault. -/
theorem ofLiteral_entry_by_entry_glyphs :
    (∃ m, ofLiteral (literal evenTable) = .ok m ∧ m.SpelledBy evenTable) ∧
      ofLiteral (literal raggedTable) = .error (.ragged 1 2 1) := by
  constructor
  · obtain ⟨accepts, -, spelled⟩ := @ofLiteral_entry_by_entry evenTable (by decide)
      fun row mem => readable_tables row (List.mem_append_left _ mem)
    obtain ⟨m, read⟩ := accepts.mpr ⟨2, by decide⟩
    exact ⟨m, read, spelled m read⟩
  · obtain ⟨-, refused, -⟩ := @ofLiteral_entry_by_entry raggedTable (by decide)
      fun row mem => readable_tables row (List.mem_append_right _ mem)
    have ragged : ¬Rectangular raggedTable := by
      rintro ⟨n, even⟩
      have first : 1 = n := even _ List.mem_cons_self
      have second : 2 = n := even _ (List.mem_cons_of_mem _ List.mem_cons_self)
      omega
    obtain ⟨front, row, behind, n, split, nonempty, even, -, error⟩ := refused ragged
    rcases front with _ | ⟨first, _ | ⟨second, front⟩⟩
    · exact absurd rfl nonempty
    · cases split
      cases even _ List.mem_cons_self
      exact error
    · have := congrArg List.length split
      simp [raggedTable] at this

end QuantumBoard.Matrix
