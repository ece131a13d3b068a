import ResourceLang.HexDump
import ResourceLang.Proofs.PrintedDigits

/-!
Hex dumps read back. A dump is a line for every sixteen bytes, and everything in a line stands in a
column of its own: the offset in front, then the digits, and the characters behind them. So the
bytes are read off the columns, whatever the characters look like, and no two lists of bytes have
one dump.
-/

set_option autoImplicit false
set_option relaxedAutoImplicit false

namespace ResourceLang.Proofs.DumpedRows

open Text Token.Scan HexDump PairedDigits PrintedDigits

/-! ### Reading a dump -/

/-- The lines of a text, without the line feeds that end them. -/
def linesOf : List Char → List (List Char)
  | [] => []
  | c :: cs =>
    if c = '\n' then [] :: linesOf cs
    else
      match linesOf cs with
      | [] => [[c]]
      | line :: lines => (c :: line) :: lines

/-- The byte that stands in a column, if digits stand there. -/
def byteIn : List Char → Option UInt8
  | [high, low] => if isHexDigit high && isHexDigit low then some (byteOf high low) else none
  | _ => none

/-- The bytes of so many columns, each of which is two characters wide and a third from the next. -/
def bytesIn : (columns : Nat) → List Char → List UInt8
  | 0, _ => []
  | columns + 1, cs => (byteIn (cs.take 2)).toList ++ bytesIn columns (cs.drop 3)

/-- The bytes of a line of a dump. -/
def readLine (line : List Char) : List UInt8 := bytesIn 16 (line.drop 10)

/-- A character stands for a byte in a dump: the graphic characters of ASCII and the space for
themselves, and the dot for all other bytes. -/
def ShownAs (b : UInt8) (c : Char) : Prop :=
  if 0x21 ≤ b.toNat ∧ b.toNat ≤ 0x7E ∨ b = 0x20 then c.toNat = b.toNat else c = '.'

/-- A line is the row of some bytes, with so many rows before it. -/
structure IsRow (before : Nat) (bytes : List UInt8) (line : List Char) : Prop where
  offset : Prints 8 (16 * before) (line.take 8)
  digits : readLine line = bytes
  characters : List.Forall₂ ShownAs bytes (line.drop 59)

/-- A text is the rows of some bytes, sixteen in a row, with so many rows before. A line feed is
behind each row, and only the last row may be shorter. -/
structure AreRows (before : Nat) (bytes : List UInt8) (text : List Char) : Prop where
  ended : text = (linesOf text).flatMap (· ++ ['\n'])
  length : (linesOf text).length = (bytes.length + 15) / 16
  row : ∀ r line, (linesOf text)[r]? = some line →
    IsRow (before + r) ((bytes.drop (16 * r)).take 16) line
  read : (linesOf text).flatMap readLine = bytes

theorem linesOf_append {line : List Char} (h : '\n' ∉ line) (rest : List Char) :
    linesOf (line ++ '\n' :: rest) = line :: linesOf rest := by
  induction line with
  | nil => rfl
  | cons c line ih =>
    rw [List.cons_append, linesOf, if_neg (List.ne_of_not_mem_cons h).symm,
      ih (List.not_mem_of_not_mem_cons h)]

/-! ### Digits in columns -/

theorem length_cell (b : UInt8) : (cell b).length = 3 := by
  rw [cell, List.length_append, (@prints_hex 2 b.toNat (by decide) b.toNat_lt).length]
  rfl

theorem length_flatMap_cell (bytes : List UInt8) :
    (bytes.flatMap cell).length = 3 * bytes.length := by
  induction bytes with
  | nil => rfl
  | cons b bytes ih =>
    rw [List.flatMap_cons, List.length_append, length_cell, ih, List.length_cons]
    omega

/-- Bytes in digits, and blanks in the columns that are left. -/
def cells (columns : Nat) (bytes : List UInt8) : List Char :=
  (bytes.flatMap cell).rightpad (3 * columns) ' '

theorem length_cells {columns : Nat} {bytes : List UInt8} (h : bytes.length ≤ columns) :
    (cells columns bytes).length = 3 * columns := by
  rw [cells, List.length_rightpad, length_flatMap_cell]
  omega

theorem cells_cons (columns : Nat) (b : UInt8) (bytes : List UInt8) :
    cells (columns + 1) (b :: bytes) = cell b ++ cells columns bytes := by
  have hmissing : 3 * (columns + 1) - (3 + (bytes.flatMap cell).length) =
      3 * columns - (bytes.flatMap cell).length := by omega
  rw [cells, cells, List.flatMap_cons, List.rightpad, List.rightpad, List.length_append,
    length_cell, hmissing, List.append_assoc]

theorem cells_nil (columns : Nat) :
    cells (columns + 1) [] = ' ' :: ' ' :: ' ' :: cells columns [] := by
  rw [cells, cells, List.flatMap_nil, List.rightpad, List.rightpad, List.nil_append,
    List.nil_append, Nat.mul_succ]
  rfl

theorem bytesIn_cells {columns : Nat} {bytes : List UInt8} (h : bytes.length ≤ columns)
    (rest : List Char) :
    bytesIn columns (cells columns bytes ++ rest) = bytes := by
  induction columns generalizing bytes with
  | zero => rw [List.eq_nil_of_length_eq_zero (Nat.le_zero.mp h), bytesIn]
  | succ columns ih =>
    cases bytes with
    | nil =>
      rw [cells_nil, bytesIn]
      exact ih (Nat.zero_le _)
    | cons b bytes =>
      obtain ⟨high, low, hpair, hhigh, hlow, hbyte⟩ := hex_byte b
      have hfirst : byteIn [high, low] = some b := by
        simp [byteIn, isHexDigit_of_mem hhigh, isHexDigit_of_mem hlow, hbyte]
      rw [cells_cons, cell, hpair, bytesIn]
      exact congrArg₂ (·.toList ++ ·) hfirst (ih (Nat.le_of_succ_le_succ h))

/-! ### One row -/

theorem shownAs_shown (b : UInt8) : ShownAs b (shown b) := by
  have hascii : (0x20 ≤ b ∧ b ≤ 0x7E) ↔ 0x21 ≤ b.toNat ∧ b.toNat ≤ 0x7E ∨ b = 0x20 := by
    rw [UInt8.le_iff_toNat_le, UInt8.le_iff_toNat_le, ← UInt8.toNat_inj]
    simp only [UInt8.reduceToNat]
    omega
  rw [ShownAs, shown]
  simp only [hascii]
  split_ifs
  · exact Utf8Reading.toNat_ofNat_byte b
  · rfl

theorem forall₂_map_shown (bytes : List UInt8) : List.Forall₂ ShownAs bytes (bytes.map shown) := by
  rw [List.forall₂_map_right_iff, List.forall₂_same]
  exact fun b _ ↦ shownAs_shown b

theorem shown_ne_newline (b : UInt8) : shown b ≠ '\n' := by
  intro hb
  have hshown := shownAs_shown b
  rw [hb, ShownAs] at hshown
  split_ifs at hshown with hrange
  · have hnewline : b.toNat = 10 := hshown.symm
    rcases hrange with hrange | rfl
    · omega
    · cases hnewline
  · cases hshown

/-- The characters of a row, the line feed behind them apart. -/
def rowLine (offset : Nat) (bytes : List UInt8) : List Char :=
  Numeral.hex 8 offset ++ ([' ', ' '] ++ (cells 16 bytes ++ ' ' :: bytes.map shown))

theorem row_eq (offset : Nat) (bytes : List UInt8) :
    row offset bytes = rowLine offset bytes ++ ['\n'] := by
  simp [row, rowLine, cells, rowSize]

theorem newline_notMem_cells (columns : Nat) (bytes : List UInt8) : '\n' ∉ cells columns bytes := by
  rw [cells, List.rightpad, List.mem_append, not_or, List.mem_flatMap, not_exists]
  refine ⟨fun b hb ↦ ?_, fun hpad ↦ nomatch List.eq_of_mem_replicate hpad⟩
  obtain ⟨high, low, hpair, hhigh, hlow, -⟩ := hex_byte b
  have hcell : cell b = [high, low, ' '] := by rw [cell, hpair]; rfl
  rw [hcell] at hb
  have hchar := hb.2
  simp only [List.mem_cons, List.not_mem_nil, or_false] at hchar
  rcases hchar with rfl | rfl | hspace
  · exact absurd hhigh (by decide)
  · exact absurd hlow (by decide)
  · cases hspace

section Row

variable {offset : Nat} {bytes : List UInt8}

theorem newline_notMem_rowLine (h : offset < 2 ^ 32) : '\n' ∉ rowLine offset bytes := by
  have hoffset : '\n' ∉ Numeral.hex 8 offset := fun hmem ↦
    absurd ((@prints_hex 8 offset (by decide) h).lower _ hmem) (by decide)
  have hshown : '\n' ∉ bytes.map shown := by simp [shown_ne_newline]
  simp [rowLine, hoffset, hshown, newline_notMem_cells]

theorem isRow_rowLine {before : Nat} (hoffset : 16 * before < 2 ^ 32)
    (hlength : bytes.length ≤ 16) :
    IsRow before bytes (rowLine (16 * before) bytes) := by
  have hprints := @prints_hex 8 (16 * before) (by decide) hoffset
  have hdigits : (rowLine (16 * before) bytes).drop 10 = cells 16 bytes ++ ' ' ::
      bytes.map shown := by
    rw [rowLine, ← List.append_assoc, List.drop_left']
    rw [List.length_append, hprints.length]
    rfl
  have htext : (rowLine (16 * before) bytes).drop 59 = bytes.map shown := by
    have hdrop := congrArg (List.drop 49) hdigits
    rw [List.drop_drop] at hdrop
    rw [hdrop, List.append_cons, List.drop_left']
    rw [List.length_append, length_cells hlength]
    rfl
  refine ⟨?_, ?_, ?_⟩
  · rwa [rowLine, List.take_left' hprints.length]
  · rw [readLine, hdigits, bytesIn_cells hlength]
  · rw [htext]
    exact forall₂_map_shown bytes

/-- Where two rows of one offset begin two texts that are the same, they are the same row. -/
theorem row_append_inj {other : List UInt8} {rest otherRest : List Char}
    (hlength : bytes.length ≤ 16) (hother : other.length ≤ 16)
    (h : row offset bytes ++ rest = row offset other ++ otherRest) :
    bytes = other ∧ rest = otherRest := by
  rw [row_eq, row_eq] at h
  simp only [rowLine, List.append_assoc, List.append_cancel_left_eq] at h
  have hread := congrArg (bytesIn 16) h
  rw [bytesIn_cells hlength, bytesIn_cells hother] at hread
  subst hread
  simpa using h

end Row

/-! ### All rows -/

theorem rowsFrom_of_ne_nil (offset : Nat) {bytes : List UInt8} (h : bytes ≠ []) :
    rowsFrom offset bytes = row offset (bytes.take 16) ++
      rowsFrom (offset + 16) (bytes.drop 16) := by
  obtain ⟨b, bytes, rfl⟩ := List.exists_cons_of_ne_nil h
  rw [rowsFrom, rowSize]

theorem rowsFrom_eq_nil_iff {offset : Nat} {bytes : List UInt8} :
    rowsFrom offset bytes = [] ↔ bytes = [] := by
  refine ⟨fun h ↦ ?_, fun h ↦ by rw [h, rowsFrom]⟩
  by_contra hne
  rw [rowsFrom_of_ne_nil offset hne, row_eq] at h
  simp at h

theorem rowsFrom_injective (offset : Nat) : Function.Injective (rowsFrom offset) := by
  intro bytes other h
  induction hn : bytes.length using Nat.strong_induction_on generalizing offset bytes other with
  | _ n ih =>
    subst hn
    by_cases hnil : bytes = []
    · rw [rowsFrom_eq_nil_iff.mpr hnil] at h
      rw [hnil, rowsFrom_eq_nil_iff.mp h.symm]
    · have hother : other ≠ [] := mt rowsFrom_eq_nil_iff.mpr (h ▸ mt rowsFrom_eq_nil_iff.mp hnil)
      have hpos := List.length_pos_iff.mpr hnil
      rw [rowsFrom_of_ne_nil offset hnil, rowsFrom_of_ne_nil offset hother] at h
      obtain ⟨htake, hrest⟩ :=
        row_append_inj (List.length_take_le 16 _) (List.length_take_le 16 _) h
      have hdrop :=
        ih (bytes.drop 16).length (by rw [List.length_drop]; omega) (offset + 16) hrest rfl
      rw [← List.take_append_drop 16 bytes, htake, hdrop, List.take_append_drop]

theorem areRows_nil (before : Nat) : AreRows before [] [] where
  ended := rfl
  length := rfl
  row _ _ h := nomatch h
  read := rfl

theorem areRows_row_append {before : Nat} {bytes : List UInt8} {rest : List Char} (hne : bytes ≠ [])
    (hoffset : 16 * before < 2 ^ 32) (h : AreRows (before + 1) (bytes.drop 16) rest) :
    AreRows before bytes (row (16 * before) (bytes.take 16) ++ rest) := by
  have hrow := isRow_rowLine hoffset (List.length_take_le 16 bytes)
  have hlines : linesOf (row (16 * before) (bytes.take 16) ++ rest) =
      rowLine (16 * before) (bytes.take 16) :: linesOf rest := by
    rw [row_eq, List.append_assoc]
    exact linesOf_append (newline_notMem_rowLine hoffset) rest
  refine ⟨?_, ?_, ?_, ?_⟩
  · rw [hlines, List.flatMap_cons, ← h.ended, row_eq]
  · have hpos := List.length_pos_iff.mpr hne
    rw [hlines, List.length_cons, h.length, List.length_drop]
    omega
  · intro r line hline
    rw [hlines] at hline
    cases r with
    | zero =>
      obtain rfl := Option.some.inj hline
      exact hrow
    | succ r =>
      have hlater := h.row r line hline
      have hdropped : 16 + 16 * r = 16 * (r + 1) := by omega
      rwa [List.drop_drop, hdropped, Nat.add_assoc, Nat.add_comm 1 r] at hlater
  · rw [hlines, List.flatMap_cons, hrow.digits, h.read, List.take_append_drop]

theorem areRows_rowsFrom {before : Nat} {bytes : List UInt8}
    (h : 16 * before + bytes.length ≤ 2 ^ 32) :
    AreRows before bytes (rowsFrom (16 * before) bytes) := by
  induction hn : bytes.length using Nat.strong_induction_on generalizing before bytes with
  | _ n ih =>
    subst hn
    by_cases hnil : bytes = []
    · rw [rowsFrom_eq_nil_iff.mpr hnil, hnil]
      exact areRows_nil before
    · have hpos := List.length_pos_iff.mpr hnil
      rw [rowsFrom_of_ne_nil _ hnil]
      refine areRows_row_append hnil (by omega) ?_
      have hrest : (bytes.drop 16).length < bytes.length := by rw [List.length_drop]; omega
      have hoffset : 16 * (before + 1) + (bytes.drop 16).length ≤ 2 ^ 32 := by
        rw [List.length_drop]; omega
      exact ih _ hrest hoffset rfl

/-- No two lists of bytes have one dump, and where the offsets of a dump have room in their column,
its bytes are read off the columns of its rows. -/
theorem injective_render_and_areRows : Function.Injective render ∧
    ∀ bytes : List UInt8, bytes.length < 2 ^ 32 → AreRows 0 bytes (render bytes).toList := by
  constructor
  · intro bytes other h
    exact rowsFrom_injective 0 (String.ofList_injective h)
  · intro bytes hlength
    rw [render, String.toList_ofList]
    exact areRows_rowsFrom (by omega)

/-- Characters that look like digits, and a character whose second byte begins another row. -/
theorem areRows_render_seventeen :
    (Utf8.bytes "41 42 43 44 45 é").length < 2 ^ 32 ∧
      AreRows 0 (Utf8.bytes "41 42 43 44 45 é")
        ("00000000  34 31 20 34 32 20 34 33 20 34 34 20 34 35 20 c3  41 42 43 44 45 .\n".toList ++
          "00000010  a9                                               .\n".toList) := by
  have hrender : (render (Utf8.bytes "41 42 43 44 45 é")).toList =
      "00000000  34 31 20 34 32 20 34 33 20 34 34 20 34 35 20 c3  41 42 43 44 45 .\n".toList ++
        "00000010  a9                                               .\n".toList := by
    rw [render, String.toList_ofList, rowsFrom_of_ne_nil 0 (by decide),
      rowsFrom_of_ne_nil _ (by decide), rowsFrom_eq_nil_iff.mpr (by decide), List.append_nil]
    exact congrArg₂ (· ++ ·) (by decide) (by decide)
  rw [← hrender]
  exact ⟨by decide, injective_render_and_areRows.2 _ (by decide)⟩

end ResourceLang.Proofs.DumpedRows
