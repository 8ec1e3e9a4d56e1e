import Pipewright.Diagnostic
import Pipewright.Proofs.LineTables

set_option autoImplicit false

namespace Pipewright

open Text

namespace Text

def tryDrop : List Char → Nat → Option (List Char)
  | [], n => if n = 0 then some [] else none
  | c :: cs, n => if n = 0 then some (c :: cs) else (n.psub c.utf8Size).bind (tryDrop cs)

def tryTake : List Char → Nat → Option (List Char)
  | [], n => if n = 0 then some [] else none
  | c :: cs, n =>
      if n = 0 then some []
      else (n.psub c.utf8Size).bind fun rest => (tryTake cs rest).map (c :: ·)

theorem psub_add_left (m n : Nat) : (m + n).psub m = some n :=
  Nat.psub_eq_some.mpr (Nat.add_comm n m)

theorem byteSize_cons_ne_zero (c : Char) (cs : List Char) : c.utf8Size + byteSize cs ≠ 0 := by
  have := c.utf8Size_pos
  omega

theorem tryDrop_append (cs ds : List Char) : tryDrop (cs ++ ds) (byteSize cs) = some ds := by
  induction cs with
  | nil => cases ds <;> simp [tryDrop]
  | cons c cs ih =>
      rw [List.cons_append, tryDrop, byteSize_cons, if_neg (byteSize_cons_ne_zero c cs),
        psub_add_left]
      exact ih

theorem tryTake_append (cs ds : List Char) : tryTake (cs ++ ds) (byteSize cs) = some cs := by
  induction cs with
  | nil => cases ds <;> simp [tryTake]
  | cons c cs ih =>
      rw [List.cons_append, tryTake, byteSize_cons, if_neg (byteSize_cons_ne_zero c cs),
        psub_add_left, Option.bind_some, ih]
      rfl

def trySlice (cs : List Char) (start stop : Nat) : Option (List Char) := do
  let rest ← tryDrop cs start
  let size ← stop.psub start
  tryTake rest size

theorem trySlice_append (before cs after : List Char) :
    trySlice (before ++ (cs ++ after)) (byteSize before) (byteSize before + byteSize cs) =
      some cs := by
  simp only [trySlice, tryDrop_append, psub_add_left, Option.bind_eq_bind, Option.bind_some,
    tryTake_append]

def LineTable.tryLineText (table : LineTable) (text : List Char) (line : Nat) :
    Option (List Char) := do
  let range? ← table.tryLineRange line
  let range ← range?
  trySlice text range.1 range.2

end Text

-- Only the lengths of the rows below two lines may be cut off at zero.
def tryPointer (text : List Char) (lines : LineTable) (span : Span) : Option (List String) := do
  let first ← lines.tryPosition span.start
  let last ← lines.tryPosition span.stop
  if span.isEmpty then
    let line ← lines.tryLineText text first.line
    some [String.ofList line, spaces first.column ++ "^"]
  else if first.line = last.line then
    let line ← lines.tryLineText text first.line
    let width ← last.column.psub first.column
    some [String.ofList line, spaces first.column ++ tildes width]
  else
    let firstLine ← lines.tryLineText text first.line
    let lastLine ← lines.tryLineText text last.line
    some [String.ofList firstLine,
      spaces first.column ++ "^" ++ tildes (byteSize firstLine - (first.column + 1)),
      String.ofList lastLine,
      tildes (last.column - 1) ++ "^"]

structure StandsOn (text : List Char) (offset : Nat) (place : Position) (line : List Char) :
    Prop where
  reads : (text.splitOn '\n')[place.line]? = some line
  offset : offset = byteSize (linesBefore text place.line) + place.column
  column : place.column ≤ byteSize line

theorem exists_standsOn {text : List Char} {offset : Nat} (inside : offset ≤ byteSize text) :
    ∃ line, StandsOn text offset ((LineTable.ofText text).position offset) line := by
  obtain ⟨⟨-, start, stop, found, column⟩, back⟩ :=
    (LineTable.increasing_ofText text).offset_position inside
  obtain ⟨line, delimits⟩ := LineTable.delimits_of_lineRange? found
  rw [LineTable.offset_eq found, delimits.begins] at back
  have := delimits.ends
  exact ⟨line, delimits.reads, back.symm, by omega⟩

theorem StandsOn.exists_append {text line : List Char} {offset : Nat} {place : Position}
    (stands : StandsOn text offset place line) :
    ∃ before after, text = before ++ (line ++ after) ∧
      byteSize before = byteSize (linesBefore text place.line) :=
  ⟨_, _, eq_linesBefore_append stands.reads, rfl⟩

theorem StandsOn.lineText {text line : List Char} {offset : Nat} {place : Position}
    (stands : StandsOn text offset place line) :
    (LineTable.ofText text).lineText text place.line = line ∧
      (LineTable.ofText text).tryLineText text place.line = some line := by
  have range := LineTable.lineRange?_ofText text place.line
  have checked := (LineTable.increasing_ofText text).tryLineRange_eq place.line
  obtain ⟨before, after, whole, size⟩ := stands.exists_append
  rw [stands.reads, Option.map_some, ← size] at range
  rw [range] at checked
  have cut := slice_append before line after
  have tried := trySlice_append before line after
  rw [← whole] at cut tried
  constructor
  · simp only [LineTable.lineText, range, cut]
  · simp only [LineTable.tryLineText, checked, Option.bind_eq_bind, Option.bind_some, tried]

theorem StandsOn.take_bytes {text line : List Char} {offset size : Nat} {place : Position}
    (stands : StandsOn text offset place line) (fits : place.column + size ≤ byteSize line) :
    ((bytes line).drop place.column).take size = ((bytes text).drop offset).take size := by
  obtain ⟨before, after, whole, placed⟩ := stands.exists_append
  have inLine : place.column ≤ (bytes line).length := by
    rw [length_bytes]
    omega
  have enough : size ≤ ((bytes line).drop place.column).length := by
    rw [List.length_drop, length_bytes]
    omega
  rw [stands.offset, ← placed, whole, bytes_append, bytes_append, ← length_bytes before,
    List.drop_length_add_append, List.drop_append_of_le_length inLine,
    List.take_append_of_le_length enough]

/-- The row has marks on the columns from `low` up to `high` and blanks before them. The mark on
column `caret` is a caret, and the others are tildes. -/
def Marks (row : String) (low high caret : Nat) : Prop :=
  ∀ column, row.toList[column]? =
    if column < low then some ' '
    else if column < high then some (if column = caret then '^' else '~')
    else none

theorem marks_first (column size : Nat) :
    Marks (spaces column ++ "^" ++ tildes (size - (column + 1))) column (max size (column + 1))
      column := by
  intro i
  simp only [spaces, tildes, String.toList_append, String.toList_ofList]
  grind

theorem marks_last (column : Nat) :
    Marks (tildes (column - 1) ++ "^") 0 (max column 1) (max column 1 - 1) := by
  intro i
  simp only [tildes, String.toList_append, String.toList_ofList]
  grind

inductive Points (text : List Char) (span : Span) : List String → Prop
  | empty {place : Position} {line : List Char} :
      span.size = 0 → StandsOn text span.start place line →
        Points text span [String.ofList line, spaces place.column ++ "^"]
  | within {first last : Position} {line : List Char} :
      span.size ≠ 0 → StandsOn text span.start first line → StandsOn text span.stop last line →
      first.line = last.line →
      ((bytes line).drop first.column).take span.size =
        ((bytes text).drop span.start).take span.size →
        Points text span [String.ofList line, spaces first.column ++ tildes span.size]
  | across {first last : Position} {firstLine lastLine : List Char} {upper lower : String} :
      StandsOn text span.start first firstLine → StandsOn text span.stop last lastLine →
      first.line ≠ last.line →
      Marks upper first.column (max (byteSize firstLine) (first.column + 1)) first.column →
      Marks lower 0 (max last.column 1) (max last.column 1 - 1) →
        Points text span [String.ofList firstLine, upper, String.ofList lastLine, lower]

/-- The pointer of a span that lies in the text shows it, with every line found and no difference
below zero on the way. -/
theorem pointer_points {text : List Char} {span : Span} (inside : span.stop ≤ byteSize text) :
    tryPointer text (LineTable.ofText text) span =
        some (pointer text (LineTable.ofText text) span) ∧
      Points text span (pointer text (LineTable.ofText text) span) := by
  have increasing := LineTable.increasing_ofText text
  have length : span.stop = span.start + span.size := rfl
  obtain ⟨firstLine, begins⟩ := exists_standsOn (Nat.le_trans span.start_le_stop inside)
  obtain ⟨lastLine, ends⟩ := exists_standsOn inside
  obtain ⟨firstText, firstTried⟩ := begins.lineText
  obtain ⟨lastText, lastTried⟩ := ends.lineText
  simp only [tryPointer, pointer, increasing.tryPosition_eq, Option.bind_eq_bind,
    Option.bind_some, firstText, firstTried, lastText, lastTried]
  generalize (LineTable.ofText text).position span.start = first at *
  generalize (LineTable.ofText text).position span.stop = last at *
  by_cases empty : span.size = 0
  · have isEmpty : span.isEmpty = true := by simp [Span.isEmpty, empty]
    simp only [isEmpty, if_true, true_and]
    exact .empty empty begins
  · have nonempty : span.isEmpty = false := by simp [Span.isEmpty, empty]
    by_cases same : first.line = last.line
    · obtain rfl : firstLine = lastLine := by
        rw [← Option.some_inj, ← begins.reads, ← ends.reads, same]
      have columns : last.column = first.column + span.size := by
        have opens := begins.offset
        have closes := ends.offset
        rw [same] at opens
        omega
      have sameBytes := begins.take_bytes (columns ▸ ends.column)
      simp only [nonempty, same, columns, Bool.false_eq_true, if_false, if_true,
        psub_add_left, Nat.add_sub_cancel_left, Option.bind_some, true_and]
      exact .within empty begins ends same sameBytes
    · simp only [nonempty, same, Bool.false_eq_true, if_false, true_and]
      exact .across begins ends same (marks_first _ _) (marks_last _)

-- A span of two line breaks, which starts behind a line and ends before one.
theorem pointer_points_lineBreaks :
    (⟨3, 2, "main"⟩ : Span).stop ≤ byteSize "é;\n\nlet".toList ∧
      tryPointer "é;\n\nlet".toList (LineTable.ofText "é;\n\nlet".toList) ⟨3, 2, "main"⟩ =
        some ["é;", "   ^", "let", "^"] ∧
      Points "é;\n\nlet".toList ⟨3, 2, "main"⟩ ["é;", "   ^", "let", "^"] := by
  have inside : (⟨3, 2, "main"⟩ : Span).stop ≤ byteSize "é;\n\nlet".toList := by decide
  have rows : pointer "é;\n\nlet".toList (LineTable.ofText "é;\n\nlet".toList) ⟨3, 2, "main"⟩ =
      ["é;", "   ^", "let", "^"] := by decide
  have points := pointer_points inside
  rw [rows] at points
  exact ⟨inside, points⟩

end Pipewright
