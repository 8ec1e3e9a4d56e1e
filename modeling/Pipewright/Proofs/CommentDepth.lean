import Pipewright.Proofs.Comments
import Pipewright.Token.Lexer

set_option autoImplicit false

namespace Pipewright

open Text

inductive Mark where
  | opening | closing
deriving DecidableEq

def Mark.step : Mark → Int
  | .opening => 1
  | .closing => -1

/-- The marks in a text, each with what stands behind it. The leftmost is found first, and the
search goes on behind it. -/
def marks : List Char → List (Mark × List Char)
  | '/' :: '*' :: cs => (.opening, cs) :: marks cs
  | '*' :: '/' :: cs => (.closing, cs) :: marks cs
  | _ :: cs => marks cs
  | [] => []

structure Count where
  depths : List Int
  rest? : Option (List Char)
deriving DecidableEq

def count (depth : Int) : List (Mark × List Char) → Count
  | [] => ⟨[], none⟩
  | (mark, rest) :: marks =>
      if depth + mark.step = 0 then ⟨[0], some rest⟩
      else
        let onward := count (depth + mark.step) marks
        ⟨(depth + mark.step) :: onward.depths, onward.rest?⟩

theorem depths_count_nonneg {depth : Int} (positive : 0 < depth) (found : List (Mark × List Char)) :
    ∀ d ∈ (count depth found).depths, 0 ≤ d := by
  induction found generalizing depth with
  | nil => simp [count]
  | cons first found ih =>
      obtain ⟨mark, rest⟩ := first
      rw [count]
      split
      · simp
      · next inside =>
          -- A mark changes the depth by one, so it cannot pass zero without stopping there.
          have still : 0 < depth + mark.step := by
            cases mark <;> simp only [Mark.step] at inside ⊢ <;> omega
          exact List.forall_mem_cons.mpr ⟨Int.le_of_lt still, ih still⟩

theorem rest?_count_marks (depth : Nat) (text : List Char) :
    (count (depth + 1) (marks text)).rest? = afterComment? depth text := by
  fun_induction afterComment? depth text with
  | case1 depth cs ih =>
      have inside : (depth : Int) + 1 + Mark.opening.step ≠ 0 := by simp only [Mark.step]; omega
      rw [marks, count, if_neg inside]
      simpa [Mark.step] using ih
  | case2 cs => simp [marks, count, Mark.step]
  | case3 depth cs ih =>
      have down : ((depth + 1 : Nat) : Int) + 1 + Mark.closing.step = depth + 1 := by
        simp only [Mark.step]; omega
      have inside : (depth : Int) + 1 ≠ 0 := by omega
      rw [marks, count, down, if_neg inside]
      exact ih
  | case4 depth c cs notOpening notLast notClosing ih =>
      have notMark : ∀ rest, c = '*' → cs = '/' :: rest → False := by
        intro rest
        cases depth with
        | zero => exact notLast rest rfl
        | succ depth => exact notClosing depth rest rfl
      rw [marks.eq_3 c cs notOpening notMark]
      exact ih
  | case5 => rfl

theorem count_marks_opened (inner : List Char) :
    count 0 (marks ('/' :: '*' :: inner)) =
      ⟨1 :: (count 1 (marks inner)).depths, afterComment? 0 inner⟩ := by
  rw [← rest?_count_marks]
  rfl

def IsComment (chars : List Char) : Prop :=
  ∃ body, Closes body ∧ chars = '/' :: '*' :: body

theorem not_prefix_of_not_isComment {inner body : List Char}
    (unclosed : ¬∃ comment, IsComment comment ∧ comment <+: '/' :: '*' :: inner)
    (closes : Closes body) : ¬ body <+: inner := by
  rintro ⟨rest, rfl⟩
  exact unclosed ⟨_, ⟨body, closes, rfl⟩, rest, rfl⟩

namespace Lexer

def skipComment (lexer : Lexer) (inner : List Char) : Lexer :=
  lexer.skip (Piece.comment inner).1 (Piece.comment inner).2

theorem next_of_token?_eq_none {lexer : Lexer} {c : Char} {cs : List Char}
    (unfinished : lexer.finished = false) (starts : lexer.rest = c :: cs)
    (skipped : (Piece.first c cs).1.token? lexer.source lexer.offset = none) :
    lexer.next = (lexer.skip (Piece.first c cs).1 (Piece.first c cs).2).next := by
  obtain ⟨source, offset, rest, errors, finished⟩ := lexer
  cases unfinished
  cases starts
  rw [next]
  simp only [Bool.false_eq_true, if_false, skipped]

theorem next_eq_next_skipComment {lexer : Lexer} {inner : List Char}
    (unfinished : lexer.finished = false) (starts : lexer.rest = '/' :: '*' :: inner) :
    lexer.next = (lexer.skipComment inner).next := by
  refine next_of_token?_eq_none unfinished starts ?_
  change (Piece.comment inner).1.token? lexer.source lexer.offset = none
  rw [Piece.comment]
  split <;> rfl

theorem skipComment_of_isComment {lexer : Lexer} {inner comment rest : List Char}
    (starts : lexer.rest = '/' :: '*' :: inner) (closed : IsComment comment)
    (leads : lexer.rest = comment ++ rest) :
    (count 0 (marks lexer.rest)).rest? = some rest ∧
      lexer.skipComment inner =
        { lexer with offset := lexer.offset + byteSize comment, rest := rest } := by
  obtain ⟨body, closes, rfl⟩ := closed
  rw [starts] at leads
  cases leads
  constructor
  · rw [starts, count_marks_opened]
    exact closes.afterComment?_append 0 rest
  · simp [skipComment, skip, Piece.comment_append closes, Piece.chars, Piece.error?]

theorem skipComment_of_unclosed {lexer : Lexer} {inner : List Char}
    (starts : lexer.rest = '/' :: '*' :: inner)
    (unclosed : ¬∃ comment, IsComment comment ∧ comment <+: lexer.rest) :
    (count 0 (marks lexer.rest)).rest? = none ∧
      lexer.skipComment inner =
        { lexer with
          offset := lexer.offset + byteSize lexer.rest
          rest := []
          errors := lexer.errors ++ [⟨.unclosedComment,
            .ofRange lexer.source lexer.offset (lexer.offset + byteSize lexer.rest)⟩] } := by
  rw [starts] at unclosed
  have notClosed : ∀ body, Closes body → ¬ body <+: inner :=
    fun _ => not_prefix_of_not_isComment unclosed
  constructor
  · rw [starts, count_marks_opened, Option.eq_none_iff_forall_ne_some]
    intro rest found
    obtain ⟨body, closes, rfl⟩ := afterComment?_eq_some_iff.mp found
    exact notClosed body closes (List.prefix_append body rest)
  · simp [skipComment, skip, Piece.comment_of_not_closes notClosed, Piece.chars, Piece.error?,
      Piece.span, starts]

/-- Where a block comment starts, the lexer goes on behind the comment that the grammar gives. If
there is none, it skips and reports all that is left. The counted marks show which, and the depth is
never negative. -/
theorem skipComment_follows_grammar {lexer : Lexer} {inner : List Char}
    (starts : lexer.rest = '/' :: '*' :: inner) :
    (lexer.finished = false → lexer.next = (lexer.skipComment inner).next) ∧
    (∀ comment rest, IsComment comment → lexer.rest = comment ++ rest →
      (count 0 (marks lexer.rest)).rest? = some rest ∧
        lexer.skipComment inner =
          { lexer with offset := lexer.offset + byteSize comment, rest := rest }) ∧
    ((¬∃ comment, IsComment comment ∧ comment <+: lexer.rest) →
      (count 0 (marks lexer.rest)).rest? = none ∧
        lexer.skipComment inner =
          { lexer with
            offset := lexer.offset + byteSize lexer.rest
            rest := []
            errors := lexer.errors ++ [⟨.unclosedComment,
              .ofRange lexer.source lexer.offset (lexer.offset + byteSize lexer.rest)⟩] }) ∧
    ∀ depth ∈ (count 0 (marks lexer.rest)).depths, 0 ≤ depth := by
  refine ⟨fun unfinished => next_eq_next_skipComment unfinished starts,
    fun _ _ => skipComment_of_isComment starts, skipComment_of_unclosed starts, ?_⟩
  rw [starts, count_marks_opened]
  exact List.forall_mem_cons.mpr ⟨by decide, depths_count_nonneg (by decide) (marks inner)⟩

-- Marks that share a character: the second comment is not closed by its own slash.
theorem skipComment_overlapping :
    let lexer : Lexer := ⟨"main", 3, "/*/*/é*/*/x".toList, [], false⟩
    lexer.rest = '/' :: '*' :: "/*/é*/*/x".toList ∧ IsComment "/*/*/é*/*/".toList ∧
      lexer.skipComment "/*/é*/*/x".toList = { lexer with offset := 14, rest := ['x'] } ∧
      ∀ depth ∈ (count 0 (marks lexer.rest)).depths, 0 ≤ depth := by
  have inner : Closes ['/', 'é', '*', '/'] := by
    refine .char ?_ (.char ?_ .mark) <;> simp [StartsMark]
  have closed : IsComment "/*/*/é*/*/".toList := ⟨_, .comment inner .mark, rfl⟩
  have follows := @skipComment_follows_grammar
    ⟨"main", 3, "/*/*/é*/*/x".toList, [], false⟩ "/*/é*/*/x".toList rfl
  exact ⟨rfl, closed, (follows.2.1 _ ['x'] closed rfl).2, follows.2.2.2⟩

end Lexer

end Pipewright
