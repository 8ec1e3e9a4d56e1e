import Mathlib.Data.List.Forall2
import Mathlib.Data.List.Induction
import Pipewright.Proofs.Skipping

set_option autoImplicit false

namespace Pipewright

open Text

def Token.ReportedBy (token : Token) (error : Located LexError) : Prop :=
  ∃ c : Char, token.text = c.toString ∧ error = ⟨.unknownChar c, token.span⟩

/-- The gap before the end of input, as the spans of the tokens leave it, ends in a block comment
that starts at `start` and is never closed. -/
def OpensAt (text : List Char) (tokens : List Token) (start : Nat) : Prop :=
  ∃ closed comment, (gaps text 0 tokens).getLast? = some (closed ++ comment) ∧
    Gap comment closed ∧ Unclosed comment ∧ start + byteSize comment = byteSize text

theorem reportedBy_of_closed {source : String} {offset : Nat} {row : List Piece}
    (spelled : ∀ piece ∈ row, piece.Spelled) (closed : ∀ piece ∈ row, piece.IsClosed) :
    List.Forall₂ Token.ReportedBy
      ((tokensOf source offset row).filter (·.kind = .invalid)) (errorsOf source offset row) := by
  induction row generalizing offset with
  | nil => exact .nil
  | cons piece row ih =>
      rw [List.forall_mem_cons] at spelled closed
      have others := @ih (offset + byteSize piece.chars) spelled.2 closed.2
      cases piece with
      | blank | lineComment | blockComment => simpa [Piece.token?, Piece.error?] using others
      | openComment chars => exact absurd rfl (closed.1 chars)
      | lexeme kind chars =>
          have valid : kind ≠ .invalid := Kind.Spells.ne_invalid spelled.1
          simpa [Piece.token?, Piece.error?, valid] using others
      | stray c => simpa [Piece.token?, Piece.error?] using List.Forall₂.cons ⟨c, rfl, rfl⟩ others

structure Ends (text : List Char) (front gap opened : List Piece) : Prop where
  whole : pieces text = front ++ (gap ++ opened)
  closed : ∀ piece ∈ front ++ gap, piece.IsClosed
  last : ∀ piece ∈ front.getLast?, piece.lexeme?.isSome = true
  skipped : ∀ piece ∈ gap, piece.IsSkipped
  opened : opened = [] ∨ ∃ comment, opened = [.openComment comment]

theorem exists_closed_append (text : List Char) :
    ∃ closed opened, pieces text = closed ++ opened ∧ (∀ piece ∈ closed, piece.IsClosed) ∧
      (opened = [] ∨ ∃ comment, opened = [.openComment comment]) := by
  fun_induction pieces text with
  | case1 => exact ⟨[], [], rfl, by simp, .inl rfl⟩
  | case2 c cs ih =>
      by_cases closed : (Piece.first c cs).1.IsClosed
      · obtain ⟨front, opened, whole, all, last⟩ := ih
        exact ⟨_ :: front, opened, by rw [whole, List.cons_append],
          List.forall_mem_cons.mpr ⟨closed, all⟩, last⟩
      · -- An open comment takes all that is left.
        simp only [Piece.IsClosed, ne_eq, not_forall, not_not] at closed
        obtain ⟨comment, first⟩ := closed
        have fits := Piece.fits_first c cs
        rw [first] at fits
        refine ⟨[], [.openComment comment], ?_, by simp, .inr ⟨comment, rfl⟩⟩
        rw [first, fits.2, pieces, List.nil_append]

theorem exists_front_append {closed : List Piece} (all : ∀ piece ∈ closed, piece.IsClosed) :
    ∃ front gap, closed = front ++ gap ∧ (∀ piece ∈ front.getLast?, piece.lexeme?.isSome = true) ∧
      ∀ piece ∈ gap, piece.IsSkipped := by
  induction closed using List.reverseRecOn with
  | nil => exact ⟨[], [], rfl, by simp, by simp⟩
  | append_singleton row piece ih =>
      rw [List.forall_mem_append, List.forall_mem_singleton] at all
      rcases all.2.cases with skipped | token
      · obtain ⟨front, gap, rfl, last, others⟩ := ih all.1
        refine ⟨front, gap ++ [piece], List.append_assoc .., last, ?_⟩
        exact List.forall_mem_append.mpr ⟨others, List.forall_mem_singleton.mpr skipped⟩
      · exact ⟨row ++ [piece], [], by simp, by simpa using token, by simp⟩

theorem exists_ends (text : List Char) : ∃ front gap opened, Ends text front gap opened := by
  obtain ⟨closed, opened, whole, all, left⟩ := exists_closed_append text
  obtain ⟨front, gap, rfl, last, skipped⟩ := exists_front_append all
  exact ⟨front, gap, opened, by rw [whole, List.append_assoc], all, last, skipped, left⟩

theorem getLast?_gaps (text : List Char) (offset : Nat) (front : List Token) (last : Token) :
    (gaps text offset (front ++ [last])).getLast? =
      some (slice text ((front.getLast?.map (·.span.stop)).getD offset) last.span.start) := by
  induction front generalizing offset with
  | nil => rfl
  | cons token front ih => simp [gaps, List.getLast?_cons, ih, Option.getD_map]

theorem tokensOf_append_of_lexeme? (source : String) (offset : Nat) (front : List Piece)
    {back : List Piece} (silent : ∀ piece ∈ back, piece.lexeme? = none) :
    tokensOf source offset (front ++ back) = tokensOf source offset front := by
  have nothing : tokensOf source (offset + byteSize (front.flatMap Piece.chars)) back = [] := by
    apply List.map_eq_nil_iff.mp
    rw [map_lexeme_tokensOf, List.filterMap_eq_nil_iff]
    exact silent
  rw [tokensOf_append, nothing, List.append_nil]

theorem Piece.exists_token? {piece : Piece} (token : piece.lexeme?.isSome = true) (source : String)
    (start : Nat) :
    ∃ made, piece.token? source start = some made ∧
      made.span = .ofRange source start (start + byteSize piece.chars) := by
  cases piece with
  | lexeme | stray => exact ⟨_, rfl, rfl⟩
  | blank | lineComment | blockComment | openComment => cases token

namespace Ends

variable {text : List Char} {front gap opened : List Piece}

theorem text_eq (ends : Ends text front gap opened) :
    text = front.flatMap Piece.chars ++ (gap ++ opened).flatMap Piece.chars := by
  rw [← List.flatMap_append, ← ends.whole, flatMap_pieces]

theorem tokensOf_closed (ends : Ends text front gap opened) (source : String) :
    tokensOf source 0 (front ++ gap) = tokensOf source 0 front :=
  tokensOf_append_of_lexeme? source 0 front fun piece member =>
    (ends.skipped piece member).lexeme?_eq_none

theorem tokensOf_pieces (ends : Ends text front gap opened) (source : String) :
    tokensOf source 0 (pieces text) = tokensOf source 0 front := by
  have silent : ∀ piece ∈ opened, piece.lexeme? = none := by
    obtain rfl | ⟨comment, rfl⟩ := ends.opened
    · simp
    · simp [Piece.lexeme?]
  rw [ends.whole, ← List.append_assoc, tokensOf_append_of_lexeme? source 0 _ silent,
    ends.tokensOf_closed]

theorem stop_last (ends : Ends text front gap opened) (source : String) :
    ((tokensOf source 0 front).getLast?.map (·.span.stop)).getD 0 =
      byteSize (front.flatMap Piece.chars) := by
  rcases front.eq_nil_or_concat with rfl | ⟨row, piece, rfl⟩
  · rfl
  · obtain ⟨token, made, span⟩ :=
      Piece.exists_token? (ends.last piece (by simp)) source (byteSize (row.flatMap Piece.chars))
    simp [tokensOf_append, made, span]

theorem getLast?_gaps_pieces (ends : Ends text front gap opened) (source : String) :
    (gaps text 0 (tokensOf source 0 (pieces text) ++ [.eofAt source (byteSize text)])).getLast? =
      some ((gap ++ opened).flatMap Piece.chars) := by
  have cut := slice_append (front.flatMap Piece.chars) ((gap ++ opened).flatMap Piece.chars) []
  rw [List.append_nil, ← ends.text_eq, ← byteSize_append, ← ends.text_eq] at cut
  rw [ends.tokensOf_pieces, getLast?_gaps, ends.stop_last]
  exact congrArg some cut

theorem forall₂_reportedBy (ends : Ends text front gap opened) (source : String) :
    List.Forall₂ Token.ReportedBy
      ((tokensOf source 0 (pieces text)).filter (·.kind = .invalid))
      (errorsOf source 0 (front ++ gap)) := by
  have spelled : ∀ piece ∈ front ++ gap, piece.Spelled := by
    intro piece member
    refine spelled_pieces text piece ?_
    rw [ends.whole, ← List.append_assoc]
    exact List.mem_append_left _ member
  rw [ends.tokensOf_pieces, ← ends.tokensOf_closed]
  exact reportedBy_of_closed spelled ends.closed

theorem opensAt_iff (ends : Ends text front gap opened) (source : String) (start : Nat) :
    OpensAt text (tokensOf source 0 (pieces text) ++ [.eofAt source (byteSize text)]) start ↔
      ∃ comment, opened = [.openComment comment] ∧ start + byteSize comment = byteSize text := by
  constructor
  · rintro ⟨closed, comment, same, isGap, unclosed, whole⟩
    -- The gap has been cut into pieces in two ways, and there is only one.
    rw [ends.getLast?_gaps_pieces, Option.some.injEq] at same
    obtain ⟨skipped, all, cut⟩ := isGap.pieces_append
    rw [← same, pieces_of_append ends.whole, unclosed.pieces_eq] at cut
    obtain rfl | ⟨other, rfl⟩ := ends.opened
    · have member : Piece.openComment comment ∈ gap := by
        rw [List.append_nil] at cut
        simp [cut]
      exact (ends.skipped _ member).elim
    · have last := List.append_inj_right' cut rfl
      exact ⟨comment, last, whole⟩
  · rintro ⟨comment, rfl, whole⟩
    have cut := pieces_of_append ends.whole
    have isGap := gap_of_pieces cut ends.skipped
    obtain ⟨_, -, fits, -⟩ := pieces_eq_cons (pieces_of_append cut)
    refine ⟨gap.flatMap Piece.chars, comment, ?_, by simpa [Piece.chars] using isGap, fits.1, whole⟩
    rw [ends.getLast?_gaps_pieces]
    simp [Piece.chars]

theorem size_eq (ends : Ends text front gap opened) :
    byteSize ((front ++ gap).flatMap Piece.chars) + byteSize (opened.flatMap Piece.chars) =
      byteSize text := by
  rw [← byteSize_append, ← List.flatMap_append, List.append_assoc, ← ends.whole, flatMap_pieces]

theorem mem_errorsOf_opened_iff (ends : Ends text front gap opened) (source : String)
    (error : Located LexError) :
    error ∈ errorsOf source (byteSize ((front ++ gap).flatMap Piece.chars)) opened ↔
      ∃ start, OpensAt text (tokensOf source 0 (pieces text) ++ [.eofAt source (byteSize text)])
        start ∧ error = ⟨.unclosedComment, .ofRange source start (byteSize text)⟩ := by
  have size := ends.size_eq
  simp only [ends.opensAt_iff]
  obtain rfl | ⟨comment, rfl⟩ := ends.opened
  · simp
  · simp only [List.flatMap_singleton, Piece.chars] at size
    simp only [errorsOf_cons, errorsOf_nil, Piece.error?, Piece.span, Piece.chars, size,
      Option.toList_some, List.append_nil, List.mem_singleton]
    constructor
    · intro same
      exact ⟨_, ⟨comment, rfl, size⟩, same⟩
    · rintro ⟨start, ⟨other, same, whole⟩, rfl⟩
      cases same
      rw [Nat.add_right_cancel (size.trans whole.symm)]

end Ends

theorem chars_ne_nil_of_mem_pieces (text : List Char) :
    ∀ piece ∈ pieces text, piece.chars ≠ [] := by
  fun_induction pieces text with
  | case1 => simp
  | case2 c cs ih => exact List.forall_mem_cons.mpr ⟨Piece.chars_first_ne_nil c cs, ih⟩

theorem Piece.start_of_error? {source : String} {start : Nat} {piece : Piece}
    {error : Located LexError} (made : piece.error? source start = some error) :
    error.span.start = start := by
  cases piece <;> cases made <;> rfl

theorem pairwise_errorsOf (source : String) (offset : Nat) (text : List Char) :
    (errorsOf source offset (pieces text)).Pairwise fun left right =>
      left.span.start < right.span.start := by
  rw [errorsOf, List.pairwise_filterMap]
  refine (pairwise_placed (chars_ne_nil_of_mem_pieces text)).imp ?_
  intro left right before first made second found
  rw [Piece.start_of_error? made, Piece.start_of_error? found]
  exact before

/-- The errors of a text are one for each token that is an unknown character, in their order, and
behind these one for the comment that is left open, exactly if there is one. -/
theorem tokenize_reports (source text : String) :
    ∃ strays opened,
      (tokenize source text).errors = strays ++ opened ∧
      List.Forall₂ Token.ReportedBy
        ((tokenize source text).tokens.filter (·.kind = .invalid)) strays ∧
      opened.length ≤ 1 ∧
      (∀ error, error ∈ opened ↔
        ∃ start, OpensAt text.toList (tokenize source text).tokens start ∧
          error = ⟨.unclosedComment, .ofRange source start text.utf8ByteSize⟩) ∧
      (tokenize source text).errors.Pairwise fun left right =>
        left.span.start < right.span.start := by
  obtain ⟨front, gap, opened, ends⟩ := exists_ends text.toList
  have reported := ends.forall₂_reportedBy source
  have listed := ends.mem_errorsOf_opened_iff source
  rw [byteSize_toList, ← tokenize_tokens] at listed
  refine ⟨errorsOf source 0 (front ++ gap), _, ?_, ?_, ?_, listed, ?_⟩
  · rw [tokenize_errors_eq, ends.whole, ← List.append_assoc, errorsOf_append, Nat.zero_add]
  · simpa [tokenize_tokens, Token.eofAt] using reported
  · obtain rfl | ⟨comment, rfl⟩ := ends.opened
    · simp
    · simp [Piece.error?]
  · exact pairwise_errorsOf source 0 text.toList

-- The mark `/*/` leaves its comment open, and the character inside the comment is not reported.
example : (tokenize "main" "é /*/ @").errors =
    [⟨.unknownChar 'é', .ofRange "main" 0 2⟩, ⟨.unclosedComment, .ofRange "main" 3 8⟩] := by
  decide +kernel

end Pipewright
