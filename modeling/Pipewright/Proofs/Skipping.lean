import Pipewright.Proofs.PlacedPieces

set_option autoImplicit false

namespace Pipewright

open Text

namespace Piece

def IsSkipped : Piece → Prop
  | .blank _ | .lineComment _ | .blockComment _ => True
  | .openComment _ | .lexeme _ _ | .stray _ => False

def IsClosed (piece : Piece) : Prop :=
  ∀ chars, piece ≠ .openComment chars

theorem IsSkipped.isClosed {piece : Piece} (skipped : piece.IsSkipped) : piece.IsClosed := by
  rintro chars rfl
  exact skipped

theorem IsSkipped.lexeme?_eq_none {piece : Piece} (skipped : piece.IsSkipped) :
    piece.lexeme? = none := by
  cases piece with
  | blank | lineComment | blockComment => rfl
  | openComment | lexeme | stray => exact skipped.elim

theorem IsClosed.cases {piece : Piece} (closed : piece.IsClosed) :
    piece.IsSkipped ∨ piece.lexeme?.isSome = true := by
  cases piece with
  | blank | lineComment | blockComment => exact .inl trivial
  | openComment chars => exact absurd rfl (closed chars)
  | lexeme | stray => exact .inr rfl

end Piece

theorem pieces_of_first {c : Char} {cs rest : List Char} {piece : Piece}
    (first : Piece.first c cs = (piece, rest)) : pieces (c :: cs) = piece :: pieces rest := by
  rw [pieces, first]

theorem Trivia.pieces_append {chars rest : List Char} (trivia : Trivia chars rest) :
    ∃ piece : Piece, piece.IsSkipped ∧ pieces (chars ++ rest) = piece :: pieces rest := by
  cases trivia with
  | @blank c _ blank => exact ⟨.blank c, trivial, pieces_blank blank rest⟩
  | @line body _ oneLine ends =>
      have all : ∀ c ∈ '/' :: '/' :: body, (c != '\n') = true := by
        intro c member
        rw [bne_iff_ne]
        rintro rfl
        simp [oneLine] at member
      have first : Piece.first '/' ('/' :: (body ++ rest)) =
          (.lineComment ('/' :: '/' :: body), rest) :=
        run_append all (by simpa using ends)
      exact ⟨.lineComment _, trivial, pieces_of_first first⟩
  | @block body _ closes =>
      have first : Piece.first '/' ('*' :: (body ++ rest)) =
          (.blockComment ('/' :: '*' :: body), rest) :=
        Piece.comment_append closes rest
      exact ⟨.blockComment _, trivial, pieces_of_first first⟩

theorem Gap.pieces_append {gap after : List Char} (closed : Gap after gap) :
    ∃ skipped : List Piece, (∀ piece ∈ skipped, piece.IsSkipped) ∧
      pieces (gap ++ after) = skipped ++ pieces after := by
  induction closed with
  | nil => exact ⟨[], by simp, rfl⟩
  | @cons chars rest trivia _ ih =>
      obtain ⟨piece, first, cut⟩ := trivia.pieces_append
      obtain ⟨skipped, all, others⟩ := ih
      refine ⟨piece :: skipped, List.forall_mem_cons.mpr ⟨first, all⟩, ?_⟩
      rw [List.append_assoc, cut, others, List.cons_append]

theorem Unclosed.pieces_eq {comment : List Char} (unclosed : Unclosed comment) :
    pieces comment = [.openComment comment] := by
  cases unclosed with
  | @intro inner notClosed =>
      have first : Piece.first '/' ('*' :: inner) = (.openComment ('/' :: '*' :: inner), []) :=
        Piece.comment_of_not_closes notClosed
      rw [pieces_of_first first, pieces]

theorem pieces_eq_cons {text : List Char} {piece : Piece} {row : List Piece}
    (cut : pieces text = piece :: row) :
    ∃ rest, text = piece.chars ++ rest ∧ piece.Fits rest ∧ pieces rest = row := by
  cases text with
  | nil => simp [pieces] at cut
  | cons c cs =>
      rw [pieces] at cut
      cases cut
      exact ⟨_, (Piece.chars_first c cs).symm, Piece.fits_first c cs, rfl⟩

theorem pieces_of_append {text : List Char} {front back : List Piece}
    (cut : pieces text = front ++ back) : pieces (back.flatMap Piece.chars) = back := by
  induction front generalizing text with
  | nil =>
      rw [List.nil_append] at cut
      rw [← cut, flatMap_pieces]
  | cons piece front ih =>
      obtain ⟨rest, -, -, others⟩ := pieces_eq_cons cut
      exact ih others

theorem gap_of_pieces {text : List Char} {skipped back : List Piece}
    (cut : pieces text = skipped ++ back) (all : ∀ piece ∈ skipped, piece.IsSkipped) :
    Gap (back.flatMap Piece.chars) (skipped.flatMap Piece.chars) := by
  induction skipped generalizing text with
  | nil => exact .nil
  | cons piece skipped ih =>
      rw [List.forall_mem_cons] at all
      rw [List.cons_append] at cut
      obtain ⟨rest, -, fits, others⟩ := pieces_eq_cons cut
      have behind := flatMap_pieces rest
      rw [others, List.flatMap_append] at behind
      rw [← behind] at fits
      refine .cons ?_ (ih others all.2)
      cases piece with
      | blank | lineComment | blockComment => exact fits
      | openComment | lexeme | stray => exact all.1.elim

end Pipewright
