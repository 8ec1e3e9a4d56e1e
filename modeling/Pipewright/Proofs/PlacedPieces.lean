import Pipewright.Proofs.Spelling

set_option autoImplicit false

namespace Pipewright

open Text

def tokensOf (source : String) (offset : Nat) (row : List Piece) : List Token :=
  (placed offset row).filterMap fun (start, piece) => piece.token? source start

def errorsOf (source : String) (offset : Nat) (row : List Piece) : List (Located LexError) :=
  (placed offset row).filterMap fun (start, piece) => piece.error? source start

theorem tokenize_tokens (source text : String) :
    (tokenize source text).tokens =
      tokensOf source 0 (pieces text.toList) ++ [.eofAt source text.utf8ByteSize] := by
  simp [tokenize, tokensOf]

theorem tokenize_errors_eq (source text : String) :
    (tokenize source text).errors = errorsOf source 0 (pieces text.toList) := rfl

@[simp] theorem tokensOf_nil (source : String) (offset : Nat) : tokensOf source offset [] = [] :=
  rfl

@[simp] theorem errorsOf_nil (source : String) (offset : Nat) : errorsOf source offset [] = [] :=
  rfl

@[simp] theorem tokensOf_cons (source : String) (offset : Nat) (piece : Piece) (row : List Piece) :
    tokensOf source offset (piece :: row) =
      (piece.token? source offset).toList ++
        tokensOf source (offset + byteSize piece.chars) row := by
  cases made : piece.token? source offset <;> simp [tokensOf, placed, made]

@[simp] theorem errorsOf_cons (source : String) (offset : Nat) (piece : Piece) (row : List Piece) :
    errorsOf source offset (piece :: row) =
      (piece.error? source offset).toList ++
        errorsOf source (offset + byteSize piece.chars) row := by
  cases made : piece.error? source offset <;> simp [errorsOf, placed, made]

theorem placed_append (offset : Nat) (front back : List Piece) :
    placed offset (front ++ back) =
      placed offset front ++ placed (offset + byteSize (front.flatMap Piece.chars)) back := by
  induction front generalizing offset with
  | nil => rfl
  | cons piece front ih => simp [placed, ih, Nat.add_assoc]

theorem tokensOf_append (source : String) (offset : Nat) (front back : List Piece) :
    tokensOf source offset (front ++ back) =
      tokensOf source offset front ++
        tokensOf source (offset + byteSize (front.flatMap Piece.chars)) back := by
  simp only [tokensOf, placed_append, List.filterMap_append]

theorem errorsOf_append (source : String) (offset : Nat) (front back : List Piece) :
    errorsOf source offset (front ++ back) =
      errorsOf source offset front ++
        errorsOf source (offset + byteSize (front.flatMap Piece.chars)) back := by
  simp only [errorsOf, placed_append, List.filterMap_append]

theorem map_lexeme_tokensOf (source : String) (offset : Nat) (row : List Piece) :
    (tokensOf source offset row).map Token.lexeme = row.filterMap Piece.lexeme? :=
  map_lexeme_placed source offset row

theorem le_of_mem_placed {offset : Nat} {row : List Piece} :
    ∀ place ∈ placed offset row, offset ≤ place.1 := by
  induction row generalizing offset with
  | nil => simp [placed]
  | cons piece row ih =>
      refine List.forall_mem_cons.mpr ⟨Nat.le_refl _, fun place member => ?_⟩
      exact Nat.le_trans (Nat.le_add_right _ _) (ih place member)

theorem stop_le_of_mem_placed {offset : Nat} {row : List Piece} :
    ∀ place ∈ placed offset row,
      place.1 + byteSize place.2.chars ≤ offset + byteSize (row.flatMap Piece.chars) := by
  induction row generalizing offset with
  | nil => simp [placed]
  | cons piece row ih =>
      rw [List.flatMap_cons, byteSize_append, ← Nat.add_assoc]
      exact List.forall_mem_cons.mpr ⟨Nat.le_add_right _ _, ih⟩

theorem pairwise_placed {offset : Nat} {row : List Piece}
    (some : ∀ piece ∈ row, piece.chars ≠ []) :
    (placed offset row).Pairwise fun left right => left.1 < right.1 := by
  induction row generalizing offset with
  | nil => exact .nil
  | cons piece row ih =>
      rw [List.forall_mem_cons] at some
      refine List.pairwise_cons.mpr ⟨fun place member => ?_, ih some.2⟩
      have size : 0 < byteSize piece.chars :=
        Nat.pos_of_ne_zero (mt byteSize_eq_zero.mp some.1)
      exact Nat.lt_of_lt_of_le (Nat.lt_add_of_pos_right size) (le_of_mem_placed place member)

end Pipewright
