import Pipewright.Proofs.Skipping

set_option autoImplicit false

namespace Pipewright

open Text

theorem isBlank_lineBreak : isBlank '\n' = true := by
  decide

theorem StartsTrivia.of_append {c b : Char} {cs rest : List Char} (blank : isBlank b = true)
    (starts : StartsTrivia (c :: cs ++ b :: rest)) : StartsTrivia (c :: cs) := by
  have slash : b ≠ '/' := by rintro rfl; revert blank; decide
  have star : b ≠ '*' := by rintro rfl; revert blank; decide
  rcases starts with starts | line | block
  · exact .inl starts
  · exact .inr (.inl ((prefix_append_cons (by simp [slash])).mp line))
  · exact .inr (.inr ((prefix_append_cons (by simp [slash, star])).mp block))

namespace Piece

theorem run_append_of_stops {p : Char → Bool} {b : Char} (stops : p b = false)
    (make : List Char → Piece) (text rest : List Char) :
    run p make (text ++ b :: rest) =
      ((run p make text).1, (run p make text).2 ++ b :: rest) := by
  have ended : ∀ c ∈ (text.dropWhile p ++ b :: rest).head?, p c = false := by
    have stopped := List.head?_dropWhile_not p text
    cases left : text.dropWhile p with
    | nil => simp [stops]
    | cons c cs => simpa [left] using stopped
  have cut : run p make (text.takeWhile p ++ (text.dropWhile p ++ b :: rest)) =
      ((run p make text).1, (run p make text).2 ++ b :: rest) :=
    run_append (List.all_eq_true.mp List.all_takeWhile) ended
  rwa [← List.append_assoc, List.takeWhile_append_dropWhile] at cut

theorem comment_append_of_isClosed {inner : List Char} (closed : (comment inner).1.IsClosed)
    (rest : List Char) :
    comment (inner ++ rest) = ((comment inner).1, (comment inner).2 ++ rest) := by
  cases found : afterComment? 0 inner with
  | none => exact absurd (by rw [comment, found]) (closed ('/' :: '*' :: inner))
  | some after =>
      obtain ⟨body, closes, rfl⟩ := afterComment?_eq_some_iff.mp found
      rw [comment_append closes, List.append_assoc, comment_append closes]

theorem symbol_append {b : Char} (blank : isBlank b = true) (c : Char) (cs rest : List Char) :
    symbol c (cs ++ b :: rest) = ((symbol c cs).1, (symbol c cs).2 ++ b :: rest) := by
  have same := ofSymbol?_append_blank (c :: cs) blank rest
  rw [List.cons_append] at same
  rw [symbol, symbol, same]
  cases found : Kind.ofSymbol? (c :: cs) with
  | none => rfl
  | some kind =>
      have leads : kind.chars.isPrefixOf (c :: cs) = true := by simpa using List.find?_some found
      have short := (List.isPrefixOf_iff_prefix.mp leads).length_le
      simp only [← List.cons_append, List.drop_append_of_le_length short]

theorem lexemeOrStray_append {b : Char} (blank : isBlank b = true) (c : Char)
    (cs rest : List Char) :
    lexemeOrStray c (cs ++ b :: rest) =
      ((lexemeOrStray c cs).1, (lexemeOrStray c cs).2 ++ b :: rest) := by
  have noLetter := isWordChar_eq_false blank
  unfold lexemeOrStray
  split
  · exact run_append_of_stops (isDigit_eq_false noLetter) _ (c :: cs) rest
  · split
    · exact run_append_of_stops noLetter word (c :: cs) rest
    · exact symbol_append blank c cs rest

theorem first_append_lineBreak {c : Char} {cs : List Char} (closed : (first c cs).1.IsClosed)
    (rest : List Char) :
    first c (cs ++ '\n' :: rest) = ((first c cs).1, (first c cs).2 ++ '\n' :: rest) := by
  by_cases trivia : StartsTrivia (c :: cs)
  · rcases trivia with ⟨d, head, blank⟩ | ⟨tail, same⟩ | ⟨inner, same⟩
    · cases head
      rw [first_of_isBlank blank, first_of_isBlank blank]
    · cases same
      exact run_append_of_stops (by decide) .lineComment ('/' :: '/' :: tail) rest
    · cases same
      exact comment_append_of_isClosed closed ('\n' :: rest)
  · have plain : ¬StartsTrivia (c :: (cs ++ '\n' :: rest)) :=
      mt (.of_append isBlank_lineBreak) trivia
    rw [first_of_not_startsTrivia trivia, first_of_not_startsTrivia plain]
    exact lexemeOrStray_append isBlank_lineBreak c cs rest

end Piece

theorem pieces_append_lineBreak {text : List Char}
    (closed : ∀ piece ∈ pieces text, piece.IsClosed) (rest : List Char) :
    pieces (text ++ '\n' :: rest) = pieces text ++ .blank '\n' :: pieces rest := by
  fun_induction pieces text with
  | case1 => exact pieces_blank isBlank_lineBreak rest
  | case2 c cs ih =>
      rw [List.forall_mem_cons] at closed
      rw [List.cons_append, pieces_of_first (Piece.first_append_lineBreak closed.1 rest),
        ih closed.2, List.cons_append]

def Span.shift (n : Nat) (span : Span) : Span :=
  { span with start := span.start + n }

def Token.shift (n : Nat) (token : Token) : Token :=
  { token with span := token.span.shift n }

def Located.shift {ε : Type} (n : Nat) (located : Located ε) : Located ε :=
  { located with span := located.span.shift n }

namespace Piece

theorem span_add (piece : Piece) (source : String) (start n : Nat) :
    piece.span source (start + n) = (piece.span source start).shift n := by
  simp only [span, Span.ofRange, Span.shift]
  congr 1
  omega

theorem token?_add (piece : Piece) (source : String) (start n : Nat) :
    piece.token? source (start + n) = (piece.token? source start).map (Token.shift n) := by
  cases piece <;> simp [token?, span_add, Token.shift]

theorem error?_add (piece : Piece) (source : String) (start n : Nat) :
    piece.error? source (start + n) = (piece.error? source start).map (Located.shift n) := by
  cases piece <;> simp [error?, span_add, Located.shift]

end Piece

theorem placed_add (offset n : Nat) (row : List Piece) :
    placed (offset + n) row = (placed offset row).map fun place => (place.1 + n, place.2) := by
  induction row generalizing offset with
  | nil => rfl
  | cons piece row ih => rw [placed, placed, Nat.add_right_comm, ih, List.map_cons]

theorem tokensOf_add (source : String) (offset n : Nat) (row : List Piece) :
    tokensOf source (offset + n) row = (tokensOf source offset row).map (Token.shift n) := by
  rw [tokensOf, tokensOf, placed_add, List.filterMap_map, List.map_filterMap]
  congr 1
  funext place
  exact place.2.token?_add source place.1 n

theorem errorsOf_add (source : String) (offset n : Nat) (row : List Piece) :
    errorsOf source (offset + n) row = (errorsOf source offset row).map (Located.shift n) := by
  rw [errorsOf, errorsOf, placed_add, List.filterMap_map, List.map_filterMap]
  congr 1
  funext place
  exact place.2.error?_add source place.1 n

theorem isClosed_of_errorsOf {source : String} {offset : Nat} {row : List Piece}
    (closed : ∀ error ∈ errorsOf source offset row, error.error ≠ .unclosedComment) :
    ∀ piece ∈ row, piece.IsClosed := by
  induction row generalizing offset with
  | nil => simp
  | cons piece row ih =>
      rw [errorsOf_cons, List.forall_mem_append] at closed
      refine List.forall_mem_cons.mpr ⟨?_, ih closed.2⟩
      rintro chars rfl
      exact closed.1 _ List.mem_cons_self rfl

theorem eofAt_add (source : String) (offset n : Nat) :
    Token.eofAt source (offset + n) = (Token.eofAt source offset).shift n := by
  simp [Token.eofAt, Span.emptyAt, Span.ofRange, Token.shift, Span.shift]

/-- The tokens and errors of two texts joined by a line break are those of the first text and then
those of the second, moved behind the line break. -/
theorem tokenize_append_lineBreak {source a : String}
    (closed : ∀ error ∈ (tokenize source a).errors, error.error ≠ .unclosedComment) (b : String) :
    ∃ tokens,
      (tokenize source a).tokens = tokens ++ [.eofAt source a.utf8ByteSize] ∧
      (tokenize source (a ++ "\n" ++ b)).tokens =
        tokens ++ (tokenize source b).tokens.map (Token.shift (a.utf8ByteSize + 1)) ∧
      (tokenize source (a ++ "\n" ++ b)).errors =
        (tokenize source a).errors ++
          (tokenize source b).errors.map (Located.shift (a.utf8ByteSize + 1)) := by
  have cut : pieces (a ++ "\n" ++ b).toList =
      (pieces a.toList ++ [Piece.blank '\n']) ++ pieces b.toList := by
    have joined := pieces_append_lineBreak (isClosed_of_errorsOf closed) b.toList
    simpa using joined
  have before : byteSize ((pieces a.toList ++ [Piece.blank '\n']).flatMap Piece.chars) =
      a.utf8ByteSize + 1 := by
    rw [List.flatMap_append, flatMap_pieces, byteSize_append, byteSize_toList]
    rfl
  have size : (a ++ "\n" ++ b).utf8ByteSize = b.utf8ByteSize + (a.utf8ByteSize + 1) := by
    rw [String.utf8ByteSize_append, String.utf8ByteSize_append, Nat.add_comm]
    rfl
  refine ⟨_, tokenize_tokens source a, ?_, ?_⟩
  · rw [tokenize_tokens, cut, tokensOf_append, before, tokensOf_add, size, eofAt_add,
      tokenize_tokens source b]
    simp [tokensOf_append, Piece.token?]
  · rw [tokenize_errors_eq, cut, errorsOf_append, before, errorsOf_add]
    simp [errorsOf_append, Piece.error?, tokenize_errors_eq]

-- Neither the slash nor the line comment at the end of the first text reaches over the line break.
theorem tokenize_append_lineBreak_slash :
    (∀ error ∈ (tokenize "main" "/*/**/*/@ / //").errors, error.error ≠ .unclosedComment) ∧
    (∃ tokens,
      (tokenize "main" "/*/**/*/@ / //").tokens = tokens ++ [.eofAt "main" 14] ∧
      (tokenize "main" ("/*/**/*/@ / //" ++ "\n" ++ "/é /*")).tokens =
        tokens ++ (tokenize "main" "/é /*").tokens.map (Token.shift 15) ∧
      (tokenize "main" ("/*/**/*/@ / //" ++ "\n" ++ "/é /*")).errors =
        (tokenize "main" "/*/**/*/@ / //").errors ++
          (tokenize "main" "/é /*").errors.map (Located.shift 15)) ∧
    (tokenize "main" ("/*/**/*/@ / //" ++ "\n" ++ "/é /*")).tokens =
      [⟨.invalid, "@", .ofRange "main" 8 9⟩, ⟨.operator .div, "/", .ofRange "main" 10 11⟩,
        ⟨.operator .div, "/", .ofRange "main" 15 16⟩, ⟨.invalid, "é", .ofRange "main" 16 18⟩,
        .eofAt "main" 21] ∧
    (tokenize "main" ("/*/**/*/@ / //" ++ "\n" ++ "/é /*")).errors =
      [⟨.unknownChar '@', .ofRange "main" 8 9⟩, ⟨.unknownChar 'é', .ofRange "main" 16 18⟩,
        ⟨.unclosedComment, .ofRange "main" 19 21⟩] := by
  have closed : ∀ error ∈ (tokenize "main" "/*/**/*/@ / //").errors,
      error.error ≠ .unclosedComment := by
    decide +kernel
  exact ⟨closed, tokenize_append_lineBreak closed "/é /*", by decide +kernel, by decide +kernel⟩

end Pipewright
