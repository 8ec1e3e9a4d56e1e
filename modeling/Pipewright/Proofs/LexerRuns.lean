import Mathlib.Data.List.ReduceOption
import Pipewright.Proofs.CommentDepth
import Pipewright.Proofs.Compiling
import Pipewright.Proofs.LexicalErrors

set_option autoImplicit false

namespace Pipewright

open Text

theorem Piece.stop_of_token? {source : String} {start : Nat} {piece : Piece} {token : Token}
    (made : piece.token? source start = some token) :
    token.span.stop = start + byteSize piece.chars := by
  cases piece <;> cases made <;> simp [Piece.span]

theorem bounds_of_mem_errorsOf {source : String} {offset : Nat} {row : List Piece}
    (some : ∀ piece ∈ row, piece.chars ≠ []) {error : Located LexError}
    (member : error ∈ errorsOf source offset row) :
    offset ≤ error.span.start ∧
      error.span.start < offset + byteSize (row.flatMap Piece.chars) := by
  obtain ⟨place, inside, made⟩ := List.mem_filterMap.mp member
  have start := le_of_mem_placed place inside
  have stop := stop_le_of_mem_placed place inside
  have size : byteSize place.2.chars ≠ 0 :=
    mt byteSize_eq_zero.mp (some place.2 (snd_mem_of_mem_placed inside))
  rw [Piece.start_of_error? made]
  omega

namespace Lexer

def pending (lexer : Lexer) : List Token :=
  if lexer.finished then []
  else
    tokensOf lexer.source lexer.offset (pieces lexer.rest) ++
      [.eofAt lexer.source (lexer.offset + byteSize lexer.rest)]

/-- What is read between two states of a lexer is `row`, and its errors have been added. -/
structure Passes (before : Lexer) (row : List Piece) (after : Lexer) : Prop where
  source : after.source = before.source
  pieces : pieces before.rest = row ++ pieces after.rest
  offset : after.offset = before.offset + byteSize (row.flatMap Piece.chars)
  errors : after.errors = before.errors ++ errorsOf before.source before.offset row

structure Gives (before : Lexer) (token : Token) (after : Lexer) : Prop where
  pending : before.pending = token :: after.pending
  stop : after.offset = token.span.stop
  passes : ∃ row, Passes before row after

/-- The tokens that were pending are returned up to the `n`-th, then none, and the lexer stands at
the end of the last of them. -/
structure Returns (before : Lexer) (n : Nat) (returned : List (Option Token)) (after : Lexer) :
    Prop where
  returned : returned =
    (before.pending.take n).map some ++ List.replicate (n - before.pending.length) none
  stop : after.offset = ((before.pending.take n).getLast?.map (·.span.stop)).getD before.offset
  passes : ∃ row, Passes before row after

-- The mark `finished` is left open, since the token of kind `eof` sets it and reads nothing.
theorem passes_nil (lexer : Lexer) (finished : Bool) :
    Passes lexer [] { lexer with finished } where
  source := rfl
  pieces := rfl
  offset := by simp
  errors := by simp

theorem Passes.trans {first second third : Lexer} {front back : List Piece}
    (start : Passes first front second) (continued : Passes second back third) :
    Passes first (front ++ back) third where
  source := continued.source.trans start.source
  pieces := by rw [start.pieces, continued.pieces, List.append_assoc]
  offset := by
    rw [continued.offset, start.offset, List.flatMap_append, byteSize_append, Nat.add_assoc]
  errors := by
    rw [continued.errors, start.errors, start.source, start.offset, errorsOf_append,
      List.append_assoc]

section

variable {lexer : Lexer} {c : Char} {cs : List Char}

theorem passes_skip (starts : lexer.rest = c :: cs) :
    Passes lexer [(Piece.first c cs).1]
      (lexer.skip (Piece.first c cs).1 (Piece.first c cs).2) where
  source := rfl
  pieces := by rw [starts, pieces]; rfl
  offset := by simp [skip]
  errors := by simp [skip]

theorem pending_eq_append_skip (unfinished : lexer.finished = false)
    (starts : lexer.rest = c :: cs) :
    lexer.pending = ((Piece.first c cs).1.token? lexer.source lexer.offset).toList ++
      (lexer.skip (Piece.first c cs).1 (Piece.first c cs).2).pending := by
  have size := congrArg byteSize (Piece.chars_first c cs)
  rw [byteSize_append] at size
  simp only [pending, skip, unfinished, starts, pieces, tokensOf_cons, ← size, Bool.false_eq_true,
    if_false, List.append_assoc, Nat.add_assoc]

theorem next_of_finished (finished : lexer.finished = true) : lexer.next = (none, lexer) := by
  rw [next, if_pos finished]

theorem next_of_rest_eq_nil (unfinished : lexer.finished = false) (ended : lexer.rest = []) :
    lexer.next = (some (.eofAt lexer.source lexer.offset), { lexer with finished := true }) := by
  obtain ⟨source, offset, rest, errors, finished⟩ := lexer
  cases unfinished
  cases ended
  rw [next]
  rfl

theorem next_of_token?_eq_some {token : Token} (unfinished : lexer.finished = false)
    (starts : lexer.rest = c :: cs)
    (made : (Piece.first c cs).1.token? lexer.source lexer.offset = some token) :
    lexer.next = (some token, lexer.skip (Piece.first c cs).1 (Piece.first c cs).2) := by
  obtain ⟨source, offset, rest, errors, finished⟩ := lexer
  cases unfinished
  cases starts
  rw [next]
  simp only [Bool.false_eq_true, if_false, made]

theorem gives_eof (unfinished : lexer.finished = false) (ended : lexer.rest = []) :
    lexer.Gives (.eofAt lexer.source lexer.offset) { lexer with finished := true } where
  pending := by simp [pending, unfinished, ended, pieces]
  stop := by simp [Token.eofAt, Span.emptyAt]
  passes := ⟨[], passes_nil lexer true⟩

theorem gives_skip {token : Token} (unfinished : lexer.finished = false)
    (starts : lexer.rest = c :: cs)
    (made : (Piece.first c cs).1.token? lexer.source lexer.offset = some token) :
    lexer.Gives token (lexer.skip (Piece.first c cs).1 (Piece.first c cs).2) where
  pending := by
    rw [pending_eq_append_skip unfinished starts, made, Option.toList_some, List.singleton_append]
  stop := (Piece.stop_of_token? made).symm
  passes := ⟨_, passes_skip starts⟩

theorem Gives.of_skip {token : Token} {after : Lexer} (unfinished : lexer.finished = false)
    (starts : lexer.rest = c :: cs)
    (skipped : (Piece.first c cs).1.token? lexer.source lexer.offset = none)
    (later : (lexer.skip (Piece.first c cs).1 (Piece.first c cs).2).Gives token after) :
    lexer.Gives token after where
  pending := by
    rw [pending_eq_append_skip unfinished starts, skipped, Option.toList_none, List.nil_append,
      later.pending]
  stop := later.stop
  passes := later.passes.imp' _ fun _ => (passes_skip starts).trans

end

theorem exists_next {lexer : Lexer} (unfinished : lexer.finished = false) :
    ∃ token after, lexer.next = (some token, after) ∧ lexer.Gives token after := by
  induction lexer using next.induct with
  | case1 lexer finished => rw [unfinished] at finished; cases finished
  | case2 lexer _ ended =>
      exact ⟨_, _, next_of_rest_eq_nil unfinished ended, gives_eof unfinished ended⟩
  | case3 lexer _ c cs starts token made =>
      exact ⟨token, _, next_of_token?_eq_some unfinished starts made,
        gives_skip unfinished starts made⟩
  | case4 lexer _ c cs starts after skipped ih =>
      obtain ⟨token, last, given, gives⟩ := ih unfinished
      refine ⟨token, last, ?_, gives.of_skip unfinished starts skipped⟩
      rw [next_of_token?_eq_none unfinished starts skipped, given]

theorem returns_zero (lexer : Lexer) : lexer.Returns 0 [] lexer where
  returned := by simp
  stop := by simp
  passes := ⟨[], passes_nil lexer lexer.finished⟩

theorem Gives.returns {before middle after : Lexer} {token : Token} {n : Nat}
    {returned : List (Option Token)} (gives : before.Gives token middle)
    (others : middle.Returns n returned after) :
    before.Returns (n + 1) (some token :: returned) after where
  returned := by simp [gives.pending, others.returned]
  stop := by
    rw [others.stop, gives.pending, gives.stop, List.take_succ_cons, List.getLast?_cons]
    simp [Option.getD_map]
  passes := by
    obtain ⟨front, start⟩ := gives.passes
    obtain ⟨back, continued⟩ := others.passes
    exact ⟨front ++ back, start.trans continued⟩

theorem Returns.exhausted {before after : Lexer} {n : Nat} {returned : List (Option Token)}
    (others : before.Returns n returned after) (exhausted : before.pending = []) :
    before.Returns (n + 1) (none :: returned) after where
  returned := by simp [others.returned, exhausted, List.replicate_succ]
  stop := by simp [others.stop, exhausted]
  passes := others.passes

theorem returns_take (lexer : Lexer) (n : Nat) :
    lexer.Returns n (lexer.take n).1 (lexer.take n).2 := by
  induction n generalizing lexer with
  | zero => exact returns_zero lexer
  | succ n ih =>
      by_cases finished : lexer.finished = true
      · simp only [take, next_of_finished finished]
        exact (ih lexer).exhausted (by simp [pending, finished])
      · obtain ⟨token, after, given, gives⟩ := exists_next (Bool.eq_false_iff.mpr finished)
        simp only [take, given]
        exact gives.returns (ih after)

theorem pending_ofText (source text : String) :
    (ofText source text).pending = (tokenize source text).tokens := by
  simp [pending, ofText, tokenize_tokens]

namespace Passes

variable {source text : String} {row : List Piece} {lexer : Lexer}

theorem errors_tokenize (passes : Passes (ofText source text) row lexer) :
    (tokenize source text).errors =
      lexer.errors ++ errorsOf source lexer.offset (Pipewright.pieces lexer.rest) := by
  have whole : Pipewright.pieces text.toList = row ++ Pipewright.pieces lexer.rest := passes.pieces
  rw [tokenize_errors_eq, whole, errorsOf_append, passes.errors, passes.offset]
  rfl

theorem filter_errors (passes : Passes (ofText source text) row lexer) :
    (tokenize source text).errors.filter (fun error => error.span.start < lexer.offset) =
      lexer.errors := by
  have nonempty : ∀ piece ∈ row ++ Pipewright.pieces lexer.rest, piece.chars ≠ [] := by
    rw [← passes.pieces]
    exact chars_ne_nil_of_mem_pieces _
  rw [List.forall_mem_append] at nonempty
  have front : ∀ error ∈ lexer.errors, error.span.start < lexer.offset := by
    rw [passes.errors, passes.offset]
    exact fun error member => (bounds_of_mem_errorsOf nonempty.1 member).2
  have back : ∀ error ∈ errorsOf source lexer.offset (Pipewright.pieces lexer.rest),
      ¬ error.span.start < lexer.offset :=
    fun error member => Nat.not_lt.mpr (bounds_of_mem_errorsOf nonempty.2 member).1
  rw [passes.errors_tokenize, List.filter_append, List.filter_eq_self.mpr (by simpa using front),
    List.filter_eq_nil_iff.mpr (by simpa using back), List.append_nil]

end Passes

theorem tokens_eq_takeWhile_append (source text : String) :
    (tokenize source text).tokens =
      (tokenize source text).tokens.takeWhile (fun token => token.kind ≠ .eof) ++
        [.eofAt source text.utf8ByteSize] := by
  obtain ⟨front, whole, all⟩ := exists_tokens_tokenize source text
  rw [whole, takeWhile_concat_eofAt fun token member => (all token member).1]

def lastStop? (returned : List (Option Token)) : Option Nat :=
  returned.reduceOption.getLast?.map (·.span.stop)

theorem Returns.lastStop? {before after : Lexer} {n : Nat} {returned : List (Option Token)}
    (returns : before.Returns n returned after) :
    lastStop? returned = (before.pending.take n).getLast?.map (·.span.stop) := by
  have tokens : returned.reduceOption = before.pending.take n := by
    rw [returns.returned, List.reduceOption_append, List.reduceOption_replicate_none,
      List.append_nil, List.reduceOption, List.filterMap_map]
    exact List.filterMap_some
  rw [Lexer.lastStop?, tokens]

/-- The calls of `next` return the tokens of the text one after the other, up to the only one of
kind `eof`, and then none. The errors found so far are the first errors of the text, exactly those
that start before the end of the last token returned. -/
theorem take_ofText (source text : String) (n : Nat) :
    ∃ returned lexer, (ofText source text).take n = (returned, lexer) ∧
      returned = ((tokenize source text).tokens.take n).map some ++
        List.replicate (n - (tokenize source text).tokens.length) none ∧
      (tokenize source text).tokens =
        (tokenize source text).tokens.takeWhile (fun token => token.kind ≠ .eof) ++
          [.eofAt source text.utf8ByteSize] ∧
      lexer.errors = (tokenize source text).errors.filter (fun error =>
        (lastStop? returned).any fun stop => error.span.start < stop) ∧
      lexer.errors <+: (tokenize source text).errors ∧
      ((ofText source text).take 0).2.errors = [] := by
  have returns := returns_take (ofText source text) n
  obtain ⟨row, passes⟩ := returns.passes
  refine ⟨_, _, rfl, ?_, tokens_eq_takeWhile_append source text, ?_, ?_, rfl⟩
  · rw [returns.returned, pending_ofText]
  · rw [← passes.filter_errors, returns.stop, returns.lastStop?]
    -- Before the first call the lexer stands at the start of the text, and no error is before it.
    cases ((ofText source text).pending.take n).getLast? with
    | none => simp [ofText]
    | some token => simp
  · rw [passes.errors_tokenize]
    exact List.prefix_append _ _

-- The comment that is left open is found only when the end of input is asked for.
example : ((ofText "main" "é x /* @").take 2).2.errors =
    [⟨.unknownChar 'é', .ofRange "main" 0 2⟩] := by
  decide +kernel

end Lexer

end Pipewright
