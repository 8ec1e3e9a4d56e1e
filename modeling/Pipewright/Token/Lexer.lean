import Pipewright.Diagnostic
import Pipewright.Token.Piece

set_option autoImplicit false

namespace Pipewright

open Text

inductive LexError where
  | unknownChar (c : Char)
  | unclosedComment
deriving DecidableEq

namespace LexError

def quoted (c : Char) : String :=
  if c = '\'' then "\"" ++ c.toString ++ "\"" else "'" ++ c.toString ++ "'"

def message : LexError → String
  | .unknownChar c => "invalid character " ++ quoted c
  | .unclosedComment => "comment was never terminated"

instance : Explained LexError := ⟨fun _ => "syntax error", message⟩

end LexError

namespace Piece

theorem first_rest_shorter (c : Char) (cs : List Char) :
    (first c cs).2.length < (c :: cs).length := by
  have whole := congrArg List.length (chars_first c cs)
  have some := List.length_pos_iff.mpr (chars_first_ne_nil c cs)
  simp only [List.length_append] at whole
  omega

def span (source : String) (start : Nat) (piece : Piece) : Span :=
  Span.ofRange source start (start + byteSize piece.chars)

def token? (source : String) (start : Nat) (piece : Piece) : Option Token :=
  match piece with
  | .lexeme kind chars => some ⟨kind, String.ofList chars, piece.span source start⟩
  | .stray c => some ⟨.invalid, c.toString, piece.span source start⟩
  | .blank _ | .lineComment _ | .blockComment _ | .openComment _ => none

def error? (source : String) (start : Nat) (piece : Piece) : Option (Located LexError) :=
  match piece with
  | .stray c => some ⟨.unknownChar c, piece.span source start⟩
  | .openComment _ => some ⟨.unclosedComment, piece.span source start⟩
  | .blank _ | .lineComment _ | .blockComment _ | .lexeme _ _ => none

end Piece

def pieces : List Char → List Piece
  | [] => []
  | c :: cs => (Piece.first c cs).1 :: pieces (Piece.first c cs).2
termination_by cs => cs.length
decreasing_by exact Piece.first_rest_shorter c cs

theorem flatMap_pieces (text : List Char) : (pieces text).flatMap Piece.chars = text := by
  fun_induction pieces text with
  | case1 => rfl
  | case2 c cs ih => rw [List.flatMap_cons, ih, Piece.chars_first]

def placed : Nat → List Piece → List (Nat × Piece)
  | _, [] => []
  | offset, piece :: rest => (offset, piece) :: placed (offset + byteSize piece.chars) rest

structure Lexed where
  tokens : List Token
  errors : List (Located LexError)

def tokenize (source text : String) : Lexed :=
  let all := placed 0 (pieces text.toList)
  { tokens := all.filterMap (fun (start, piece) => piece.token? source start) ++
      [.eofAt source (byteSize text.toList)]
    errors := all.filterMap fun (start, piece) => piece.error? source start }

/-- A text being read: `rest` starts at `offset`, and `errors` are those found before it. -/
structure Lexer where
  source : String
  offset : Nat
  rest : List Char
  errors : List (Located LexError)
  finished : Bool

namespace Lexer

def ofText (source text : String) : Lexer :=
  ⟨source, 0, text.toList, [], false⟩

def skip (lexer : Lexer) (piece : Piece) (rest : List Char) : Lexer :=
  { lexer with
    offset := lexer.offset + byteSize piece.chars
    rest
    errors := lexer.errors ++ (piece.error? lexer.source lexer.offset).toList }

def next (lexer : Lexer) : Option Token × Lexer :=
  if lexer.finished then (none, lexer)
  else
    match _ : lexer.rest with
    | [] => (some (.eofAt lexer.source lexer.offset), { lexer with finished := true })
    | c :: cs =>
        let after := lexer.skip (Piece.first c cs).1 (Piece.first c cs).2
        match (Piece.first c cs).1.token? lexer.source lexer.offset with
        | some token => (some token, after)
        | none => next after
termination_by lexer.rest.length
decreasing_by
  simp only [skip, *]
  exact Piece.first_rest_shorter c cs

def take : Nat → Lexer → List (Option Token) × Lexer
  | 0, lexer => ([], lexer)
  | n + 1, lexer =>
      let (token, after) := lexer.next
      let (tokens, last) := take n after
      (token :: tokens, last)

end Lexer

end Pipewright
