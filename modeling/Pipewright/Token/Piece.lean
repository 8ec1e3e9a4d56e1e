import Pipewright.Token
import Pipewright.Text.CharClass

set_option autoImplicit false

namespace Pipewright

open Text

/-- A piece of a text. An open comment is a block comment that the text ends in. -/
inductive Piece where
  | blank (c : Char)
  | lineComment (chars : List Char)
  | blockComment (chars : List Char)
  | openComment (chars : List Char)
  | lexeme (kind : Kind) (chars : List Char)
  | stray (c : Char)
deriving DecidableEq

/-- What follows the end of a block comment that lies within `depth` others, from inside of it.
The marks `/*` and `*/` are taken from left to right and share no character. -/
def afterComment? : Nat → List Char → Option (List Char)
  | depth, '/' :: '*' :: cs => afterComment? (depth + 1) cs
  | 0, '*' :: '/' :: cs => some cs
  | depth + 1, '*' :: '/' :: cs => afterComment? depth cs
  | depth, _ :: cs => afterComment? depth cs
  | _, [] => none

theorem afterComment?_suffix {depth : Nat} {cs rest : List Char}
    (h : afterComment? depth cs = some rest) : rest <:+ cs := by
  fun_induction afterComment? depth cs with
  | case1 depth cs ih => exact (ih h).trans ⟨['/', '*'], rfl⟩
  | case2 cs => cases h; exact ⟨['*', '/'], rfl⟩
  | case3 depth cs ih => exact (ih h).trans ⟨['*', '/'], rfl⟩
  | case4 depth c cs _ _ _ ih => exact (ih h).trans (List.suffix_cons c cs)
  | case5 => cases h

def isWordChar (c : Char) : Bool :=
  c.isAlphanum || c == '_'

namespace Piece

def chars : Piece → List Char
  | .blank c | .stray c => [c]
  | .lineComment cs | .blockComment cs | .openComment cs | .lexeme _ cs => cs

def run (p : Char → Bool) (make : List Char → Piece) (text : List Char) : Piece × List Char :=
  (make (text.takeWhile p), text.dropWhile p)

def comment (inner : List Char) : Piece × List Char :=
  match afterComment? 0 inner with
  | some rest => (.blockComment ('/' :: '*' :: inner.take (inner.length - rest.length)), rest)
  | none => (.openComment ('/' :: '*' :: inner), [])

def word (chars : List Char) : Piece :=
  .lexeme ((Kind.ofWord? (String.ofList chars)).getD .ident) chars

def symbol (c : Char) (cs : List Char) : Piece × List Char :=
  match Kind.ofSymbol? (c :: cs) with
  | some kind => (.lexeme kind kind.chars, (c :: cs).drop kind.chars.length)
  | none => (.stray c, cs)

def lexemeOrStray (c : Char) (cs : List Char) : Piece × List Char :=
  if c.isDigit then run Char.isDigit (.lexeme .integer) (c :: cs)
  else if isWordChar c then run isWordChar word (c :: cs)
  else symbol c cs

def first (c : Char) (cs : List Char) : Piece × List Char :=
  match c, cs with
  | '/', '/' :: _ => run (· != '\n') .lineComment (c :: cs)
  | '/', '*' :: inner => comment inner
  | _, _ => if isBlank c then (.blank c, cs) else lexemeOrStray c cs

theorem chars_comment (inner : List Char) :
    (comment inner).1.chars ++ (comment inner).2 = '/' :: '*' :: inner := by
  unfold comment
  split
  · next rest h =>
      have suffix := afterComment?_suffix h
      rw [List.suffix_iff_eq_drop] at suffix
      simp only [chars, List.cons_append, List.cons.injEq, true_and]
      conv => lhs; rhs; rw [suffix]
      exact List.take_append_drop _ _
  · simp [chars]

theorem chars_symbol (c : Char) (cs : List Char) :
    (symbol c cs).1.chars ++ (symbol c cs).2 = c :: cs := by
  unfold symbol
  split
  · next kind h =>
      have leads : kind.chars.isPrefixOf (c :: cs) = true := by simpa using List.find?_some h
      obtain ⟨rest, same⟩ := List.isPrefixOf_iff_prefix.mp leads
      simp [chars, ← same]
  · rfl

theorem chars_lexemeOrStray (c : Char) (cs : List Char) :
    (lexemeOrStray c cs).1.chars ++ (lexemeOrStray c cs).2 = c :: cs := by
  unfold lexemeOrStray
  split
  · exact List.takeWhile_append_dropWhile
  · split
    · exact List.takeWhile_append_dropWhile
    · exact chars_symbol c cs

theorem chars_first (c : Char) (cs : List Char) :
    (first c cs).1.chars ++ (first c cs).2 = c :: cs := by
  unfold first
  split
  · exact List.takeWhile_append_dropWhile
  · exact chars_comment _
  · split
    · rfl
    · exact chars_lexemeOrStray c cs

theorem chars_first_ne_nil (c : Char) (cs : List Char) : (first c cs).1.chars ≠ [] := by
  unfold first
  split
  · simp [run, chars]
  · unfold comment
    split <;> simp [chars]
  · split
    · simp [chars]
    · unfold lexemeOrStray
      split
      · simp [run, chars, *]
      · split
        · simp [run, word, chars, *]
        · unfold symbol
          split
          · next kind h =>
              exact Kind.chars_ne_nil_of_mem_symbols kind (List.mem_of_find?_eq_some h)
          · simp [chars]

end Piece

end Pipewright
