import Pipewright.Span
import Pipewright.Text.Lines

set_option autoImplicit false

namespace Pipewright

open Text

class Explained (ε : Type) where
  label : ε → String
  message : ε → String

structure Located (ε : Type) where
  error : ε
  span : Span
deriving DecidableEq

def spaces (n : Nat) : String :=
  String.ofList (List.replicate n ' ')

def tildes (n : Nat) : String :=
  String.ofList (List.replicate n '~')

/-- The lines of the text that a span touches first and last, each above a row of marks. An empty
span has a caret at its place, a span within one line a tilde below each byte. Over several lines
the marks run to the end of the first line and up to the end of the span on the last one, with a
caret at each end. -/
def pointer (text : List Char) (lines : LineTable) (span : Span) : List String :=
  let first := lines.position span.start
  let last := lines.position span.stop
  let line (n : Nat) : List Char := lines.lineText text n
  if span.isEmpty then
    [String.ofList (line first.line), spaces first.column ++ "^"]
  else if first.line = last.line then
    [String.ofList (line first.line), spaces first.column ++ tildes (last.column - first.column)]
  else
    [String.ofList (line first.line),
      spaces first.column ++ "^" ++ tildes (byteSize (line first.line) - (first.column + 1)),
      String.ofList (line last.line),
      tildes (last.column - 1) ++ "^"]

namespace Located

variable {ε : Type} [Explained ε]

def explanation (located : Located ε) : String :=
  Explained.label located.error ++ ": " ++ Explained.message located.error

protected def toString (located : Located ε) : String :=
  located.span.toString ++ " :: " ++ located.explanation

instance : ToString (Located ε) := ⟨Located.toString⟩

def position (located : Located ε) (lines : LineTable) : Position :=
  lines.position located.span.start

def shortMessage (located : Located ε) (lines : LineTable) : String :=
  let place := located.position lines
  located.span.source ++ ":" ++ toString (place.line + 1) ++ ":" ++ toString (place.column + 1) ++
    " :: " ++ located.explanation

def fullMessage (located : Located ε) (text : String) : String :=
  let lines := LineTable.ofText text.toList
  "\n".intercalate (located.shortMessage lines :: "" :: pointer text.toList lines located.span)

end Located

end Pipewright
