import Pipewright.Text.Bytes

set_option autoImplicit false

namespace Pipewright.Text

structure Position where
  line : Nat
  column : Nat
deriving DecidableEq

structure LineTable where
  starts : List Nat
  size : Nat
deriving DecidableEq

def breaksFrom : Nat → List Char → List Nat
  | _, [] => []
  | offset, c :: cs =>
      if c = '\n' then
        (offset + c.utf8Size) :: breaksFrom (offset + c.utf8Size) cs
      else
        breaksFrom (offset + c.utf8Size) cs

namespace LineTable

def ofText (text : List Char) : LineTable :=
  ⟨0 :: breaksFrom 0 text, byteSize text⟩

def lineCount (table : LineTable) : Nat :=
  table.starts.length

/-- Where a line starts and where it ends, its line break left out. -/
def lineRange? (table : LineTable) (line : Nat) : Option (Nat × Nat) :=
  table.starts[line]?.map fun start =>
    (start, (table.starts[line + 1]?.map (· - 1)).getD table.size)

/-- The position of an offset: on the last line that starts at or before it. An offset past the
end counts as the end. -/
def position (table : LineTable) (offset : Nat) : Position :=
  let offset := min offset table.size
  let upTo := table.starts.takeWhile (· ≤ offset)
  ⟨upTo.length - 1, offset - upTo.getLast?.getD 0⟩

def lineText (table : LineTable) (text : List Char) (line : Nat) : List Char :=
  match table.lineRange? line with
  | some (start, stop) => slice text start stop
  | none => []

end LineTable

end Pipewright.Text
