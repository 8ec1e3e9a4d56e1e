set_option autoImplicit false

namespace Pipewright

structure Span where
  start : Nat
  size : Nat
  source : String
deriving DecidableEq

namespace Span

/-- The bytes from `start` up to `stop`; empty at `start` if `stop` lies before it. -/
def ofRange (source : String) (start stop : Nat) : Span :=
  ⟨start, stop - start, source⟩

def emptyAt (source : String) (start : Nat) : Span :=
  ofRange source start start

def stop (span : Span) : Nat :=
  span.start + span.size

def isEmpty (span : Span) : Bool :=
  span.size == 0

@[simp] theorem start_ofRange (source : String) (start stop : Nat) :
    (ofRange source start stop).start = start := rfl

@[simp] theorem source_ofRange (source : String) (start stop : Nat) :
    (ofRange source start stop).source = source := rfl

@[simp] theorem stop_ofRange (source : String) (start stop : Nat) :
    (ofRange source start stop).stop = max start stop := by
  simp only [Span.stop, ofRange]
  omega

theorem start_le_stop (span : Span) : span.start ≤ span.stop :=
  Nat.le_add_right _ _

theorem ext_stop {a b : Span} (start : a.start = b.start) (stop : a.stop = b.stop)
    (source : a.source = b.source) : a = b := by
  cases a
  cases b
  simp_all [Span.stop]

structure Conflict where
  left : Span
  right : Span
deriving DecidableEq

def merge (a b : Span) : Except Conflict Span :=
  if a.source = b.source then
    .ok (ofRange a.source (min a.start b.start) (max a.stop b.stop))
  else
    .error ⟨a, b⟩

/-- The least span around all of a list, joined from the left; an empty list has none. -/
def mergeAll : List Span → Except Conflict (Option Span)
  | [] => .ok none
  | first :: rest => some <$> rest.foldlM merge first

/-- The span made longer so as to reach `stop`; never made shorter. -/
def extendTo (span : Span) (stop : Nat) : Span :=
  ofRange span.source span.start (max span.stop stop)

def through (first last : Span) : Span :=
  first.extendTo last.stop

def contains (outer inner : Span) : Bool :=
  outer.source = inner.source && outer.start ≤ inner.start && inner.stop ≤ outer.stop

protected def toString (span : Span) : String :=
  toString span.start ++ "/" ++ toString span.size ++ " (" ++ span.source ++ ")"

instance : ToString Span := ⟨Span.toString⟩

protected def Conflict.toString (conflict : Conflict) : String :=
  "cannot merge spans '" ++ conflict.left.toString ++ "' and '" ++ conflict.right.toString ++
    "': conflicting source names"

instance : ToString Conflict := ⟨Conflict.toString⟩

end Span

end Pipewright
