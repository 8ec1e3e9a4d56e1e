import Pipewright.Program

set_option autoImplicit false

namespace Pipewright

def Operator.combine (op : Operator) (lhs rhs : Expr) : Except Span.Conflict Expr :=
  (lhs.span.merge rhs.span).map fun span =>
    match op with
    | .pipe => .call rhs [lhs] span
    | .awaitPipe => .await (.call rhs [lhs] span) span
    | op => .binary op lhs rhs span

inductive OperatorTree where
  | leaf (expr : Expr)
  | node (op : Operator) (left right : OperatorTree)

namespace OperatorTree

/-- Adds an operator and its right operand at the end of the chain. A tighter operator takes only
the right side of the root as its left operand, any other takes the whole tree. -/
def insert (tree : OperatorTree) (op : Operator) (operand : Expr) : OperatorTree :=
  match tree with
  | .node root left right =>
      if root.precedence < op.precedence then .node root left (right.insert op operand)
      else .node op (.node root left right) (.leaf operand)
  | .leaf expr => .node op (.leaf expr) (.leaf operand)

def ofChain (head : Expr) (pairs : List (Operator × Expr)) : OperatorTree :=
  pairs.foldl (fun tree (op, operand) => tree.insert op operand) (.leaf head)

/-- Walks down the left edge of a tree to its first operand. The operators on the way are kept in
`frames`, each with its right side, the lowest first. -/
def descend : OperatorTree → List (Operator × OperatorTree) → Expr × List (Operator × OperatorTree)
  | .leaf expr, frames => (expr, frames)
  | .node op left right, frames => left.descend ((op, right) :: frames)

theorem sizeOf_lt_of_mem_descend (tree : OperatorTree) (frames : List (Operator × OperatorTree))
    (frame : Operator × OperatorTree) (member : frame ∈ (tree.descend frames).2) :
    frame ∈ frames ∨ sizeOf frame.2 < sizeOf tree := by
  induction tree generalizing frames with
  | leaf expr => exact .inl member
  | node op left right leftward _ =>
      obtain earlier | smaller := leftward _ member
      · obtain rfl | earlier := List.mem_cons.mp earlier
        · exact .inr (by simp only [node.sizeOf_spec]; omega)
        · exact .inl earlier
      · exact .inr (by simp only [node.sizeOf_spec]; omega)

def toExpr (tree : OperatorTree) : Except Span.Conflict Expr :=
  (tree.descend []).2.attach.foldlM
    (fun lhs frame => do
      let rhs ← frame.val.2.toExpr
      frame.val.1.combine lhs rhs)
    (tree.descend []).1
termination_by sizeOf tree
decreasing_by
  have smaller := sizeOf_lt_of_mem_descend tree [] frame.val frame.property
  simpa using smaller

end OperatorTree

def resolve (head : Expr) (pairs : List (Operator × Expr)) : Except Span.Conflict Expr :=
  (OperatorTree.ofChain head pairs).toExpr

end Pipewright
