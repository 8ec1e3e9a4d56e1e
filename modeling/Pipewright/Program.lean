import Pipewright.ParseTree

set_option autoImplicit false

namespace Pipewright

structure Ident where
  name : String
  span : Span
deriving DecidableEq

structure IntLiteral where
  value : UInt64
  raw : String
  span : Span
deriving DecidableEq

inductive Expr where
  | ident (ident : Ident)
  | integer (literal : IntLiteral)
  | call (callee : Expr) (args : List Expr) (span : Span)
  | member (access : Access) (object : Expr) (property : Ident) (span : Span)
  | binary (op : Operator) (lhs rhs : Expr) (span : Span)
  | await (expr : Expr) (span : Span)

namespace Expr

def span : Expr → Span
  | .ident name => name.span
  | .integer literal => literal.span
  | .call _ _ span | .member _ _ _ span | .binary _ _ _ span | .await _ span => span

/-- The expressions directly within this one. Those of a call come in the order of their starts,
since a piped argument stands before its callee. -/
def children : Expr → List Expr
  | .ident _ | .integer _ => []
  | .call callee args _ => (callee :: args).mergeSort fun a b => a.span.start ≤ b.span.start
  | .member _ object _ _ => [object]
  | .binary _ lhs rhs _ => [lhs, rhs]
  | .await expr _ => [expr]

end Expr

inductive Mutability where
  | mutable | immutable
deriving DecidableEq

structure Declaration where
  mutability : Mutability
  name : Ident
  value : Expr
  span : Span

inductive Stmt where
  | declaration (decl : Declaration)
  | expression (expr : Expr)

namespace Stmt

def expr : Stmt → Expr
  | .declaration decl => decl.value
  | .expression whole => whole

def span : Stmt → Span
  | .declaration decl => decl.span
  | .expression whole => whole.span

end Stmt

structure Program where
  statements : List Stmt
  span : Span

end Pipewright
