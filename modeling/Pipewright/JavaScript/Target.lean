import Pipewright.JavaScript
import Pipewright.Program

set_option autoImplicit false

namespace Pipewright

open JavaScript (BinaryOperator LogicalOperator)

/-- What stands for an operator in JavaScript: an operator there, a function of the run-time
library, or the passing of the left operand to the right one, with or without waiting for it. -/
inductive Target where
  | binary (operator : BinaryOperator)
  | logical (operator : LogicalOperator)
  | helper (name : String)
  | passing
  | awaitedPassing

def Operator.target : Operator → Target
  | .pipe => .passing
  | .awaitPipe => .awaitedPassing
  | .and => .logical .and
  | .or => .logical .or
  | .eq => .binary .strictEq
  | .ne => .binary .strictNe
  | .is => .helper "is"
  | .le => .binary .le
  | .ge => .binary .ge
  | .lt => .binary .lt
  | .gt => .binary .gt
  | .add => .binary .plus
  | .sub => .binary .minus
  | .mul => .binary .times
  | .div => .binary .div
  | .mod => .binary .mod
  | .pow => .binary .exp
  | .bitAnd => .binary .bitAnd
  | .bitOr => .binary .bitOr

namespace JavaScript

def helpers : String := "__dw"

namespace Expression

def callOf (callee : Expression) (arguments : List Expression) : Expression :=
  .call callee arguments false

def memberOf (object : Expression) (property : String) : Expression :=
  .member object (.identifier property) false false

end Expression

end JavaScript

open JavaScript.Expression (callOf memberOf)

def Target.apply (left right : JavaScript.Expression) : Target → JavaScript.Expression
  | .binary operator => .binary operator left right
  | .logical operator => .logical operator left right
  | .helper name => callOf (memberOf (.identifier JavaScript.helpers) name) [left, right]
  | .passing => callOf right [left]
  | .awaitedPassing => .await (callOf right [left])

namespace Expr

mutual

def toJavaScript : Expr → JavaScript.Expression
  | .ident name => .identifier name.name
  | .integer literal => .literal literal.value literal.raw
  | .call callee args _ => callOf callee.toJavaScript (toJavaScripts args)
  | .member _ object property _ => memberOf object.toJavaScript property.name
  | .binary op lhs rhs _ => op.target.apply lhs.toJavaScript rhs.toJavaScript
  | .await expr _ => .await expr.toJavaScript

def toJavaScripts : List Expr → List JavaScript.Expression
  | [] => []
  | expr :: rest => expr.toJavaScript :: toJavaScripts rest

end

@[simp] theorem toJavaScripts_eq_map (exprs : List Expr) :
    toJavaScripts exprs = exprs.map toJavaScript := by
  induction exprs with
  | nil => rfl
  | cons expr rest ih => simp [toJavaScripts, ih]

end Expr

def Mutability.variableKind : Mutability → JavaScript.VariableKind
  | .mutable => .assignable
  | .immutable => .constant

def Stmt.toJavaScript : Stmt → JavaScript.Statement
  | .declaration decl =>
      .declaration decl.mutability.variableKind
        [⟨.identifier decl.name.name, decl.value.toJavaScript⟩]
  | .expression expr => .expression expr.toJavaScript

def Program.toJavaScript (program : Program) : JavaScript.Program :=
  ⟨program.statements.map Stmt.toJavaScript⟩

end Pipewright
