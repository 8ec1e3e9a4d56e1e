import Mathlib.Data.List.Forall2
import Pipewright.Proofs.BarePrograms

set_option autoImplicit false

namespace Pipewright

def Expr.isHelper : Expr :=
  .member .dot (.ident ⟨"__dw", .nowhere⟩) ⟨"is", .nowhere⟩ .nowhere

def Operator.core (lhs rhs : Expr) : Operator → Expr
  | .pipe => .call rhs [lhs] .nowhere
  | .awaitPipe => .await (.call rhs [lhs] .nowhere) .nowhere
  | .is => .call .isHelper [lhs, rhs] .nowhere
  | op => .binary op lhs rhs .nowhere

namespace Expr

mutual

def core : Expr → Expr
  | .ident name => .ident name.bare
  | .integer literal => .integer literal.bare
  | .call callee args _ => .call callee.core (cores args) .nowhere
  | .member _ object property _ => .member .dot object.core property.bare .nowhere
  | .binary op lhs rhs _ => op.core lhs.core rhs.core
  | .await expr _ => .await expr.core .nowhere

def cores : List Expr → List Expr
  | [] => []
  | expr :: rest => expr.core :: cores rest

end

end Expr

def Stmt.core : Stmt → Stmt
  | .declaration decl =>
      .declaration ⟨decl.mutability, decl.name.bare, decl.value.core, .nowhere⟩
  | .expression expr => .expression expr.core

def Program.core (program : Program) : Program :=
  ⟨program.statements.map Stmt.core, .nowhere⟩

theorem Operator.toJavaScript_core (op : Operator) (lhs rhs : Expr) :
    (op.core lhs rhs).toJavaScript = op.target.apply lhs.toJavaScript rhs.toJavaScript := by
  cases op <;> rfl

mutual

theorem Expr.toJavaScript_core (expr : Expr) : expr.core.toJavaScript = expr.toJavaScript := by
  match expr with
  | .ident name => rfl
  | .integer literal => rfl
  | .call callee args span =>
      simp only [Expr.core, Expr.toJavaScript, callee.toJavaScript_core, toJavaScripts_cores args]
  | .member access object property span =>
      simp only [Expr.core, Expr.toJavaScript, object.toJavaScript_core, Ident.bare]
  | .binary op lhs rhs span =>
      rw [Expr.core, op.toJavaScript_core, lhs.toJavaScript_core, rhs.toJavaScript_core,
        Expr.toJavaScript]
  | .await inner span => simp only [Expr.core, Expr.toJavaScript, inner.toJavaScript_core]

theorem toJavaScripts_cores (exprs : List Expr) :
    Expr.toJavaScripts (Expr.cores exprs) = Expr.toJavaScripts exprs := by
  match exprs with
  | [] => rfl
  | expr :: rest =>
      rw [Expr.cores, Expr.toJavaScripts, Expr.toJavaScripts, expr.toJavaScript_core,
        toJavaScripts_cores rest]

end

namespace JavaScript

def BinaryOperator.source : BinaryOperator → Operator
  | .strictEq => .eq
  | .strictNe => .ne
  | .lt => .lt
  | .le => .le
  | .gt => .gt
  | .ge => .ge
  | .plus => .add
  | .minus => .sub
  | .times => .mul
  | .div => .div
  | .mod => .mod
  | .exp => .pow
  | .bitAnd => .bitAnd
  | .bitOr => .bitOr

def LogicalOperator.source : LogicalOperator → Operator
  | .and => .and
  | .or => .or

namespace Expression

-- The property of a member is an identifier in the tree of every program.
def name : Expression → String
  | .identifier name => name
  | _ => ""

mutual

def toExpr : Expression → Expr
  | .identifier name => .ident ⟨name, .nowhere⟩
  | .literal value raw => .integer ⟨value, raw, .nowhere⟩
  | .call callee arguments _ => .call callee.toExpr (toExprs arguments) .nowhere
  | .member object property _ _ => .member .dot object.toExpr ⟨property.name, .nowhere⟩ .nowhere
  | .binary operator left right => .binary operator.source left.toExpr right.toExpr .nowhere
  | .logical operator left right => .binary operator.source left.toExpr right.toExpr .nowhere
  | .await argument => .await argument.toExpr .nowhere

def toExprs : List Expression → List Expr
  | [] => []
  | expression :: rest => expression.toExpr :: toExprs rest

end

end Expression

end JavaScript

theorem Operator.toExpr_target (op : Operator) (left right : JavaScript.Expression) :
    (op.target.apply left right).toExpr = op.core left.toExpr right.toExpr := by
  cases op <;> rfl

mutual

theorem Expr.toExpr_toJavaScript (expr : Expr) : expr.toJavaScript.toExpr = expr.core := by
  match expr with
  | .ident name => rfl
  | .integer literal => rfl
  | .call callee args span =>
      rw [Expr.toJavaScript, JavaScript.Expression.callOf, JavaScript.Expression.toExpr,
        callee.toExpr_toJavaScript, toExprs_toJavaScripts args, Expr.core]
  | .member access object property span =>
      rw [Expr.toJavaScript, JavaScript.Expression.memberOf, JavaScript.Expression.toExpr,
        object.toExpr_toJavaScript, Expr.core]
      rfl
  | .binary op lhs rhs span =>
      rw [Expr.toJavaScript, op.toExpr_target, lhs.toExpr_toJavaScript, rhs.toExpr_toJavaScript,
        Expr.core]
  | .await inner span =>
      rw [Expr.toJavaScript, JavaScript.Expression.toExpr, inner.toExpr_toJavaScript, Expr.core]

theorem toExprs_toJavaScripts (exprs : List Expr) :
    JavaScript.Expression.toExprs (Expr.toJavaScripts exprs) = Expr.cores exprs := by
  match exprs with
  | [] => rfl
  | expr :: rest =>
      rw [Expr.toJavaScripts, JavaScript.Expression.toExprs, expr.toExpr_toJavaScript,
        toExprs_toJavaScripts rest, Expr.cores]

end

theorem Expr.toJavaScript_eq_iff_core {expr other : Expr} :
    expr.toJavaScript = other.toJavaScript ↔ expr.core = other.core := by
  constructor
  · intro same
    rw [← expr.toExpr_toJavaScript, same, other.toExpr_toJavaScript]
  · intro same
    rw [← expr.toJavaScript_core, same, other.toJavaScript_core]

theorem Mutability.variableKind_eq_iff {left right : Mutability} :
    left.variableKind = right.variableKind ↔ left = right := by
  cases left <;> cases right <;> decide

theorem Stmt.toJavaScript_eq_iff_core {stmt other : Stmt} :
    stmt.toJavaScript = other.toJavaScript ↔ stmt.core = other.core := by
  cases stmt <;> cases other <;>
    simp [Stmt.toJavaScript, Stmt.core, Ident.bare, Expr.toJavaScript_eq_iff_core,
      Mutability.variableKind_eq_iff]

theorem Program.toJavaScript_eq_iff_core {program other : Program} :
    program.toJavaScript = other.toJavaScript ↔ program.core = other.core := by
  simp only [Program.toJavaScript, Program.core, JavaScript.Program.mk.injEq, Program.mk.injEq,
    and_true]
  -- Both sides compare the statements one by one.
  simp only [← List.forall₂_eq_eq_eq, List.forall₂_map_left_iff, List.forall₂_map_right_iff,
    Stmt.toJavaScript_eq_iff_core]

theorem Operator.Joins.toJavaScript_eq {op : Operator} {lhs rhs expr : Expr}
    (joins : op.Joins lhs rhs expr) (span : Span) :
    (Expr.binary op lhs rhs span).toJavaScript = expr.toJavaScript := by
  cases joins <;> rfl

/-- Two programs have one JavaScript tree just if they have one core. So an operator that is left as
it is has the JavaScript tree of the join that resolution makes of it. -/
theorem toJavaScript_eq_iff_core_eq (program other : Program) :
    (program.toJavaScript = other.toJavaScript ↔ program.core = other.core) ∧
      ∀ op lhs rhs span expr, Operator.combine op lhs rhs = .ok expr →
        (Expr.binary op lhs rhs span).toJavaScript = expr.toJavaScript := by
  refine ⟨Program.toJavaScript_eq_iff_core, ?_⟩
  intro op lhs rhs span expr combined
  exact (Operator.combine_eq_ok_iff.mp combined).toJavaScript_eq span

end Pipewright
