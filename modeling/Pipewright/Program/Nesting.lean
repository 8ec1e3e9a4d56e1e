import Pipewright.Program

set_option autoImplicit false

namespace Pipewright

structure Nesting where
  expressions : Nat
  contained : Nat
  contained_le : contained ≤ expressions
deriving DecidableEq

namespace Nesting

instance : Zero Nesting := ⟨⟨0, 0, Nat.le_refl 0⟩⟩

instance : Add Nesting :=
  ⟨fun a b => ⟨a.expressions + b.expressions, a.contained + b.contained,
    Nat.add_le_add a.contained_le b.contained_le⟩⟩

def one (outer inner : Span) : Nesting :=
  ⟨1, if outer.contains inner then 1 else 0, by split <;> omega⟩

def Full (nesting : Nesting) : Prop :=
  nesting.contained = nesting.expressions

@[simp] theorem full_zero : Full 0 := rfl

@[simp] theorem full_add {a b : Nesting} : (a + b).Full ↔ a.Full ∧ b.Full := by
  have left := a.contained_le
  have right := b.contained_le
  change a.contained + b.contained = a.expressions + b.expressions ↔
    a.contained = a.expressions ∧ b.contained = b.expressions
  omega

@[simp] theorem full_sum {nestings : List Nesting} :
    nestings.sum.Full ↔ ∀ nesting ∈ nestings, nesting.Full := by
  induction nestings with
  | nil => simp
  | cons first rest ih => rw [List.sum_cons, full_add, ih, List.forall_mem_cons]

@[simp] theorem full_one {outer inner : Span} :
    (one outer inner).Full ↔ outer.contains inner = true := by
  rw [Full, one]
  split <;> simp_all

end Nesting

namespace Expr

mutual

/-- Counts an expression that something with the span `outer` holds, and all within it. -/
def nesting (outer : Span) : Expr → Nesting
  | .ident name => .one outer name.span
  | .integer literal => .one outer literal.span
  | .call callee args span => .one outer span + callee.nesting span + nestings span args
  | .member _ object _ span => .one outer span + object.nesting span
  | .binary _ lhs rhs span => .one outer span + lhs.nesting span + rhs.nesting span
  | .await expr span => .one outer span + expr.nesting span

def nestings (outer : Span) : List Expr → Nesting
  | [] => 0
  | expr :: rest => expr.nesting outer + nestings outer rest

end

@[simp] theorem full_nestings {outer : Span} {exprs : List Expr} :
    (nestings outer exprs).Full ↔ ∀ expr ∈ exprs, (expr.nesting outer).Full := by
  induction exprs with
  | nil => simp [nestings]
  | cons expr rest ih => rw [nestings, Nesting.full_add, ih, List.forall_mem_cons]

end Expr

def Stmt.nesting (program : Span) : Stmt → Nesting
  | .declaration decl => decl.value.nesting decl.span
  | .expression expr => expr.nesting program

def Program.nesting (program : Program) : Nesting :=
  (program.statements.map (Stmt.nesting program.span)).sum

end Pipewright
