import Pipewright.Program

set_option autoImplicit false

namespace Pipewright

def Access.spelling : Access → String
  | .dot => "."
  | .path => "::"

namespace Expr

mutual

protected def toString : Expr → String
  | .ident name => name.name
  | .integer literal => literal.raw
  | .call callee args _ => callee.toString ++ "(" ++ ", ".intercalate (toStrings args) ++ ")"
  | .member access object property _ => object.toString ++ access.spelling ++ property.name
  | .binary op lhs rhs _ => "(" ++ lhs.toString ++ " " ++ op.spelling ++ " " ++ rhs.toString ++ ")"
  | .await expr _ => "await " ++ expr.toString

def toStrings : List Expr → List String
  | [] => []
  | expr :: rest => expr.toString :: toStrings rest

end

@[simp] theorem toStrings_eq_map (exprs : List Expr) :
    toStrings exprs = exprs.map Expr.toString := by
  induction exprs with
  | nil => rfl
  | cons expr rest ih => simp [toStrings, ih]

instance : ToString Expr := ⟨Expr.toString⟩

end Expr

protected def Declaration.toString (decl : Declaration) : String :=
  let keyword := match decl.mutability with
    | .mutable => "let mut "
    | .immutable => "let "
  keyword ++ decl.name.name ++ " = " ++ decl.value.toString

protected def Stmt.toString : Stmt → String
  | .declaration decl => decl.toString ++ ";"
  | .expression expr => expr.toString ++ ";"

instance : ToString Stmt := ⟨Stmt.toString⟩

protected def Program.toString (program : Program) : String :=
  String.join (program.statements.map fun stmt => stmt.toString ++ "\n")

instance : ToString Program := ⟨Program.toString⟩

end Pipewright
