import Pipewright.Json

set_option autoImplicit false

namespace Pipewright.JavaScript

inductive BinaryOperator where
  | strictEq | strictNe
  | lt | le | gt | ge
  | plus | minus | times | div | mod | exp
  | bitAnd | bitOr
deriving DecidableEq

def BinaryOperator.spelling : BinaryOperator → String
  | .strictEq => "==="
  | .strictNe => "!=="
  | .lt => "<"
  | .le => "<="
  | .gt => ">"
  | .ge => ">="
  | .plus => "+"
  | .minus => "-"
  | .times => "*"
  | .div => "/"
  | .mod => "%"
  | .exp => "**"
  | .bitAnd => "&"
  | .bitOr => "|"

inductive LogicalOperator where
  | and | or
deriving DecidableEq

def LogicalOperator.spelling : LogicalOperator → String
  | .and => "&&"
  | .or => "||"

inductive Expression where
  | identifier (name : String)
  | literal (value : UInt64) (raw : String)
  | call (callee : Expression) (arguments : List Expression) (optional : Bool)
  | member (object property : Expression) (computed optional : Bool)
  | binary (operator : BinaryOperator) (left right : Expression)
  | logical (operator : LogicalOperator) (left right : Expression)
  | await (argument : Expression)

inductive VariableKind where
  | assignable | constant
deriving DecidableEq

def VariableKind.spelling : VariableKind → String
  | .assignable => "let"
  | .constant => "const"

structure Declarator where
  id : Expression
  init : Expression

inductive Statement where
  | declaration (kind : VariableKind) (declarators : List Declarator)
  | expression (expression : Expression)

structure Program where
  body : List Statement

def node (type : String) (fields : List (String × Json)) : Json :=
  .object (("type", .string type) :: fields)

namespace Expression

mutual

def toJson : Expression → Json
  | .identifier name => node "Identifier" [("name", .string name)]
  | .literal value raw => node "Literal" [("value", .number value.toNat), ("raw", .string raw)]
  | .call callee arguments optional =>
      node "CallExpression"
        [("callee", callee.toJson), ("arguments", .array (toJsons arguments)),
         ("optional", .bool optional)]
  | .member object property computed optional =>
      node "MemberExpression"
        [("object", object.toJson), ("property", property.toJson), ("computed", .bool computed),
         ("optional", .bool optional)]
  | .binary operator left right =>
      node "BinaryExpression"
        [("operator", .string operator.spelling), ("left", left.toJson), ("right", right.toJson)]
  | .logical operator left right =>
      node "LogicalExpression"
        [("operator", .string operator.spelling), ("left", left.toJson), ("right", right.toJson)]
  | .await argument => node "AwaitExpression" [("argument", argument.toJson)]

def toJsons : List Expression → List Json
  | [] => []
  | expression :: rest => expression.toJson :: toJsons rest

end

@[simp] theorem toJsons_eq_map (expressions : List Expression) :
    toJsons expressions = expressions.map toJson := by
  induction expressions with
  | nil => rfl
  | cons expression rest ih => simp [toJsons, ih]

end Expression

def Declarator.toJson (declarator : Declarator) : Json :=
  node "VariableDeclarator" [("id", declarator.id.toJson), ("init", declarator.init.toJson)]

def Statement.toJson : Statement → Json
  | .declaration kind declarators =>
      node "VariableDeclaration"
        [("kind", .string kind.spelling),
         ("declarations", .array (declarators.map Declarator.toJson))]
  | .expression whole => node "ExpressionStatement" [("expression", whole.toJson)]

def Program.toJson (program : Program) : Json :=
  node "Program"
    [("body", .array (program.body.map Statement.toJson)), ("sourceType", .string "module")]

end Pipewright.JavaScript
