import Pipewright.Diagnostic
import Pipewright.Program.OperatorTree
import Pipewright.Text.Decimal

set_option autoImplicit false

namespace Pipewright

/-- Why a parse tree stands for no program. The last cause does not arise for the trees that the
reader makes. -/
inductive LowerError where
  | spanConflict (conflict : Span.Conflict)
  | emptyProgram
  | intOutOfRange (literal : String)
  | notOperator (token : Token)
deriving DecidableEq

namespace LowerError

def label : LowerError → String
  | .spanConflict _ | .notOperator _ => "internal error"
  | .emptyProgram => "syntax error"
  | .intOutOfRange _ => "literal error"

def message : LowerError → String
  | .spanConflict conflict => "cannot merge spans: " ++ conflict.toString
  | .emptyProgram => "program has no statements"
  | .intOutOfRange literal => "integer literal " ++ literal ++ " is too large"
  | .notOperator token =>
      "entered unreachable code: binary expression joined by non-operator " ++ token.toString

instance : Explained LowerError := ⟨label, message⟩

def ofConflict (conflict : Span.Conflict) : Located LowerError :=
  ⟨.spanConflict conflict, conflict.right⟩

end LowerError

abbrev Lowered (α : Type) : Type :=
  Except (Located LowerError) α

def Lowered.ofMerge {α : Type} (merged : Except Span.Conflict α) : Lowered α :=
  merged.mapError LowerError.ofConflict

def ownSpan (source : String) (token : Token) : Lowered Span :=
  if token.span.source = source then .ok token.span
  else .error (LowerError.ofConflict ⟨.emptyAt source token.span.start, token.span⟩)

namespace ParseTree

def lowerIdent (source : String) (token : Token) : Lowered Ident :=
  (ownSpan source token).map fun span => ⟨token.text, span⟩

def lowerInteger (source : String) (token : Token) : Lowered IntLiteral := do
  let span ← ownSpan source token
  match Text.readUInt64? token.text.toList with
  | some value => .ok ⟨value, token.text, span⟩
  | none => .error ⟨.intOutOfRange token.text, span⟩

def Primary.lower (source : String) : Primary → Lowered Expr
  | .ident token => .ident <$> lowerIdent source token
  | .integer token => .integer <$> lowerInteger source token

def Member.lower (source : String) (member : Member) : Lowered Expr := do
  let object ← member.primary.lower source
  match member.suffix with
  | none => .ok object
  | some suffix =>
      let property ← lowerIdent source suffix.name
      let span ← .ofMerge (object.span.merge property.span)
      .ok (.member suffix.access object property span)

def lowerOperator (token : Token) : Lowered Operator :=
  token.kind.toOperator.mapError fun _ => ⟨.notOperator token, token.span⟩

mutual

def Expression.lower (source : String) : Expression → Lowered Expr
  | ⟨head, tail, _⟩ => do
      let first ← head.lower source
      let pairs ← lowerTail source tail
      .ofMerge (resolve first pairs)

def lowerTail (source : String) : List (Token × Call) → Lowered (List (Operator × Expr))
  | [] => .ok []
  | (token, operand) :: rest => do
      let op ← lowerOperator token
      let expr ← operand.lower source
      let pairs ← lowerTail source rest
      .ok ((op, expr) :: pairs)

def Call.lower (source : String) : Call → Lowered Expr
  | ⟨member, none, _⟩ => member.lower source
  | ⟨member, some ⟨_, exprs, _, closing, _⟩, _⟩ => do
      let callee ← member.lower source
      let close ← ownSpan source closing
      let args ← lowerAll source exprs
      .ok (.call callee args (callee.span.extendTo close.stop))

def lowerAll (source : String) : List Expression → Lowered (List Expr)
  | [] => .ok []
  | expr :: rest => do
      let first ← expr.lower source
      let others ← lowerAll source rest
      .ok (first :: others)

end

def LetDecl.lower (source : String) (decl : LetDecl) : Lowered Declaration := do
  let name ← lowerIdent source decl.name
  let value ← decl.value.lower source
  let keyword ← ownSpan source decl.keyword
  let span ← .ofMerge (keyword.merge value.span)
  .ok ⟨if decl.mutable.isSome then .mutable else .immutable, name, value, span⟩

def Statement.lower (source : String) (statement : Statement) : Lowered Stmt :=
  match statement.clause with
  | .letDecl decl => .declaration <$> decl.lower source
  | .expression expr => .expression <$> expr.lower source

/-- The first statement that fails decides; if none does, the spans of the parse tree are joined. -/
def Program.lower (source : String) (program : Program) : Lowered Pipewright.Program := do
  let statements ← program.statements.mapM (Statement.lower source)
  match ← .ofMerge (Span.mergeAll (program.statements.map Statement.span)) with
  | some span => .ok ⟨statements, span⟩
  | none => .error ⟨.emptyProgram, program.span⟩

end ParseTree

end Pipewright
