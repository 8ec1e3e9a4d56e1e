import Pipewright.ParseTree
import Pipewright.Proofs.Grammar

set_option autoImplicit false

namespace Pipewright

def Access.kind : Access → Kind
  | .dot => .punct .dot
  | .path => .punct .path

namespace ParseTree

def Suffix.tokens (suffix : Suffix) : List Token :=
  [suffix.mark, suffix.name]

def Member.tokens (member : Member) : List Token :=
  member.primary.token :: (member.suffix.map Suffix.tokens).getD []

mutual

def Expression.tokens : Expression → List Token
  | ⟨head, tail, _⟩ => head.tokens ++ tailTokens tail

def tailTokens : List (Token × Call) → List Token
  | [] => []
  | (op, operand) :: rest => op :: (operand.tokens ++ tailTokens rest)

def Call.tokens : Call → List Token
  | ⟨member, none, _⟩ => member.tokens
  | ⟨member, some args, _⟩ => member.tokens ++ args.tokens

def Arguments.tokens : Arguments → List Token
  | ⟨opening, exprs, commas, closing, _⟩ => opening :: (separated exprs commas ++ [closing])

-- Each expression is followed by its comma as long as there are commas. A grammatical list has one
-- comma less than expressions, so no token is left over.
def separated : List Expression → List Token → List Token
  | [], commas => commas
  | expr :: exprs, [] => expr.tokens ++ separated exprs []
  | expr :: exprs, comma :: commas => expr.tokens ++ comma :: separated exprs commas

end

def LetDecl.tokens (decl : LetDecl) : List Token :=
  decl.keyword :: decl.mutable.toList ++ decl.name :: decl.equal :: decl.value.tokens

def Clause.tokens : Clause → List Token
  | .letDecl decl => decl.tokens
  | .expression expr => expr.tokens

def Statement.tokens (statement : Statement) : List Token :=
  statement.clause.tokens ++ [statement.semi]

def Program.tokens (program : Program) : List Token :=
  program.statements.flatMap Statement.tokens

def Primary.Grammatical : Primary → Prop
  | .ident token => token.kind = .ident
  | .integer token => token.kind = .integer

def Suffix.Grammatical : Suffix → Prop
  | ⟨access, mark, name, span⟩ =>
      mark.kind = access.kind ∧ name.kind = .ident ∧ span = mark.span.through name.span

def Member.Grammatical : Member → Prop
  | ⟨primary, suffix, span⟩ =>
      primary.Grammatical ∧ (∀ part ∈ suffix, part.Grammatical) ∧
        span = (Member.make primary suffix).span

mutual

def Expression.Grammatical : Expression → Prop
  | ⟨head, tail, span⟩ =>
      head.Grammatical ∧ tailGrammatical tail ∧ span = (Expression.make head tail).span

def tailGrammatical : List (Token × Call) → Prop
  | [] => True
  | (token, operand) :: rest =>
      (∃ op, token.kind = .operator op) ∧ operand.Grammatical ∧ tailGrammatical rest

def Call.Grammatical : Call → Prop
  | ⟨member, none, span⟩ => member.Grammatical ∧ span = (Call.make member none).span
  | ⟨member, some args, span⟩ =>
      member.Grammatical ∧ args.Grammatical ∧ span = (Call.make member (some args)).span

def Arguments.Grammatical : Arguments → Prop
  | ⟨opening, exprs, commas, closing, span⟩ =>
      opening.kind = .punct .lparen ∧ allGrammatical exprs ∧
        (∀ comma ∈ commas, comma.kind = .punct .comma) ∧ commas.length = exprs.length - 1 ∧
        closing.kind = .punct .rparen ∧ span = opening.span.through closing.span

def allGrammatical : List Expression → Prop
  | [] => True
  | expr :: exprs => expr.Grammatical ∧ allGrammatical exprs

end

def LetDecl.Grammatical : LetDecl → Prop
  | ⟨keyword, mutable, name, equal, value, span⟩ =>
      keyword.kind = .keyword .letWord ∧ (∀ word ∈ mutable, word.kind = .keyword .mutWord) ∧
        name.kind = .ident ∧ equal.kind = .punct .equal ∧ value.Grammatical ∧
        span = keyword.span.through value.span

def Clause.Grammatical : Clause → Prop
  | .letDecl decl => decl.Grammatical
  | .expression expr => expr.Grammatical

def Statement.Grammatical : Statement → Prop
  | ⟨clause, semi, span⟩ =>
      clause.Grammatical ∧ semi.kind = .punct .semi ∧ span = clause.span.through semi.span

def Program.Grammatical (program : Program) : Prop :=
  (∀ statement ∈ program.statements, statement.Grammatical) ∧
    ∃ first last, program.statements.head? = some first ∧
      program.statements.getLast? = some last ∧ program.span = first.span.through last.span

theorem Suffix.Grammatical.make {access : Access} {mark name : Token}
    (first : mark.kind = access.kind) (second : name.kind = .ident) :
    (Suffix.make access mark name).Grammatical :=
  ⟨first, second, rfl⟩

theorem Member.Grammatical.make {primary : Primary} {suffix : Option Suffix}
    (first : primary.Grammatical) (rest : ∀ part ∈ suffix, part.Grammatical) :
    (Member.make primary suffix).Grammatical := by
  cases suffix <;> exact ⟨first, rest, rfl⟩

theorem Call.Grammatical.make {member : Member} {args : Option Arguments}
    (first : member.Grammatical) (rest : ∀ part ∈ args, part.Grammatical) :
    (Call.make member args).Grammatical := by
  cases args with
  | none => exact ⟨first, rfl⟩
  | some args => exact ⟨first, rest args rfl, rfl⟩

theorem Arguments.Grammatical.make {opening closing : Token} {exprs : List Expression}
    {commas : List Token} (left : opening.kind = .punct .lparen) (inner : allGrammatical exprs)
    (marks : ∀ comma ∈ commas, comma.kind = .punct .comma)
    (count : commas.length = exprs.length - 1) (right : closing.kind = .punct .rparen) :
    (Arguments.make opening exprs commas closing).Grammatical :=
  ⟨left, inner, marks, count, right, rfl⟩

theorem Expression.make_eq (head : Call) (tail : List (Token × Call)) :
    Expression.make head tail = ⟨head, tail, (Expression.make head tail).span⟩ := by
  unfold Expression.make
  split <;> rfl

theorem Expression.Grammatical.make {head : Call} {tail : List (Token × Call)}
    (first : head.Grammatical) (rest : tailGrammatical tail) :
    (Expression.make head tail).Grammatical := by
  rw [Expression.make_eq]
  exact ⟨first, rest, rfl⟩

@[simp] theorem Expression.tokens_make (head : Call) (tail : List (Token × Call)) :
    (Expression.make head tail).tokens = head.tokens ++ tailTokens tail := by
  rw [Expression.make_eq, Expression.tokens]

end ParseTree

end Pipewright
