import Pipewright.Token

/-!
Parse trees: programs as they are written, with every token kept in its place.

    Program    := Statement+
    Statement  := LetDecl `;` | Expression `;`
    LetDecl    := `let` `mut`? identifier `=` Expression
    Expression := Call (operator Call)*
    Call       := Member Arguments?
    Arguments  := `(` (Expression (`,` Expression)*)? `)`
    Member     := Primary ((`.` | `::`) identifier)?
    Primary    := identifier | integer

A node's `make` gives it the span from its first part to its last.
-/

set_option autoImplicit false

namespace Pipewright

inductive Access where
  | dot | path
deriving DecidableEq

namespace ParseTree

inductive Primary where
  | ident (token : Token)
  | integer (token : Token)
deriving DecidableEq

namespace Primary

def token : Primary → Token
  | .ident token | .integer token => token

def span (primary : Primary) : Span :=
  primary.token.span

end Primary

structure Suffix where
  access : Access
  mark : Token
  name : Token
  span : Span
deriving DecidableEq

def Suffix.make (access : Access) (mark name : Token) : Suffix :=
  ⟨access, mark, name, mark.span.through name.span⟩

structure Member where
  primary : Primary
  suffix : Option Suffix
  span : Span
deriving DecidableEq

def Member.make (primary : Primary) : Option Suffix → Member
  | none => ⟨primary, none, primary.span⟩
  | some suffix => ⟨primary, some suffix, primary.span.through suffix.span⟩

mutual

structure Expression where
  head : Call
  tail : List (Token × Call)
  span : Span

structure Call where
  member : Member
  args : Option Arguments
  span : Span

structure Arguments where
  opening : Token
  exprs : List Expression
  commas : List Token
  closing : Token
  span : Span

end

def Arguments.make (opening : Token) (exprs : List Expression) (commas : List Token)
    (closing : Token) : Arguments :=
  ⟨opening, exprs, commas, closing, opening.span.through closing.span⟩

def Call.make (member : Member) : Option Arguments → Call
  | none => ⟨member, none, member.span⟩
  | some args => ⟨member, some args, member.span.through args.span⟩

def Expression.make (head : Call) (tail : List (Token × Call)) : Expression :=
  match tail.getLast? with
  | none => ⟨head, tail, head.span⟩
  | some (_, last) => ⟨head, tail, head.span.through last.span⟩

structure LetDecl where
  keyword : Token
  mutable : Option Token
  name : Token
  equal : Token
  value : Expression
  span : Span

def LetDecl.make (keyword : Token) (mutable : Option Token) (name equal : Token)
    (value : Expression) : LetDecl :=
  ⟨keyword, mutable, name, equal, value, keyword.span.through value.span⟩

inductive Clause where
  | letDecl (decl : LetDecl)
  | expression (expr : Expression)

def Clause.span : Clause → Span
  | .letDecl decl => decl.span
  | .expression expr => expr.span

structure Statement where
  clause : Clause
  semi : Token
  span : Span

def Statement.make (clause : Clause) (semi : Token) : Statement :=
  ⟨clause, semi, clause.span.through semi.span⟩

structure Program where
  statements : List Statement
  span : Span

/-- A program without statements has the span of the end of its text. -/
def Program.make (statements : List Statement) (eof : Token) : Program :=
  match statements.head?, statements.getLast? with
  | some first, some last => ⟨statements, first.span.through last.span⟩
  | _, _ => ⟨statements, eof.span⟩

end ParseTree

end Pipewright
