import Pipewright.ParseTree
import Pipewright.Text.CharClass

set_option autoImplicit false

namespace Pipewright

inductive Outline where
  | atom (text : String)
  | record (name : String) (fields : List (String × Outline))
  | tuple (name : String) (items : List Outline)
  | list (items : List Outline)

namespace Outline

def indent (level : Nat) : String :=
  String.ofList (List.replicate (4 * level) ' ')

mutual

/-- Every part has lines of its own, indented by four blanks a level and ended by a comma. -/
def render (level : Nat) : Outline → String
  | .atom text => text
  | .record name fields =>
      name ++ " \x7b\n" ++ renderFields (level + 1) fields ++ indent level ++ "\x7d"
  | .tuple name items => name ++ "(\n" ++ renderItems (level + 1) items ++ indent level ++ ")"
  | .list [] => "[]"
  | .list (item :: items) =>
      "[\n" ++ indent (level + 1) ++ item.render (level + 1) ++ ",\n" ++
        renderItems (level + 1) items ++ indent level ++ "]"

def renderFields (level : Nat) : List (String × Outline) → String
  | [] => ""
  | (name, value) :: fields =>
      indent level ++ name ++ ": " ++ value.render level ++ ",\n" ++ renderFields level fields

def renderItems (level : Nat) : List Outline → String
  | [] => ""
  | item :: items => indent level ++ item.render level ++ ",\n" ++ renderItems level items

end

def showsAlone (c : Char) : Bool :=
  Text.isPrintable c && !Text.isIgnorable c && !Text.isCombining c

def escape (c : Char) : List Char :=
  match c with
  | '"' => ['\\', '"']
  | '\\' => ['\\', '\\']
  | '\t' => ['\\', 't']
  | '\n' => ['\\', 'n']
  | '\r' => ['\\', 'r']
  | '\x00' => ['\\', '0']
  | c =>
      if showsAlone c then [c]
      else ['\\', 'u', '\x7b'] ++ Nat.toDigits 16 c.toNat ++ ['\x7d']

def text (text : String) : Outline :=
  .atom (String.ofList ('"' :: text.toList.flatMap escape ++ ['"']))

def number (n : Nat) : Outline :=
  .atom (toString n)

def option {α : Type} (f : α → Outline) : Option α → Outline
  | none => .atom "None"
  | some value => .tuple "Some" [f value]

end Outline

def Span.outline (span : Span) : Outline :=
  .record "Span"
    [("offset", .number span.start), ("length", .number span.size),
     ("source", .tuple "SourceId" [.text span.source])]

def Keyword.name : Keyword → String
  | .letWord => "Let"
  | .mutWord => "Mut"
  | .lazyWord => "Lazy"

def Operator.name : Operator → String
  | .pipe => "Pipe"
  | .awaitPipe => "AwaitPipe"
  | .and => "DAnd"
  | .or => "DOr"
  | .eq => "DEqual"
  | .ne => "Ne"
  | .is => "Is"
  | .le => "Le"
  | .ge => "Ge"
  | .lt => "Lt"
  | .gt => "Gt"
  | .add => "Plus"
  | .sub => "Minus"
  | .mul => "Star"
  | .div => "Slash"
  | .mod => "Percent"
  | .pow => "Caret"
  | .bitAnd => "And"
  | .bitOr => "Or"

def Punct.name : Punct → String
  | .dot => "Dot"
  | .path => "DColon"
  | .lparen => "LParen"
  | .rparen => "RParen"
  | .lsquare => "LSquare"
  | .rsquare => "RSquare"
  | .lcurly => "LCurly"
  | .rcurly => "RCurly"
  | .colon => "Colon"
  | .semi => "Semi"
  | .comma => "Comma"
  | .equal => "Equal"
  | .excl => "Excl"
  | .tilde => "Tilde"

def Kind.outline : Kind → Outline
  | .ident => .atom "Ident"
  | .integer => .atom "Integer"
  | .keyword word => .tuple "Keyword" [.atom word.name]
  | .operator op => .tuple "Operator" [.atom op.name]
  | .punct mark => .tuple "Punct" [.atom mark.name]
  | .eof => .atom "Eof"
  | .invalid => .atom "Error"

def Token.outline (token : Token) : Outline :=
  .record "Token"
    [("kind", token.kind.outline), ("text", .text token.text), ("span", token.span.outline)]

namespace ParseTree

def identOutline (token : Token) : Outline :=
  .record "IdentExpr" [("ident", token.outline)]

def Primary.outline : Primary → Outline
  | .ident token => .tuple "Ident" [identOutline token]
  | .integer token => .tuple "IntLiteral" [.record "IntLiteralExpr" [("int", token.outline)]]

def Suffix.outline (suffix : Suffix) : Outline :=
  let fields (mark : String) : List (String × Outline) :=
    [(mark, suffix.mark.outline), ("ident", identOutline suffix.name),
     ("span", suffix.span.outline)]
  match suffix.access with
  | .dot => .tuple "Dot" [.record "DotMember" (fields "dot")]
  | .path => .tuple "DoubleColon" [.record "DoubleColonMember" (fields "dcolon")]

def Member.outline (member : Member) : Outline :=
  .record "MemberExpr"
    [("primary", member.primary.outline), ("suffix", .option Suffix.outline member.suffix),
     ("span", member.span.outline)]

mutual

def Expression.outline : Expression → Outline
  | ⟨head, tail, span⟩ =>
      .record "Expression"
        [("binary", .record "BinaryExpr"
          [("head", head.outline), ("tail", .list (tailOutlines tail)), ("span", span.outline)]),
         ("span", span.outline)]

def tailOutlines : List (Token × Call) → List Outline
  | [] => []
  | (op, operand) :: rest => .tuple "" [op.outline, operand.outline] :: tailOutlines rest

def Call.outline : Call → Outline
  | ⟨member, none, span⟩ =>
      .record "CallExpr"
        [("member", member.outline), ("args", .atom "None"), ("span", span.outline)]
  | ⟨member, some args, span⟩ =>
      .record "CallExpr"
        [("member", member.outline), ("args", .tuple "Some" [args.outline]),
         ("span", span.outline)]

def Arguments.outline : Arguments → Outline
  | ⟨opening, exprs, commas, closing, span⟩ =>
      .record "Arguments"
        [("lparen", opening.outline), ("exprs", .list (outlines exprs)),
         ("commas", .list (commas.map Token.outline)), ("rparen", closing.outline),
         ("span", span.outline)]

def outlines : List Expression → List Outline
  | [] => []
  | expr :: rest => expr.outline :: outlines rest

end

def LetDecl.outline (decl : LetDecl) : Outline :=
  .record "LetDecl"
    [("let_kw", decl.keyword.outline), ("mut_kw", .option Token.outline decl.mutable),
     ("ident", decl.name.outline), ("equal", decl.equal.outline), ("expr", decl.value.outline),
     ("span", decl.span.outline)]

def Clause.outline : Clause → Outline
  | .letDecl decl => .tuple "LetDecl" [decl.outline]
  | .expression expr =>
      .tuple "ExprStmt" [.record "ExprStmt" [("expr", expr.outline), ("span", expr.span.outline)]]

def Statement.outline (statement : Statement) : Outline :=
  .record "Statement"
    [("kind", statement.clause.outline), ("semi", statement.semi.outline),
     ("span", statement.span.outline)]

def Program.outline (program : Program) : Outline :=
  .record "Program"
    [("statements", .list (program.statements.map Statement.outline)),
     ("span", program.span.outline)]

end ParseTree

end Pipewright
