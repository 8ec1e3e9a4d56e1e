import Pipewright.Token

set_option autoImplicit false

namespace Pipewright.Grammar

inductive Rule where
  | program | statement | letDecl | exprStmt
  | expression | binaryExpr | callExpr | arguments
  | memberExpr | dotMember | doubleColonMember
  | primaryExpr | identExpr | intLiteralExpr
deriving DecidableEq

inductive Phrase where
  | kind (kind : Kind)
  | operator
  | rule (rule : Rule)
  | seq (first second : Phrase)
  | alt (left right : Phrase)
  | optional (phrase : Phrase)
  | star (phrase : Phrase)

def Phrase.punct (mark : Punct) : Phrase :=
  .kind (.punct mark)

def Phrase.keyword (word : Keyword) : Phrase :=
  .kind (.keyword word)

def Rule.body : Rule → Phrase
  | .program => .seq (.rule .statement) (.star (.rule .statement))
  | .statement => .seq (.alt (.rule .letDecl) (.rule .exprStmt)) (.punct .semi)
  | .letDecl =>
      .seq (.keyword .letWord) <| .seq (.optional (.keyword .mutWord)) <|
        .seq (.kind .ident) <| .seq (.punct .equal) (.rule .expression)
  | .exprStmt => .rule .expression
  | .expression => .rule .binaryExpr
  | .binaryExpr => .seq (.rule .callExpr) (.star (.seq .operator (.rule .callExpr)))
  | .callExpr => .seq (.rule .memberExpr) (.optional (.rule .arguments))
  | .arguments =>
      .seq (.punct .lparen) <| .seq
        (.optional (.seq (.rule .expression) (.star (.seq (.punct .comma) (.rule .expression)))))
        (.punct .rparen)
  | .memberExpr =>
      .seq (.rule .primaryExpr) (.optional (.alt (.rule .dotMember) (.rule .doubleColonMember)))
  | .dotMember => .seq (.punct .dot) (.rule .identExpr)
  | .doubleColonMember => .seq (.punct .path) (.rule .identExpr)
  | .primaryExpr => .alt (.rule .identExpr) (.rule .intLiteralExpr)
  | .identExpr => .kind .ident
  | .intLiteralExpr => .kind .integer

inductive Derives : Phrase → List Kind → Prop where
  | kind (kind : Kind) : Derives (.kind kind) [kind]
  | operator (op : Operator) : Derives .operator [.operator op]
  | rule {rule : Rule} {word : List Kind} (body : Derives rule.body word) :
      Derives (.rule rule) word
  | seq {first second : Phrase} {front back : List Kind} (left : Derives first front)
      (right : Derives second back) : Derives (.seq first second) (front ++ back)
  | altLeft {left right : Phrase} {word : List Kind} (derived : Derives left word) :
      Derives (.alt left right) word
  | altRight {left right : Phrase} {word : List Kind} (derived : Derives right word) :
      Derives (.alt left right) word
  | absent {phrase : Phrase} : Derives (.optional phrase) []
  | present {phrase : Phrase} {word : List Kind} (derived : Derives phrase word) :
      Derives (.optional phrase) word
  | starNil {phrase : Phrase} : Derives (.star phrase) []
  | starCons {phrase : Phrase} {front back : List Kind} (first : Derives phrase front)
      (rest : Derives (.star phrase) back) : Derives (.star phrase) (front ++ back)

theorem Derives.cons {kind : Kind} {phrase : Phrase} {word : List Kind}
    (rest : Derives phrase word) : Derives (.seq (.kind kind) phrase) (kind :: word) :=
  .seq (.kind kind) rest

end Pipewright.Grammar
