import Pipewright.Span

set_option autoImplicit false

namespace Pipewright

inductive Keyword where
  | letWord | mutWord | lazyWord
deriving DecidableEq

def Keyword.spelling : Keyword → String
  | .letWord => "let"
  | .mutWord => "mut"
  | .lazyWord => "lazy"

inductive Operator where
  | pipe | awaitPipe
  | and | or
  | eq | ne | is
  | le | ge | lt | gt
  | add | sub
  | mul | div | mod
  | pow
  | bitAnd | bitOr
deriving DecidableEq

namespace Operator

def spelling : Operator → String
  | .pipe => "|>"
  | .awaitPipe => "||>"
  | .and => "&&"
  | .or => "||"
  | .eq => "=="
  | .ne => "!="
  | .is => "is"
  | .le => "<="
  | .ge => ">="
  | .lt => "<"
  | .gt => ">"
  | .add => "+"
  | .sub => "-"
  | .mul => "*"
  | .div => "/"
  | .mod => "%"
  | .pow => "^"
  | .bitAnd => "&"
  | .bitOr => "|"

/-- How tightly an operator binds: of two operators the one with the greater number goes first. -/
def precedence : Operator → Nat
  | .pipe | .awaitPipe => 0
  | .and | .or => 1
  | .eq | .ne | .is => 2
  | .le | .ge | .lt | .gt => 3
  | .add | .sub => 4
  | .mul | .div | .mod => 5
  | .pow => 6
  | .bitAnd | .bitOr => 7

end Operator

inductive Punct where
  | dot | path
  | lparen | rparen | lsquare | rsquare | lcurly | rcurly
  | colon | semi | comma | equal | excl | tilde
deriving DecidableEq

def Punct.spelling : Punct → String
  | .dot => "."
  | .path => "::"
  | .lparen => "("
  | .rparen => ")"
  | .lsquare => "["
  | .rsquare => "]"
  | .lcurly => "\x7b"
  | .rcurly => "\x7d"
  | .colon => ":"
  | .semi => ";"
  | .comma => ","
  | .equal => "="
  | .excl => "!"
  | .tilde => "~"

/-- What a token is. A character that starts no token is a token of kind `invalid`. -/
inductive Kind where
  | ident
  | integer
  | keyword (word : Keyword)
  | operator (op : Operator)
  | punct (mark : Punct)
  | eof
  | invalid
deriving DecidableEq

namespace Kind

def spelling? : Kind → Option String
  | .keyword word => some word.spelling
  | .operator op => some op.spelling
  | .punct mark => some mark.spelling
  | .ident | .integer | .eof | .invalid => none

def reserved : List Kind :=
  [.keyword .letWord, .keyword .mutWord, .keyword .lazyWord, .operator .is]

def ofWord? (word : String) : Option Kind :=
  reserved.find? fun kind => kind.spelling? = some word

/-- The kinds that are spelled with symbols, the longer spellings before the shorter. -/
def symbols : List Kind :=
  [.operator .awaitPipe,
   .operator .pipe, .operator .and, .operator .or, .operator .eq, .operator .ne, .operator .le,
   .operator .ge, .punct .path,
   .operator .lt, .operator .gt, .operator .add, .operator .sub, .operator .mul, .operator .div,
   .operator .mod, .operator .pow, .operator .bitAnd, .operator .bitOr,
   .punct .dot, .punct .lparen, .punct .rparen, .punct .lsquare, .punct .rsquare, .punct .lcurly,
   .punct .rcurly, .punct .colon, .punct .semi, .punct .comma, .punct .equal, .punct .excl,
   .punct .tilde]

def chars (kind : Kind) : List Char :=
  (kind.spelling?.getD "").toList

def ofSymbol? (text : List Char) : Option Kind :=
  symbols.find? fun kind => kind.chars.isPrefixOf text

theorem chars_ne_nil_of_mem_symbols : ∀ kind ∈ symbols, kind.chars ≠ [] := by
  decide

/-- No symbol stands after a shorter one, so the first that fits is the longest. -/
theorem symbols_sorted : symbols.Pairwise fun a b => b.chars.length ≤ a.chars.length := by
  decide

protected def toString : Kind → String
  | .ident => "identifier"
  | .integer => "integer"
  | .keyword word => "'" ++ word.spelling ++ "'"
  | .operator op => "'" ++ op.spelling ++ "'"
  | .punct mark => "'" ++ mark.spelling ++ "'"
  | .eof => "end of input"
  | .invalid => "invalid character"

instance : ToString Kind := ⟨Kind.toString⟩

structure NotOperator where
  kind : Kind
deriving DecidableEq

instance : ToString NotOperator :=
  ⟨fun refused => refused.kind.toString ++ " cannot be converted into a binary operator"⟩

def toOperator : Kind → Except NotOperator Operator
  | .operator op => .ok op
  | kind => .error ⟨kind⟩

end Kind

structure Token where
  kind : Kind
  text : String
  span : Span
deriving DecidableEq

namespace Token

def eofAt (source : String) (offset : Nat) : Token :=
  ⟨.eof, "", Span.emptyAt source offset⟩

protected def toString (token : Token) : String :=
  match token.kind with
  | .ident | .integer | .invalid => token.kind.toString ++ " `" ++ token.text ++ "`"
  | .keyword _ | .operator _ | .punct _ | .eof => token.kind.toString

instance : ToString Token := ⟨Token.toString⟩

end Token

end Pipewright
