import Pipewright.Diagnostic
import Pipewright.ParseTree

/-!
The reader: parse trees from tokens, one token at a time.

A `State` holds what has been read of a statement. It either takes the next token or refuses it;
what would have been taken instead is `State.expected`. After a refused token the reader skips to
the next `;` and starts over after it.
-/

set_option autoImplicit false

namespace Pipewright

inductive Expected where
  | tokens (kinds : List Kind)
  | ident
  | expression
  | statement
deriving DecidableEq

protected def Expected.toString : Expected → String
  | .tokens [kind] => kind.toString
  | .tokens kinds => "one of " ++ ", ".intercalate (kinds.map Kind.toString)
  | .ident => "identifier"
  | .expression => "expression"
  | .statement => "statement"

instance : ToString Expected := ⟨Expected.toString⟩

structure ParseError where
  expected : Expected
  found : Token
deriving DecidableEq

namespace ParseError

def message (error : ParseError) : String :=
  "expected " ++ error.expected.toString ++ ", found " ++ error.found.toString

instance : Explained ParseError := ⟨fun _ => "syntax error", message⟩

def refuse (expected : Expected) (found : Token) : Located ParseError :=
  ⟨⟨expected, found⟩, found.span⟩

end ParseError

namespace ParseTree

/-- Operands, each with the operator read after it, the latest first. -/
abbrev Links := List (Call × Token)

def Links.assemble : Links → Call → List (Token × Call) → Expression
  | [], last, tail => .make last tail
  | (operand, op) :: rest, last, tail => assemble rest operand ((op, last) :: tail)

def Links.close (links : Links) (last : Call) : Expression :=
  links.assemble last []

/-- A call whose arguments are being read: the links before it, and its arguments so far, each
with the comma after it, the latest first. -/
structure Frame where
  before : Links
  callee : Member
  opening : Token
  args : List (Expression × Token)

namespace Frame

def close (frame : Frame) (last : Option Expression) (closing : Token) : Call :=
  let args := frame.args.reverse
  .make frame.callee (some (.make frame.opening (args.map (·.1) ++ last.toList) (args.map (·.2))
    closing))

end Frame

/-- What was read last within an expression: nothing yet (an operand must follow), the `(` of a
call, a primary, the mark of a suffix, a member with its suffix, or a call with its arguments. -/
inductive Spot where
  | operand
  | opened
  | primary (primary : Primary)
  | marked (primary : Primary) (access : Access) (mark : Token)
  | member (member : Member)
  | call (call : Call)

namespace Spot

def member? : Spot → Option Member
  | .primary base => some (.make base none)
  | .member whole => some whole
  | .operand | .opened | .marked _ _ _ | .call _ => none

def call? : Spot → Option Call
  | .call whole => some whole
  | spot => spot.member?.map fun callee => .make callee none

end Spot

structure LetHead where
  keyword : Token
  mutable : Option Token
  name : Token
  equal : Token

def clauseOf (head : Option LetHead) (expr : Expression) : Clause :=
  match head with
  | none => .expression expr
  | some head => .letDecl (.make head.keyword head.mutable head.name head.equal expr)

/-- An expression being read: what it is for, the calls around this place from the innermost on,
the links before this place, and what was read last. -/
structure Inside where
  head : Option LetHead
  frames : List Frame
  links : Links
  spot : Spot

/-- What has been read of a statement: nothing, `let` and perhaps `mut`, these and a name, or more
than that. -/
inductive State where
  | start
  | binding (keyword : Token) (mutable : Option Token)
  | named (keyword : Token) (mutable : Option Token) (name : Token)
  | inside (inside : Inside)

inductive Step where
  | more (state : State)
  | done (statement : Statement)

def primary? (token : Token) : Option Primary :=
  match token.kind with
  | .ident => some (.ident token)
  | .integer => some (.integer token)
  | _ => none

namespace Inside

def expected (inside : Inside) : Expected :=
  match inside.spot, inside.frames with
  | .operand, _ | .opened, _ => .expression
  | .marked _ _ _, _ => .ident
  | .primary _, [] | .member _, [] | .call _, [] => .tokens [.punct .semi]
  | .primary _, _ | .member _, _ | .call _, _ => .tokens [.punct .comma, .punct .rparen]

def closeCall (inside : Inside) (last : Option Expression) (closing : Token) : Option Step :=
  match inside.frames with
  | [] => none
  | frame :: frames =>
      some (.more (.inside
        { inside with frames, links := frame.before, spot := .call (frame.close last closing) }))

def afterCall (inside : Inside) (call : Call) (token : Token) : Option Step :=
  match token.kind, inside.frames with
  | .operator _, _ =>
      some (.more (.inside
        { inside with links := (call, token) :: inside.links, spot := .operand }))
  | .punct .comma, frame :: frames =>
      let args := (inside.links.close call, token) :: frame.args
      some (.more (.inside
        { inside with frames := { frame with args } :: frames, links := [], spot := .operand }))
  | .punct .rparen, _ => inside.closeCall (some (inside.links.close call)) token
  | .punct .semi, [] =>
      some (.done (.make (clauseOf inside.head (inside.links.close call)) token))
  | _, _ => none

def openCall (inside : Inside) (callee : Member) (opening : Token) : Step :=
  .more (.inside
    { inside with
      frames := ⟨inside.links, callee, opening, []⟩ :: inside.frames
      links := []
      spot := .opened })

def take (inside : Inside) (token : Token) : Option Step :=
  let stand (spot : Spot) : Option Step := some (.more (.inside { inside with spot }))
  match inside.spot, token.kind with
  | .operand, _ => (primary? token).bind fun primary => stand (.primary primary)
  | .opened, .punct .rparen => inside.closeCall none token
  | .opened, _ => (primary? token).bind fun primary => stand (.primary primary)
  | .marked primary access mark, .ident =>
      stand (.member (.make primary (some (.make access mark token))))
  | .primary primary, .punct .dot => stand (.marked primary .dot token)
  | .primary primary, .punct .path => stand (.marked primary .path token)
  | spot, .punct .lparen => spot.member?.map fun callee => inside.openCall callee token
  | spot, _ => spot.call?.bind fun call => inside.afterCall call token

end Inside

namespace State

def expected : State → Expected
  | .start => .statement
  | .binding _ _ => .ident
  | .named _ _ _ => .tokens [.punct .equal]
  | .inside here => here.expected

def take (state : State) (token : Token) : Option Step :=
  match state, token.kind with
  | .start, .keyword .letWord => some (.more (.binding token none))
  | .start, _ =>
      (primary? token).map fun primary => .more (.inside ⟨none, [], [], .primary primary⟩)
  | .binding keyword none, .keyword .mutWord => some (.more (.binding keyword (some token)))
  | .binding keyword mutable, .ident => some (.more (.named keyword mutable token))
  | .binding _ _, _ => none
  | .named keyword mutable name, .punct .equal =>
      some (.more (.inside ⟨some ⟨keyword, mutable, name, token⟩, [], [], .operand⟩))
  | .named _ _ _, _ => none
  | .inside here, _ => here.take token

end State

structure Readings where
  statements : List Statement
  errors : List (Located ParseError)

def atEnd (eof : Token) : Option State → Readings
  | none | some .start => ⟨[], []⟩
  | some state => ⟨[], [ParseError.refuse state.expected eof]⟩

def afterSkipped (token : Token) : Option State :=
  if token.kind = .punct .semi then some .start else none

/-- Reads up to the first token of kind `eof`, or to the end, where it finds `eof`. The state is
`none` while tokens are skipped. -/
def readings (eof : Token) : Option State → List Token → Readings
  | state, [] => atEnd eof state
  | state, token :: rest =>
      if token.kind = .eof then atEnd token state
      else
        match state with
        | none => readings eof (afterSkipped token) rest
        | some state =>
            match state.take token with
            | some (.more state) => readings eof (some state) rest
            | some (.done statement) =>
                let later := readings eof (some .start) rest
                { later with statements := statement :: later.statements }
            | none =>
                let later := readings eof (afterSkipped token) rest
                { later with errors := ParseError.refuse state.expected token :: later.errors }

def splitEof (tokens : List Token) : List Token × Token :=
  match tokens.getLast? with
  | none => ([], .eofAt "" 0)
  | some last =>
      if last.kind = .eof then (tokens.dropLast, last)
      else (tokens, .eofAt last.span.source last.span.stop)

structure Parsed where
  program : Program
  errors : List (Located ParseError)

/-- Reads a program. Tokens of kind `invalid` are passed over; a program without statements and
other errors lacks a statement. -/
def parse (tokens : List Token) : Parsed :=
  let (body, eof) := splitEof (tokens.filter fun token => token.kind ≠ .invalid)
  let read := readings eof (some .start) body
  let missing : List (Located ParseError) :=
    if read.statements.isEmpty && read.errors.isEmpty then
      [ParseError.refuse .statement (body.head?.getD eof)]
    else
      []
  ⟨.make read.statements eof, read.errors ++ missing⟩

end ParseTree

end Pipewright
