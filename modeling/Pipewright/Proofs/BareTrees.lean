import Pipewright.ParseTree.Reader
import Pipewright.Proofs.WrittenTrees

set_option autoImplicit false

namespace Pipewright

namespace Span

def nowhere : Span :=
  .emptyAt "" 0

@[simp] theorem through_nowhere : nowhere.through nowhere = nowhere := rfl

@[simp] theorem extendTo_nowhere : nowhere.extendTo nowhere.stop = nowhere := rfl

end Span

def Token.bare (token : Token) : Token :=
  { token with span := .nowhere }

@[simp] theorem Token.kind_bare (token : Token) : token.bare.kind = token.kind := rfl

@[simp] theorem Token.span_bare (token : Token) : token.bare.span = .nowhere := rfl

namespace ParseTree

def Primary.bare : Primary → Primary
  | .ident token => .ident token.bare
  | .integer token => .integer token.bare

def Suffix.bare (suffix : Suffix) : Suffix :=
  ⟨suffix.access, suffix.mark.bare, suffix.name.bare, .nowhere⟩

def Member.bare (member : Member) : Member :=
  ⟨member.primary.bare, member.suffix.map Suffix.bare, .nowhere⟩

mutual

def Expression.bare : Expression → Expression
  | ⟨head, tail, _⟩ => ⟨head.bare, bareTail tail, .nowhere⟩

def bareTail : List (Token × Call) → List (Token × Call)
  | [] => []
  | (op, operand) :: rest => (op.bare, operand.bare) :: bareTail rest

def Call.bare : Call → Call
  | ⟨member, none, _⟩ => ⟨member.bare, none, .nowhere⟩
  | ⟨member, some args, _⟩ => ⟨member.bare, some args.bare, .nowhere⟩

def Arguments.bare : Arguments → Arguments
  | ⟨opening, exprs, commas, closing, _⟩ =>
      ⟨opening.bare, bareAll exprs, commas.map Token.bare, closing.bare, .nowhere⟩

def bareAll : List Expression → List Expression
  | [] => []
  | expr :: exprs => expr.bare :: bareAll exprs

end

def LetDecl.bare (decl : LetDecl) : LetDecl :=
  ⟨decl.keyword.bare, decl.mutable.map Token.bare, decl.name.bare, decl.equal.bare, decl.value.bare,
    .nowhere⟩

def Clause.bare : Clause → Clause
  | .letDecl decl => .letDecl decl.bare
  | .expression expr => .expression expr.bare

def Statement.bare (statement : Statement) : Statement :=
  ⟨statement.clause.bare, statement.semi.bare, .nowhere⟩

def Program.bare (program : Program) : Program :=
  ⟨program.statements.map Statement.bare, .nowhere⟩

@[simp] theorem bareAll_eq_map (exprs : List Expression) :
    bareAll exprs = exprs.map Expression.bare := by
  induction exprs with
  | nil => rfl
  | cons expr exprs ih => simp [bareAll, ih]

@[simp] theorem bareTail_eq_map (tail : List (Token × Call)) :
    bareTail tail = tail.map fun link => (link.1.bare, link.2.bare) := by
  induction tail with
  | nil => rfl
  | cons link tail ih => simp [bareTail, ih]

@[simp] theorem Primary.span_bare (primary : Primary) : primary.bare.span = .nowhere := by
  cases primary <;> rfl

@[simp] theorem Call.span_bare (call : Call) : call.bare.span = .nowhere := by
  obtain ⟨member, args, span⟩ := call
  cases args <;> rfl

@[simp] theorem Expression.span_bare (expr : Expression) : expr.bare.span = .nowhere := by
  cases expr
  rfl

@[simp] theorem Clause.span_bare (clause : Clause) : clause.bare.span = .nowhere := by
  cases clause with
  | letDecl decl => rfl
  | expression expr => exact expr.span_bare

@[simp] theorem Suffix.bare_make (access : Access) (mark name : Token) :
    (Suffix.make access mark name).bare = .make access mark.bare name.bare := rfl

@[simp] theorem Member.bare_make (primary : Primary) (suffix : Option Suffix) :
    (Member.make primary suffix).bare = .make primary.bare (suffix.map Suffix.bare) := by
  cases suffix <;> simp [Member.make, Member.bare, Suffix.bare]

@[simp] theorem Arguments.bare_make (opening : Token) (exprs : List Expression)
    (commas : List Token) (closing : Token) :
    (Arguments.make opening exprs commas closing).bare =
      .make opening.bare (exprs.map Expression.bare) (commas.map Token.bare) closing.bare := by
  simp [Arguments.make, Arguments.bare]

@[simp] theorem Call.bare_make (member : Member) (args : Option Arguments) :
    (Call.make member args).bare = .make member.bare (args.map Arguments.bare) := by
  rcases args with _ | ⟨opening, exprs, commas, closing, span⟩ <;>
    simp [Call.make, Call.bare, Member.bare, Arguments.bare]

@[simp] theorem Expression.bare_make (head : Call) (tail : List (Token × Call)) :
    (Expression.make head tail).bare =
      .make head.bare (tail.map fun link => (link.1.bare, link.2.bare)) := by
  have place : (Expression.make head.bare
      (tail.map fun link => (link.1.bare, link.2.bare))).span = .nowhere := by
    unfold Expression.make
    rw [List.getLast?_map]
    cases tail.getLast? <;> simp
  rw [Expression.make_eq, Expression.bare, bareTail_eq_map, Expression.make_eq head.bare, place]

@[simp] theorem LetDecl.bare_make (keyword : Token) (mutable : Option Token) (name equal : Token)
    (value : Expression) :
    (LetDecl.make keyword mutable name equal value).bare =
      .make keyword.bare (mutable.map Token.bare) name.bare equal.bare value.bare := by
  simp [LetDecl.make, LetDecl.bare]

@[simp] theorem Statement.bare_make (clause : Clause) (semi : Token) :
    (Statement.make clause semi).bare = .make clause.bare semi.bare := by
  simp [Statement.make, Statement.bare]

def Links.bare (links : Links) : Links :=
  links.map fun link => (link.1.bare, link.2.bare)

def Frame.bare (frame : Frame) : Frame :=
  ⟨frame.before.bare, frame.callee.bare, frame.opening.bare,
    frame.args.map fun arg => (arg.1.bare, arg.2.bare)⟩

def Spot.bare : Spot → Spot
  | .operand => .operand
  | .opened => .opened
  | .primary base => .primary base.bare
  | .marked base access mark => .marked base.bare access mark.bare
  | .member whole => .member whole.bare
  | .call whole => .call whole.bare

def LetHead.bare (head : LetHead) : LetHead :=
  ⟨head.keyword.bare, head.mutable.map Token.bare, head.name.bare, head.equal.bare⟩

def Inside.bare (inside : Inside) : Inside :=
  ⟨inside.head.map LetHead.bare, inside.frames.map Frame.bare, inside.links.bare,
    inside.spot.bare⟩

def State.bare : State → State
  | .start => .start
  | .binding keyword mutable => .binding keyword.bare (mutable.map Token.bare)
  | .named keyword mutable name => .named keyword.bare (mutable.map Token.bare) name.bare
  | .inside here => .inside here.bare

def Step.bare : Step → Step
  | .more state => .more state.bare
  | .done statement => .done statement.bare

theorem primary?_bare (token : Token) :
    primary? token.bare = (primary? token).map Primary.bare := by
  simp only [primary?, Token.kind_bare]
  split <;> rfl

theorem Links.bare_assemble (links : Links) (last : Call) (tail : List (Token × Call)) :
    (links.assemble last tail).bare =
      links.bare.assemble last.bare (tail.map fun link => (link.1.bare, link.2.bare)) := by
  induction links generalizing last tail with
  | nil => exact Expression.bare_make last tail
  | cons link links ih => exact ih link.1 ((link.2, last) :: tail)

@[simp] theorem Links.bare_close (links : Links) (last : Call) :
    (links.close last).bare = links.bare.close last.bare :=
  links.bare_assemble last []

@[simp] theorem Frame.bare_close (frame : Frame) (last : Option Expression) (closing : Token) :
    (frame.close last closing).bare =
      frame.bare.close (last.map Expression.bare) closing.bare := by
  cases last <;> simp [Frame.close, Frame.bare, Function.comp_def]

@[simp] theorem clauseOf_bare (head : Option LetHead) (expr : Expression) :
    (clauseOf head expr).bare = clauseOf (head.map LetHead.bare) expr.bare := by
  cases head <;> simp [clauseOf, Clause.bare, LetHead.bare]

theorem Spot.member?_bare (spot : Spot) :
    spot.bare.member? = spot.member?.map Member.bare := by
  cases spot <;> simp [Spot.bare, Spot.member?]

theorem Spot.call?_bare (spot : Spot) : spot.bare.call? = spot.call?.map Call.bare := by
  cases spot <;> simp [Spot.bare, Spot.call?, Spot.member?]

theorem Inside.closeCall_bare (inside : Inside) (last : Option Expression) (closing : Token) :
    inside.bare.closeCall (last.map Expression.bare) closing.bare =
      (inside.closeCall last closing).map Step.bare := by
  obtain ⟨head, frames, links, spot⟩ := inside
  cases frames <;>
    simp [Inside.bare, Inside.closeCall, Step.bare, State.bare, Spot.bare, Frame.bare]

theorem Inside.afterCall_bare (inside : Inside) (call : Call) (token : Token) :
    inside.bare.afterCall call.bare token.bare =
      (inside.afterCall call token).map Step.bare := by
  have closes := inside.closeCall_bare (some (inside.links.close call)) token
  obtain ⟨head, frames, links, spot⟩ := inside
  simp only [Inside.bare, Inside.afterCall, Token.kind_bare, Option.map_some, Links.bare_close] at *
  cases token.kind with
  | operator op => cases frames <;> rfl
  | punct mark =>
      cases mark with
      | comma =>
          cases frames <;>
            simp [Step.bare, State.bare, Inside.bare, Frame.bare, Links.bare, Spot.bare]
      | rparen => cases frames <;> exact closes
      | semi => cases frames <;> simp [Step.bare]
      | dot | path | lparen | lsquare | rsquare | lcurly | rcurly | colon | equal | excl | tilde =>
          cases frames <;> rfl
  | ident | integer | keyword word | eof | invalid => cases frames <;> rfl

theorem Inside.take_bare (inside : Inside) (token : Token) :
    inside.bare.take token.bare = (inside.take token).map Step.bare := by
  have reads : ((primary? token.bare).bind fun primary =>
      some (Step.more (.inside { inside.bare with spot := .primary primary }))) =
        ((primary? token).bind fun primary =>
          some (Step.more (.inside { inside with spot := .primary primary }))).map Step.bare := by
    rw [primary?_bare]
    cases primary? token <;> rfl
  have closes := inside.closeCall_bare none token
  have opens : (inside.spot.bare.member?.map fun callee => inside.bare.openCall callee token.bare) =
      (inside.spot.member?.map fun callee => inside.openCall callee token).map Step.bare := by
    rw [Spot.member?_bare]
    cases inside.spot.member? <;> rfl
  have goes : (inside.spot.bare.call?.bind fun call => inside.bare.afterCall call token.bare) =
      (inside.spot.call?.bind fun call => inside.afterCall call token).map Step.bare := by
    rw [Spot.call?_bare]
    cases inside.spot.call? with
    | none => rfl
    | some call => exact inside.afterCall_bare call token
  obtain ⟨head, frames, links, spot⟩ := inside
  simp only [Inside.take, Inside.bare, Token.kind_bare] at *
  cases spot with
  | operand => exact reads
  | opened =>
      cases token.kind with
      | punct mark =>
          cases mark with
          | rparen => exact closes
          | _ => exact reads
      | _ => exact reads
  | primary base =>
      cases token.kind with
      | punct mark =>
          cases mark with
          | dot | path => rfl
          | lparen => exact opens
          | _ => exact goes
      | _ => exact goes
  | marked base access mark =>
      cases token.kind with
      | ident => simp [Step.bare, State.bare, Inside.bare, Spot.bare]
      | punct mark =>
          cases mark with
          | lparen => exact opens
          | _ => exact goes
      | _ => exact goes
  | member whole | call whole =>
      cases token.kind with
      | punct mark =>
          cases mark with
          | lparen => exact opens
          | _ => exact goes
      | _ => exact goes

theorem State.take_bare (state : State) (token : Token) :
    state.bare.take token.bare = (state.take token).map Step.bare := by
  have reads : (primary? token.bare).map
      (fun primary => Step.more (.inside ⟨none, [], [], .primary primary⟩)) =
        ((primary? token).map
          fun primary => Step.more (.inside ⟨none, [], [], .primary primary⟩)).map Step.bare := by
    rw [primary?_bare]
    cases primary? token <;> rfl
  cases state with
  | start =>
      simp only [State.bare, State.take, Token.kind_bare]
      cases token.kind with
      | keyword word =>
          cases word with
          | letWord => rfl
          | mutWord | lazyWord => exact reads
      | _ => exact reads
  | binding keyword mutable =>
      simp only [State.bare, State.take, Token.kind_bare]
      cases token.kind with
      | keyword word => cases mutable <;> cases word <;> rfl
      | _ => cases mutable <;> rfl
  | named keyword mutable name =>
      simp only [State.bare, State.take, Token.kind_bare]
      cases token.kind with
      | punct mark => cases mark <;> rfl
      | _ => rfl
  | inside here => exact here.take_bare token

theorem State.expected_bare (state : State) : state.bare.expected = state.expected := by
  cases state with
  | start | binding | named => rfl
  | inside here =>
      obtain ⟨head, frames, links, spot⟩ := here
      cases spot <;> cases frames <;> rfl

def bareError (error : Located ParseError) : Located ParseError :=
  ParseError.refuse error.error.expected error.error.found.bare

def Readings.bare (read : Readings) : Readings :=
  ⟨read.statements.map Statement.bare, read.errors.map bareError⟩

theorem atEnd_bare (eof : Token) (state : Option State) :
    atEnd eof.bare (state.map State.bare) = (atEnd eof state).bare := by
  cases state with
  | none => rfl
  | some state =>
      have expected := state.expected_bare
      cases state with
      | start => rfl
      | binding | named => rfl
      | inside here => simp_all [atEnd, Readings.bare, State.bare, bareError, ParseError.refuse]

theorem afterSkipped_bare (token : Token) :
    afterSkipped token.bare = (afterSkipped token).map State.bare := by
  by_cases semi : token.kind = .punct .semi <;> simp [afterSkipped, semi, State.bare]

theorem readings_bare (eof : Token) (state : Option State) (tokens : List Token) :
    readings eof.bare (state.map State.bare) (tokens.map Token.bare) =
      (readings eof state tokens).bare := by
  induction tokens generalizing state with
  | nil => simpa only [List.map_nil, readings] using atEnd_bare eof state
  | cons token tokens ih =>
      have skips := ih (afterSkipped token)
      rw [← afterSkipped_bare] at skips
      by_cases ends : token.kind = .eof
      · simpa [readings, ends] using atEnd_bare token state
      · cases state with
        | none => simpa [readings, ends] using skips
        | some state =>
            have step := state.take_bare token
            simp only [Option.map_some, List.map_cons, readings, Token.kind_bare, ends, if_false,
              step]
            cases state.take token with
            | none => simp [skips, Readings.bare, bareError, ParseError.refuse, State.expected_bare]
            | some next =>
                cases next with
                | more later => exact ih (some later)
                | done statement =>
                    have later := ih (some .start)
                    simp only [Option.map_some, State.bare] at later
                    simp [later, Readings.bare, Step.bare]

theorem splitEof_bare (tokens : List Token) :
    splitEof (tokens.map Token.bare) =
      ((splitEof tokens).1.map Token.bare, (splitEof tokens).2.bare) := by
  rw [splitEof, splitEof, List.getLast?_map]
  cases tokens.getLast? with
  | none => rfl
  | some last =>
      by_cases ends : last.kind = .eof
      · simp [ends, List.map_dropLast]
      · simp only [Option.map_some, Token.kind_bare, ends, if_false]
        rfl

theorem Program.bare_make (statements : List Statement) (eof : Token) :
    (Program.make statements eof).bare = .make (statements.map Statement.bare) eof.bare := by
  rw [Program.make, Program.make, List.head?_map, List.getLast?_map]
  cases statements.head? <;> cases statements.getLast? <;> simp [Program.bare, Statement.bare]

def Parsed.bare (parsed : Parsed) : Parsed :=
  ⟨parsed.program.bare, parsed.errors.map bareError⟩

theorem parse_bare (tokens : List Token) : parse (tokens.map Token.bare) = (parse tokens).bare := by
  have kept : (tokens.map Token.bare).filter (fun token => token.kind ≠ .invalid) =
      (tokens.filter fun token => token.kind ≠ .invalid).map Token.bare := by
    rw [List.filter_map]
    rfl
  rw [parse, parse, kept, splitEof_bare]
  obtain ⟨body, eof⟩ := splitEof (tokens.filter fun token => token.kind ≠ .invalid)
  have read := readings_bare eof (some .start) body
  have first : (body.map Token.bare).head?.getD eof.bare = (body.head?.getD eof).bare := by
    cases body <;> rfl
  simp only [Option.map_some, State.bare] at read
  simp only [read, first, Parsed.bare, Program.bare_make]
  obtain ⟨statements, errors⟩ := readings eof (some .start) body
  cases statements <;> cases errors <;> simp [Readings.bare, bareError, ParseError.refuse]

end ParseTree

end Pipewright
