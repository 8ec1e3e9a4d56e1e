import Pipewright.Proofs.ReaderSteps

set_option autoImplicit false

namespace Pipewright.ParseTree

open Grammar

inductive Reads : State → List Token → State → Prop where
  | nil {state : State} : Reads state [] state
  | cons {state next last : State} {token : Token} {tokens : List Token}
      (first : Takes state token (.more next)) (rest : Reads next tokens last) :
      Reads state (token :: tokens) last

theorem Reads.single {state next : State} {token : Token}
    (takes : Takes state token (.more next)) : Reads state [token] next :=
  .cons takes .nil

theorem Reads.append {state middle last : State} {front back : List Token}
    (first : Reads state front middle) (second : Reads middle back last) :
    Reads state (front ++ back) last := by
  induction first with
  | nil => exact second
  | cons takes _ ih => exact .cons takes (ih second)

theorem takes_operand {head : Option LetHead} {frames : List Frame} {links : Links}
    {token : Token} {step : Step}
    (takes : Takes (.inside ⟨head, frames, links, .operand⟩) token step) :
    ∃ primary, primary? token = some primary ∧
      step = .more (.inside ⟨head, frames, links, .primary primary⟩) := by
  cases takes with
  | operand reads => exact ⟨_, reads, rfl⟩
  | opening _ ends | operator _ ends | comma _ ends | closing _ ends | semi _ ends => cases ends

theorem Reads.opened {head : Option LetHead} {frames : List Frame} {links : Links} {last : State}
    {tokens : List Token} (reads : Reads (.inside ⟨head, frames, links, .operand⟩) tokens last)
    (nonempty : tokens ≠ []) : Reads (.inside ⟨head, frames, links, .opened⟩) tokens last := by
  cases reads with
  | nil => exact absurd rfl nonempty
  | cons first rest =>
      obtain ⟨primary, read, same⟩ := takes_operand first
      cases same
      exact .cons (.argument read) rest

theorem Reads.start {last : State} {tokens : List Token}
    (reads : Reads (.inside ⟨none, [], [], .operand⟩) tokens last) (nonempty : tokens ≠ []) :
    Reads .start tokens last := by
  cases reads with
  | nil => exact absurd rfl nonempty
  | cons first rest =>
      obtain ⟨primary, read, same⟩ := takes_operand first
      cases same
      exact .cons (.first read) rest

def Completes (head : Option LetHead) (frames : List Frame) (expr : Expression)
    (state : State) : Prop :=
  ∃ links spot last, state = .inside ⟨head, frames, links, spot⟩ ∧ spot.call? = some last ∧
    links.close last = expr

theorem Primary.Grammatical.primary? {primary : Primary} (grammatical : primary.Grammatical) :
    primary? primary.token = some primary := by
  cases primary <;> simp_all [Primary.Grammatical, ParseTree.primary?, Primary.token]

theorem Member.reads (member : Member) (grammatical : member.Grammatical) (head : Option LetHead)
    (frames : List Frame) (links : Links) :
    ∃ spot, Reads (.inside ⟨head, frames, links, .operand⟩) member.tokens
        (.inside ⟨head, frames, links, spot⟩) ∧
      spot.member? = some member ∧ spot.call? = some (.make member none) := by
  obtain ⟨primary, suffix, span⟩ := member
  obtain ⟨first, rest, rfl⟩ := grammatical
  have base : Takes (.inside ⟨head, frames, links, .operand⟩) primary.token
      (.more (.inside ⟨head, frames, links, .primary primary⟩)) := .operand first.primary?
  cases suffix with
  | none => exact ⟨.primary primary, .single base, rfl, rfl⟩
  | some suffix =>
      obtain ⟨access, markToken, nameToken, span⟩ := suffix
      obtain ⟨mark, name, rfl⟩ := rest _ rfl
      exact ⟨.member _, .cons base (.cons (.mark access mark) (.single (.member name))), rfl, rfl⟩

-- The frames and links around a tree are arbitrary, so the trees inside of it are read under the
-- same statements. Behind each tree stands a state from which the enclosing rule goes on.
mutual

theorem Expression.reads (expr : Expression) (grammatical : expr.Grammatical)
    (head : Option LetHead) (frames : List Frame) :
    ∃ state, Reads (.inside ⟨head, frames, [], .operand⟩) expr.tokens state ∧
      Completes head frames expr state := by
  obtain ⟨first, tail, span⟩ := expr
  obtain ⟨left, right, rfl⟩ := grammatical
  obtain ⟨spot, begins, ends⟩ := first.reads left head frames []
  obtain ⟨state, goes, completes⟩ := reads_tail tail right head frames [] spot first ends
  rw [← Expression.make_eq, Expression.tokens_make]
  exact ⟨state, begins.append goes, completes⟩

theorem reads_tail (tail : List (Token × Call)) (grammatical : tailGrammatical tail)
    (head : Option LetHead) (frames : List Frame) (links : Links) (spot : Spot) (last : Call)
    (ends : spot.call? = some last) :
    ∃ state, Reads (.inside ⟨head, frames, links, spot⟩) (tailTokens tail) state ∧
      Completes head frames (links.assemble last tail) state := by
  match tail with
  | [] => exact ⟨_, .nil, links, spot, last, rfl, ends, rfl⟩
  | (token, operand) :: rest =>
      obtain ⟨⟨op, kind⟩, inner, others⟩ := grammatical
      obtain ⟨next, reads, stops⟩ := operand.reads inner head frames ((last, token) :: links)
      obtain ⟨state, goes, completes⟩ :=
        reads_tail rest others head frames ((last, token) :: links) next operand stops
      exact ⟨state, .cons (.operator kind ends) (reads.append goes), completes⟩

theorem Call.reads (call : Call) (grammatical : call.Grammatical) (head : Option LetHead)
    (frames : List Frame) (links : Links) :
    ∃ spot, Reads (.inside ⟨head, frames, links, .operand⟩) call.tokens
        (.inside ⟨head, frames, links, spot⟩) ∧ spot.call? = some call := by
  match call with
  | ⟨member, none, span⟩ =>
      obtain ⟨callee, rfl⟩ := grammatical
      obtain ⟨spot, reads, -, ends⟩ := member.reads callee head frames links
      exact ⟨spot, reads, ends⟩
  | ⟨member, some args, span⟩ =>
      obtain ⟨callee, inner, rfl⟩ := grammatical
      obtain ⟨spot, reads, ends, -⟩ := member.reads callee head frames links
      exact ⟨.call _, reads.append (args.reads inner head frames links spot member ends), rfl⟩

theorem Arguments.reads (args : Arguments) (grammatical : args.Grammatical)
    (head : Option LetHead) (frames : List Frame) (links : Links) (spot : Spot) (callee : Member)
    (ends : spot.member? = some callee) :
    Reads (.inside ⟨head, frames, links, spot⟩) args.tokens
      (.inside ⟨head, frames, links, .call (.make callee (some args))⟩) := by
  match args with
  | ⟨opening, [], commas, closing, span⟩ =>
      obtain ⟨left, -, -, count, right, rfl⟩ := grammatical
      obtain rfl : commas = [] := List.eq_nil_of_length_eq_zero count
      exact .cons (.opening left ends) (.single (.noArguments right))
  | ⟨opening, expr :: exprs, commas, closing, span⟩ =>
      obtain ⟨left, inner, marks, count, right, rfl⟩ := grammatical
      have reads := reads_separated (expr :: exprs) commas closing inner marks (by simp [count])
        right head ⟨links, callee, opening, []⟩ frames
      exact .cons (.opening left ends) (reads.opened (by simp))

theorem reads_separated (exprs : List Expression) (commas : List Token) (closing : Token)
    (grammatical : allGrammatical exprs) (marks : ∀ comma ∈ commas, comma.kind = .punct .comma)
    (count : exprs.length = commas.length + 1) (kind : closing.kind = .punct .rparen)
    (head : Option LetHead) (frame : Frame) (frames : List Frame) :
    Reads (.inside ⟨head, frame :: frames, [], .operand⟩) (separated exprs commas ++ [closing])
      (.inside ⟨head, frames, frame.before, .call (.make frame.callee (some (.make frame.opening
        (frame.args.reverse.map (·.1) ++ exprs) (frame.args.reverse.map (·.2) ++ commas)
        closing)))⟩) := by
  match exprs, commas with
  | [expr], [] =>
      obtain ⟨_, reads, links, spot, last, rfl, ends, rfl⟩ :=
        expr.reads grammatical.1 head (frame :: frames)
      have whole := reads.append (.single (.closing kind ends))
      simpa [separated, Frame.close] using whole
  | expr :: next :: rest, comma :: commas =>
      obtain ⟨_, reads, links, spot, last, rfl, ends, rfl⟩ :=
        expr.reads grammatical.1 head (frame :: frames)
      have goes := reads_separated (next :: rest) commas closing grammatical.2
        (fun mark member => marks mark (List.mem_cons_of_mem _ member)) (by simpa using count) kind
        head { frame with args := (links.close last, comma) :: frame.args } frames
      have whole := reads.append (.cons (.comma (marks comma List.mem_cons_self) ends) goes)
      simpa [separated] using whole

end

theorem Expression.tokens_ne_nil (expr : Expression) : expr.tokens ≠ [] := by
  obtain ⟨⟨member, args, _⟩, tail, _⟩ := expr
  cases args <;> simp [Expression.tokens, Call.tokens, Member.tokens]

theorem Clause.reads (clause : Clause) (grammatical : clause.Grammatical) :
    ∃ head expr state, Reads .start clause.tokens state ∧ Completes head [] expr state ∧
      clauseOf head expr = clause := by
  cases clause with
  | letDecl decl =>
      obtain ⟨keyword, mutable, name, equal, value, span⟩ := decl
      obtain ⟨first, second, third, fourth, inner, rfl⟩ := grammatical
      obtain ⟨state, reads, completes⟩ :=
        value.reads inner (some ⟨keyword, mutable, name, equal⟩) []
      have rest : Reads (.binding keyword mutable) (name :: equal :: value.tokens) state :=
        .cons (.name third) (.cons (.equal fourth) reads)
      refine ⟨some ⟨keyword, mutable, name, equal⟩, value, state, ?_, completes, rfl⟩
      cases mutable with
      | none => exact .cons (.letWord first) rest
      | some word => exact .cons (.letWord first) (.cons (.mutWord (second word rfl)) rest)
  | expression expr =>
      obtain ⟨state, reads, completes⟩ := expr.reads grammatical none []
      exact ⟨none, expr, state, reads.start expr.tokens_ne_nil, completes, rfl⟩

/-- The statement that is made by taking all of a row of tokens, if the last one ends it. -/
def State.finish? : State → List Token → Option Statement
  | _, [] => none
  | state, token :: rest =>
      match state.take token with
      | some (.more next) => next.finish? rest
      | some (.done statement) => if rest.isEmpty then some statement else none
      | none => none

theorem Takes.finish? {state next : State} {token : Token}
    (takes : Takes state token (.more next)) (tokens : List Token) :
    state.finish? (token :: tokens) = next.finish? tokens := by
  simp [State.finish?, takes.take]

theorem Reads.finish? {state middle : State} {front : List Token}
    (reads : Reads state front middle) (back : List Token) :
    state.finish? (front ++ back) = middle.finish? back := by
  induction reads with
  | nil => rfl
  | cons takes _ ih => rw [List.cons_append, takes.finish?, ih]

theorem finish?_cases {state : State} {token : Token} {tokens : List Token} {statement : Statement}
    (finishes : state.finish? (token :: tokens) = some statement) :
    (∃ next, Takes state token (.more next) ∧ next.finish? tokens = some statement) ∨
      (Takes state token (.done statement) ∧ tokens = []) := by
  rw [State.finish?] at finishes
  split at finishes
  · next next taken => exact .inl ⟨next, take_eq_some_iff.mp taken, finishes⟩
  · next taken =>
      obtain ⟨last, same⟩ := Option.ite_none_right_eq_some.mp finishes
      cases same
      exact .inr ⟨take_eq_some_iff.mp taken, List.isEmpty_iff.mp last⟩
  · cases finishes

theorem finish?_grammatical {state : State} {tokens : List Token} {statement : Statement}
    (before : state.Grammatical) (finishes : state.finish? tokens = some statement) :
    statement.Grammatical ∧ statement.tokens = state.tokens ++ tokens := by
  induction tokens generalizing state with
  | nil => cases finishes
  | cons token tokens ih =>
      obtain ⟨next, takes, later⟩ | ⟨takes, rfl⟩ := finish?_cases finishes
      · have longer : next.tokens = state.tokens ++ [token] := takes.tokens before
        obtain ⟨after, same⟩ := ih (takes.grammatical before) later
        exact ⟨after, by simp [same, longer]⟩
      · exact ⟨takes.grammatical before, takes.tokens before⟩

theorem Statement.finish?_tokens (statement : Statement) (grammatical : statement.Grammatical) :
    State.start.finish? statement.tokens = some statement := by
  obtain ⟨clause, semi, span⟩ := statement
  obtain ⟨inner, kind, rfl⟩ := grammatical
  obtain ⟨head, expr, _, reads, ⟨links, spot, last, rfl, ends, rfl⟩, rfl⟩ := clause.reads inner
  have done : (State.inside ⟨head, [], links, spot⟩).take semi =
      some (.done (.make (clauseOf head (links.close last)) semi)) := Takes.take (.semi kind ends)
  rw [Statement.tokens, reads.finish?, State.finish?, done]
  rfl

theorem finish?_start_iff {tokens : List Token} {statement : Statement} :
    State.start.finish? tokens = some statement ↔
      statement.Grammatical ∧ statement.tokens = tokens := by
  constructor
  · intro finishes
    have start : State.start.Grammatical := trivial
    exact finish?_grammatical start finishes
  · rintro ⟨grammatical, rfl⟩
    exact statement.finish?_tokens grammatical

theorem finish?_isSome_iff (tokens : List Token) :
    (State.start.finish? tokens).isSome ↔
      Derives (.rule .statement) (tokens.map Token.kind) := by
  simp only [derives_statement_iff, Option.isSome_iff_exists, finish?_start_iff]

instance (word : List Kind) : Decidable (Derives (.rule .statement) word) :=
  decidable_of_iff
    ((State.start.finish? (word.map fun kind => ⟨kind, "", .emptyAt "" 0⟩)).isSome = true)
    (by rw [finish?_isSome_iff, List.map_map]; simp [Function.comp_def])

end Pipewright.ParseTree
