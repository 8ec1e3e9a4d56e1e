import Pipewright.ParseTree.Reader
import Pipewright.Proofs.GrammaticalTrees

set_option autoImplicit false

namespace Pipewright.ParseTree

inductive Takes : State → Token → Step → Prop where
  | letWord {token : Token} (kind : token.kind = .keyword .letWord) :
      Takes .start token (.more (.binding token none))
  | first {token : Token} {primary : Primary} (reads : primary? token = some primary) :
      Takes .start token (.more (.inside ⟨none, [], [], .primary primary⟩))
  | mutWord {keyword token : Token} (kind : token.kind = .keyword .mutWord) :
      Takes (.binding keyword none) token (.more (.binding keyword (some token)))
  | name {keyword token : Token} {mutable : Option Token} (kind : token.kind = .ident) :
      Takes (.binding keyword mutable) token (.more (.named keyword mutable token))
  | equal {keyword name token : Token} {mutable : Option Token}
      (kind : token.kind = .punct .equal) :
      Takes (.named keyword mutable name) token
        (.more (.inside ⟨some ⟨keyword, mutable, name, token⟩, [], [], .operand⟩))
  | operand {head : Option LetHead} {frames : List Frame} {links : Links} {token : Token}
      {primary : Primary} (reads : primary? token = some primary) :
      Takes (.inside ⟨head, frames, links, .operand⟩) token
        (.more (.inside ⟨head, frames, links, .primary primary⟩))
  | argument {head : Option LetHead} {frames : List Frame} {links : Links} {token : Token}
      {primary : Primary} (reads : primary? token = some primary) :
      Takes (.inside ⟨head, frames, links, .opened⟩) token
        (.more (.inside ⟨head, frames, links, .primary primary⟩))
  | noArguments {head : Option LetHead} {frame : Frame} {frames : List Frame} {links : Links}
      {token : Token} (kind : token.kind = .punct .rparen) :
      Takes (.inside ⟨head, frame :: frames, links, .opened⟩) token
        (.more (.inside ⟨head, frames, frame.before, .call (frame.close none token)⟩))
  | mark {head : Option LetHead} {frames : List Frame} {links : Links} {token : Token}
      {primary : Primary} (access : Access) (kind : token.kind = access.kind) :
      Takes (.inside ⟨head, frames, links, .primary primary⟩) token
        (.more (.inside ⟨head, frames, links, .marked primary access token⟩))
  | member {head : Option LetHead} {frames : List Frame} {links : Links} {mark token : Token}
      {primary : Primary} {access : Access} (kind : token.kind = .ident) :
      Takes (.inside ⟨head, frames, links, .marked primary access mark⟩) token
        (.more (.inside
          ⟨head, frames, links, .member (.make primary (some (.make access mark token)))⟩))
  | opening {head : Option LetHead} {frames : List Frame} {links : Links} {spot : Spot}
      {token : Token} {callee : Member} (kind : token.kind = .punct .lparen)
      (ends : spot.member? = some callee) :
      Takes (.inside ⟨head, frames, links, spot⟩) token
        (.more (.inside ⟨head, ⟨links, callee, token, []⟩ :: frames, [], .opened⟩))
  | operator {head : Option LetHead} {frames : List Frame} {links : Links} {spot : Spot}
      {token : Token} {call : Call} {op : Operator} (kind : token.kind = .operator op)
      (ends : spot.call? = some call) :
      Takes (.inside ⟨head, frames, links, spot⟩) token
        (.more (.inside ⟨head, frames, (call, token) :: links, .operand⟩))
  | comma {head : Option LetHead} {frame : Frame} {frames : List Frame} {links : Links}
      {spot : Spot} {token : Token} {call : Call} (kind : token.kind = .punct .comma)
      (ends : spot.call? = some call) :
      Takes (.inside ⟨head, frame :: frames, links, spot⟩) token
        (.more (.inside
          ⟨head, { frame with args := (links.close call, token) :: frame.args } :: frames, [],
            .operand⟩))
  | closing {head : Option LetHead} {frame : Frame} {frames : List Frame} {links : Links}
      {spot : Spot} {token : Token} {call : Call} (kind : token.kind = .punct .rparen)
      (ends : spot.call? = some call) :
      Takes (.inside ⟨head, frame :: frames, links, spot⟩) token
        (.more (.inside
          ⟨head, frames, frame.before, .call (frame.close (some (links.close call)) token)⟩))
  | semi {head : Option LetHead} {links : Links} {spot : Spot} {token : Token} {call : Call}
      (kind : token.kind = .punct .semi) (ends : spot.call? = some call) :
      Takes (.inside ⟨head, [], links, spot⟩) token
        (.done (.make (clauseOf head (links.close call)) token))

theorem primary?_kind {token : Token} {primary : Primary} (reads : primary? token = some primary) :
    token.kind = .ident ∨ token.kind = .integer := by
  unfold primary? at reads
  split at reads <;> simp_all

theorem Takes.take {state : State} {token : Token} {step : Step} (takes : Takes state token step) :
    state.take token = some step := by
  cases takes with
  | letWord kind | mutWord kind | name kind | equal kind => simp [State.take, kind]
  | first reads => obtain kind | kind := primary?_kind reads <;> simp [State.take, reads, kind]
  | operand reads => simp [State.take, Inside.take, reads]
  | argument reads =>
      obtain kind | kind := primary?_kind reads <;> simp [State.take, Inside.take, reads, kind]
  | noArguments kind => simp [State.take, Inside.take, Inside.closeCall, kind]
  | mark access kind => cases access <;> simp [State.take, Inside.take, Access.kind, kind]
  | member kind => simp [State.take, Inside.take, kind]
  | @opening _ _ _ spot _ _ kind ends =>
      cases spot <;> simp_all [State.take, Inside.take, Spot.member?, Inside.openCall]
  | @operator _ _ _ spot _ _ _ kind ends | @comma _ _ _ _ spot _ _ kind ends
  | @closing _ _ _ _ spot _ _ kind ends | @semi _ _ spot _ _ kind ends =>
      cases spot <;>
        simp_all [State.take, Inside.take, Spot.call?, Spot.member?, Inside.afterCall,
          Inside.closeCall]

theorem takes_of_afterCall {inside : Inside} {call : Call} {token : Token} {step : Step}
    (ends : inside.spot.call? = some call) (taken : inside.afterCall call token = some step) :
    Takes (.inside inside) token step := by
  obtain ⟨head, frames, links, spot⟩ := inside
  simp only [Inside.afterCall] at taken
  split at taken
  · next kind => cases taken; exact .operator kind ends
  · next kind => cases taken; exact .comma kind ends
  · next frames _ _ kind =>
      cases frames with
      | nil => cases taken
      | cons frame frames => cases taken; exact .closing kind ends
  · next kind => cases taken; exact .semi kind ends
  · cases taken

theorem takes_of_inside {inside : Inside} {token : Token} {step : Step}
    (taken : inside.take token = some step) : Takes (.inside inside) token step := by
  obtain ⟨head, frames, links, spot⟩ := inside
  simp only [Inside.take] at taken
  split at taken
  · obtain ⟨primary, reads, same⟩ := Option.bind_eq_some_iff.mp taken
    cases same
    exact .operand reads
  · next kind =>
      cases frames with
      | nil => cases taken
      | cons frame frames => cases taken; exact .noArguments kind
  · obtain ⟨primary, reads, same⟩ := Option.bind_eq_some_iff.mp taken
    cases same
    exact .argument reads
  · next kind => cases taken; exact .member kind
  · next kind => cases taken; exact .mark .dot kind
  · next kind => cases taken; exact .mark .path kind
  · next kind =>
      obtain ⟨callee, ends, same⟩ := Option.map_eq_some_iff.mp taken
      cases same
      exact .opening kind ends
  · obtain ⟨call, ends, after⟩ := Option.bind_eq_some_iff.mp taken
    exact takes_of_afterCall ends after

theorem take_eq_some_iff {state : State} {token : Token} {step : Step} :
    state.take token = some step ↔ Takes state token step := by
  refine ⟨fun taken => ?_, Takes.take⟩
  -- The cases stand in the order of the branches of `State.take`.
  unfold State.take at taken
  split at taken
  · next kind => cases taken; exact .letWord kind
  · obtain ⟨primary, reads, same⟩ := Option.map_eq_some_iff.mp taken
    cases same
    exact .first reads
  · next kind => cases taken; exact .mutWord kind
  · next kind => cases taken; exact .name kind
  · cases taken
  · next kind => cases taken; exact .equal kind
  · cases taken
  · exact takes_of_inside taken

def Links.tokens (links : Links) : List Token :=
  links.reverse.flatMap fun link => link.1.tokens ++ [link.2]

def Frame.tokens (frame : Frame) : List Token :=
  frame.before.tokens ++ frame.callee.tokens ++
    frame.opening :: frame.args.reverse.flatMap fun arg => arg.1.tokens ++ [arg.2]

def Spot.tokens : Spot → List Token
  | .operand | .opened => []
  | .primary base => [base.token]
  | .marked base _ mark => [base.token, mark]
  | .member whole => whole.tokens
  | .call whole => whole.tokens

def LetHead.tokens (head : LetHead) : List Token :=
  head.keyword :: head.mutable.toList ++ [head.name, head.equal]

def Inside.tokens (inside : Inside) : List Token :=
  (inside.head.map LetHead.tokens).getD [] ++ inside.frames.reverse.flatMap Frame.tokens ++
    inside.links.tokens ++ inside.spot.tokens

def State.tokens : State → List Token
  | .start => []
  | .binding keyword mutable => keyword :: mutable.toList
  | .named keyword mutable name => keyword :: mutable.toList ++ [name]
  | .inside here => here.tokens

def Step.tokens : Step → List Token
  | .more state => state.tokens
  | .done statement => statement.tokens

def Links.Grammatical (links : Links) : Prop :=
  ∀ link ∈ links, link.1.Grammatical ∧ ∃ op, link.2.kind = .operator op

structure Frame.Grammatical (frame : Frame) : Prop where
  before : frame.before.Grammatical
  callee : frame.callee.Grammatical
  opening : frame.opening.kind = .punct .lparen
  args : ∀ arg ∈ frame.args, arg.1.Grammatical ∧ arg.2.kind = .punct .comma

def Spot.Grammatical : Spot → Prop
  | .operand | .opened => True
  | .primary base => base.Grammatical
  | .marked base access mark => base.Grammatical ∧ mark.kind = access.kind
  | .member whole => whole.Grammatical
  | .call whole => whole.Grammatical

structure LetHead.Grammatical (head : LetHead) : Prop where
  keyword : head.keyword.kind = .keyword .letWord
  mutable : ∀ word ∈ head.mutable, word.kind = .keyword .mutWord
  name : head.name.kind = .ident
  equal : head.equal.kind = .punct .equal

-- `opened` is only kept directly behind a parenthesis, before anything of the arguments is read.
structure Inside.Grammatical (inside : Inside) : Prop where
  head : ∀ head ∈ inside.head, head.Grammatical
  frames : ∀ frame ∈ inside.frames, frame.Grammatical
  links : inside.links.Grammatical
  spot : inside.spot.Grammatical
  opened : inside.spot = .opened →
    inside.links = [] ∧ ∀ frame ∈ inside.frames.head?, frame.args = []

def State.Grammatical : State → Prop
  | .start => True
  | .binding keyword mutable =>
      keyword.kind = .keyword .letWord ∧ ∀ word ∈ mutable, word.kind = .keyword .mutWord
  | .named keyword mutable name =>
      keyword.kind = .keyword .letWord ∧ (∀ word ∈ mutable, word.kind = .keyword .mutWord) ∧
        name.kind = .ident
  | .inside here => here.Grammatical

def Step.Grammatical : Step → Prop
  | .more state => state.Grammatical
  | .done statement => statement.Grammatical

theorem primary?_eq_some {token : Token} {primary : Primary}
    (reads : primary? token = some primary) : primary.Grammatical ∧ primary.token = token := by
  unfold primary? at reads
  split at reads
  · next kind => cases reads; exact ⟨kind, rfl⟩
  · next kind => cases reads; exact ⟨kind, rfl⟩
  · cases reads

theorem Spot.Grammatical.member {spot : Spot} {member : Member} (grammatical : spot.Grammatical)
    (ends : spot.member? = some member) : member.Grammatical ∧ member.tokens = spot.tokens := by
  cases spot with
  | primary base => cases ends; exact ⟨.make grammatical (by simp), rfl⟩
  | member whole => cases ends; exact ⟨grammatical, rfl⟩
  | operand | opened | marked | call => cases ends

theorem Spot.Grammatical.call {spot : Spot} {call : Call} (grammatical : spot.Grammatical)
    (ends : spot.call? = some call) : call.Grammatical ∧ call.tokens = spot.tokens := by
  cases spot with
  | primary base => cases ends; exact ⟨.make (.make grammatical (by simp)) (by simp), rfl⟩
  | member whole => cases ends; exact ⟨.make grammatical (by simp), rfl⟩
  | call whole => cases ends; exact ⟨grammatical, rfl⟩
  | operand | opened | marked => cases ends

@[simp] theorem Links.grammatical_nil : Links.Grammatical [] := by
  simp [Links.Grammatical]

theorem Links.Grammatical.assemble {links : Links} {last : Call} {tail : List (Token × Call)}
    (before : links.Grammatical) (operand : last.Grammatical) (after : tailGrammatical tail) :
    (links.assemble last tail).Grammatical := by
  induction links generalizing last tail with
  | nil => exact .make operand after
  | cons link links ih =>
      obtain ⟨⟨first, op⟩, others⟩ := List.forall_mem_cons.mp before
      exact ih others first ⟨op, operand, after⟩

theorem Links.Grammatical.close {links : Links} {last : Call} (before : links.Grammatical)
    (operand : last.Grammatical) : (links.close last).Grammatical :=
  before.assemble operand trivial

@[simp] theorem Links.tokens_nil : Links.tokens [] = [] := rfl

@[simp] theorem Links.tokens_cons (operand : Call) (op : Token) (links : Links) :
    Links.tokens ((operand, op) :: links) = links.tokens ++ operand.tokens ++ [op] := by
  simp [Links.tokens]

theorem Links.tokens_assemble (links : Links) (last : Call) (tail : List (Token × Call)) :
    (links.assemble last tail).tokens = links.tokens ++ last.tokens ++ tailTokens tail := by
  induction links generalizing last tail with
  | nil => simp [Links.assemble]
  | cons link links ih =>
      obtain ⟨operand, op⟩ := link
      simp [Links.assemble, ih, tailTokens]

@[simp] theorem Links.tokens_close (links : Links) (last : Call) :
    (links.close last).tokens = links.tokens ++ last.tokens := by
  simp [Links.close, Links.tokens_assemble, tailTokens]

theorem allGrammatical_iff (exprs : List Expression) :
    allGrammatical exprs ↔ ∀ expr ∈ exprs, expr.Grammatical := by
  induction exprs with
  | nil => simp [allGrammatical]
  | cons expr exprs ih => simp [allGrammatical, ih]

theorem separated_pairs (args : List (Expression × Token)) (exprs : List Expression) :
    separated (args.map (·.1) ++ exprs) (args.map (·.2)) =
      args.flatMap (fun arg => arg.1.tokens ++ [arg.2]) ++ separated exprs [] := by
  induction args with
  | nil => rfl
  | cons arg args ih => simp [separated, ih]

@[simp] theorem Frame.tokens_close (frame : Frame) (last : Option Expression) (closing : Token) :
    frame.before.tokens ++ (frame.close last closing).tokens =
      frame.tokens ++ (last.map Expression.tokens).getD [] ++ [closing] := by
  simp only [Frame.close, Call.make, Call.tokens, Arguments.make, Arguments.tokens,
    separated_pairs, Frame.tokens]
  cases last <;> simp [separated]

theorem Frame.Grammatical.close {frame : Frame} {last : Option Expression} {closing : Token}
    (before : frame.Grammatical) (inner : ∀ expr ∈ last, expr.Grammatical)
    (kind : closing.kind = .punct .rparen) (empty : last = none → frame.args = []) :
    (frame.close last closing).Grammatical := by
  -- Each earlier argument brought its comma, so the last one makes up the difference.
  refine ⟨before.callee, .make before.opening ?_ ?_ ?_ kind, rfl⟩
  · rw [allGrammatical_iff]
    intro expr member
    simp only [List.mem_append, List.mem_map, List.mem_reverse, Option.mem_toList] at member
    obtain ⟨arg, earlier, rfl⟩ | final := member
    · exact (before.args arg earlier).1
    · exact inner expr final
  · simp only [List.mem_map, List.mem_reverse]
    rintro _ ⟨arg, earlier, rfl⟩
    exact (before.args arg earlier).2
  · cases last with
    | none => simp [empty rfl]
    | some expr => simp

theorem Takes.grammatical {state : State} {token : Token} {step : Step}
    (takes : Takes state token step) (before : state.Grammatical) : step.Grammatical := by
  cases takes with
  | letWord kind => exact ⟨kind, by simp⟩
  | first reads => exact ⟨by simp, by simp, by simp, (primary?_eq_some reads).1, by simp⟩
  | mutWord kind => exact ⟨before.1, by simpa using kind⟩
  | name kind => exact ⟨before.1, before.2, kind⟩
  | equal kind =>
      refine ⟨?_, by simp, by simp, trivial, by simp⟩
      rintro _ ⟨⟩
      exact ⟨before.1, before.2.1, before.2.2, kind⟩
  | operand reads | argument reads =>
      exact ⟨before.head, before.frames, before.links, (primary?_eq_some reads).1, by simp⟩
  | noArguments kind =>
      -- A comma is only read behind an argument, so the call has none of either.
      obtain ⟨frame, frames⟩ := List.forall_mem_cons.mp before.frames
      have empty := (before.opened rfl).2
      exact ⟨before.head, frames, frame.before, frame.close (by simp) kind (by simpa using empty),
        by simp⟩
  | mark access kind =>
      exact ⟨before.head, before.frames, before.links, ⟨before.spot, kind⟩, by simp⟩
  | member kind =>
      have suffix := Suffix.Grammatical.make before.spot.2 kind
      have whole : (Member.make _ (some (Suffix.make _ _ token))).Grammatical :=
        .make before.spot.1 (by simpa using suffix)
      exact ⟨before.head, before.frames, before.links, whole, by simp⟩
  | opening kind ends =>
      have frame : Frame.Grammatical ⟨_, _, _, []⟩ :=
        ⟨before.links, (before.spot.member ends).1, kind, by simp⟩
      exact ⟨before.head, List.forall_mem_cons.mpr ⟨frame, before.frames⟩, by simp, trivial,
        by simp⟩
  | operator kind ends =>
      have operand := (before.spot.call ends).1
      exact ⟨before.head, before.frames,
        List.forall_mem_cons.mpr ⟨⟨operand, _, kind⟩, before.links⟩, trivial, by simp⟩
  | comma kind ends =>
      obtain ⟨frame, frames⟩ := List.forall_mem_cons.mp before.frames
      have last := before.links.close (before.spot.call ends).1
      refine ⟨before.head, List.forall_mem_cons.mpr ⟨?_, frames⟩, by simp, trivial, by simp⟩
      exact ⟨frame.before, frame.callee, frame.opening,
        List.forall_mem_cons.mpr ⟨⟨last, kind⟩, frame.args⟩⟩
  | closing kind ends =>
      obtain ⟨frame, frames⟩ := List.forall_mem_cons.mp before.frames
      have last := before.links.close (before.spot.call ends).1
      exact ⟨before.head, frames, frame.before, frame.close (by simpa using last) kind (by simp),
        by simp⟩
  | @semi head _ _ _ _ kind ends =>
      have expr := before.links.close (before.spot.call ends).1
      cases head with
      | none => exact ⟨expr, kind, rfl⟩
      | some head =>
          obtain ⟨keyword, mutable, name, equal⟩ := before.head head rfl
          exact ⟨⟨keyword, mutable, name, equal, expr, rfl⟩, kind, rfl⟩

theorem Takes.tokens {state : State} {token : Token} {step : Step}
    (takes : Takes state token step) (before : state.Grammatical) :
    step.tokens = state.tokens ++ [token] := by
  cases takes with
  | letWord | mutWord => rfl
  | name => simp [Step.tokens, State.tokens]
  | equal => simp [Step.tokens, State.tokens, Inside.tokens, LetHead.tokens, Spot.tokens]
  | first reads | operand reads | argument reads =>
      simp [Step.tokens, State.tokens, Inside.tokens, Spot.tokens, (primary?_eq_some reads).2]
  | noArguments =>
      obtain rfl : _ = [] := (before.opened rfl).1
      simp [Step.tokens, State.tokens, Inside.tokens, Spot.tokens]
  | mark => simp [Step.tokens, State.tokens, Inside.tokens, Spot.tokens]
  | member =>
      simp [Step.tokens, State.tokens, Inside.tokens, Spot.tokens, Member.make, Member.tokens,
        Suffix.make, Suffix.tokens]
  | opening _ ends =>
      simp [Step.tokens, State.tokens, Inside.tokens, Spot.tokens, Frame.tokens,
        (before.spot.member ends).2]
  | operator _ ends =>
      simp [Step.tokens, State.tokens, Inside.tokens, Spot.tokens, (before.spot.call ends).2]
  | comma _ ends =>
      simp [Step.tokens, State.tokens, Inside.tokens, Spot.tokens, Frame.tokens,
        (before.spot.call ends).2]
  | closing _ ends =>
      simp [Step.tokens, State.tokens, Inside.tokens, Spot.tokens, (before.spot.call ends).2]
  | @semi head _ _ _ _ _ ends =>
      cases head <;>
        simp [Step.tokens, State.tokens, Inside.tokens, LetHead.tokens, Statement.make,
          Statement.tokens, clauseOf, Clause.tokens, LetDecl.make, LetDecl.tokens,
          (before.spot.call ends).2]

end Pipewright.ParseTree
