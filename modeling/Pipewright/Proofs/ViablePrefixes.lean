import Pipewright.Proofs.Parsing

set_option autoImplicit false

namespace Pipewright

def Expected.kinds : Expected → List Kind
  | .tokens kinds => kinds
  | .ident => [.ident]
  | .expression => [.ident, .integer]
  | .statement => [.keyword .letWord, .ident, .integer]

namespace ParseTree

open Grammar

def Begins (word : List Kind) : Prop :=
  ∃ rest, Derives (.rule .statement) (word ++ rest)

def ProperlyBegins (word : List Kind) : Prop :=
  ∃ rest, rest ≠ [] ∧ Derives (.rule .statement) (word ++ rest)

/-- The row goes along with some statement up to the token that was found and no further, and every
kind that was expected there goes along with a statement too. -/
def EarliestIn (error : Located ParseError) (row : List Token) : Prop :=
  ∃ before after, row = before ++ error.error.found :: after ∧
    ProperlyBegins (before.map Token.kind) ∧
    ¬Begins (before.map Token.kind ++ [error.error.found.kind]) ∧
    ∀ kind ∈ error.error.expected.kinds, Begins (before.map Token.kind ++ [kind])

def tokenOf (kind : Kind) : Token :=
  ⟨kind, "", .emptyAt "" 0⟩

@[simp] theorem map_kind_tokenOf (word : List Kind) : (word.map tokenOf).map Token.kind = word := by
  induction word with
  | nil => rfl
  | cons kind word ih => simpa [tokenOf] using ih

def State.Completable (state : State) : Prop :=
  ∃ rest, (state.finish? rest).isSome

theorem Takes.completable {state next : State} {token : Token}
    (takes : Takes state token (.more next)) (completable : next.Completable) :
    state.Completable := by
  obtain ⟨rest, finishes⟩ := completable
  exact ⟨token :: rest, by rwa [takes.finish?]⟩

-- Behind an operand the open calls are closed one after another, the innermost first.
theorem completable_of_call {head : Option LetHead} {frames : List Frame} {links : Links}
    {spot : Spot} {call : Call} (ends : spot.call? = some call) :
    (State.inside ⟨head, frames, links, spot⟩).Completable := by
  induction frames generalizing links spot call with
  | nil =>
      have takes : Takes (.inside ⟨head, [], links, spot⟩) (tokenOf (.punct .semi)) _ :=
        .semi rfl ends
      exact ⟨[tokenOf (.punct .semi)], by simp [State.finish?, takes.take]⟩
  | cons frame frames ih =>
      have takes : Takes (.inside ⟨head, frame :: frames, links, spot⟩)
          (tokenOf (.punct .rparen)) _ := .closing rfl ends
      exact takes.completable (ih rfl)

theorem completable_of_operand (head : Option LetHead) (frames : List Frame) (links : Links) :
    (State.inside ⟨head, frames, links, .operand⟩).Completable := by
  have takes : Takes (.inside ⟨head, frames, links, .operand⟩) (tokenOf .ident) _ := .operand rfl
  exact takes.completable (completable_of_call rfl)

theorem State.completable (state : State) : state.Completable := by
  have named (keyword : Token) (mutable : Option Token) (name : Token) :
      (State.named keyword mutable name).Completable := by
    have takes : Takes (.named keyword mutable name) (tokenOf (.punct .equal)) _ := .equal rfl
    exact takes.completable (completable_of_operand _ _ _)
  cases state with
  | start =>
      have takes : Takes .start (tokenOf .ident) _ := .first rfl
      exact takes.completable (completable_of_call rfl)
  | binding keyword mutable =>
      have takes : Takes (.binding keyword mutable) (tokenOf .ident) _ := .name rfl
      exact takes.completable (named keyword mutable _)
  | named keyword mutable name => exact named keyword mutable name
  | inside here =>
      obtain ⟨head, frames, links, spot⟩ := here
      cases spot with
      | operand => exact completable_of_operand head frames links
      | opened =>
          have takes : Takes (.inside ⟨head, frames, links, .opened⟩) (tokenOf .ident) _ :=
            .argument rfl
          exact takes.completable (completable_of_call rfl)
      | marked primary access mark =>
          have takes : Takes (.inside ⟨head, frames, links, .marked primary access mark⟩)
              (tokenOf .ident) _ := .member rfl
          exact takes.completable (completable_of_call rfl)
      | primary | member | call => exact completable_of_call rfl

theorem Inside.exists_takes {inside : Inside} {kind : Kind}
    (wanted : kind ∈ inside.expected.kinds) :
    ∃ step, Takes (.inside inside) (tokenOf kind) step := by
  obtain ⟨head, frames, links, spot⟩ := inside
  have behind {call : Call} (ends : spot.call? = some call)
      (named : kind ∈ if frames = [] then [Kind.punct .semi] else [.punct .comma, .punct .rparen]) :
      ∃ step, Takes (.inside ⟨head, frames, links, spot⟩) (tokenOf kind) step := by
    cases frames with
    | nil =>
        obtain rfl : kind = .punct .semi := by simpa using named
        exact ⟨_, .semi rfl ends⟩
    | cons frame frames =>
        obtain rfl | rfl : kind = .punct .comma ∨ kind = .punct .rparen := by simpa using named
        · exact ⟨_, .comma rfl ends⟩
        · exact ⟨_, .closing rfl ends⟩
  cases spot with
  | operand =>
      obtain rfl | rfl : kind = .ident ∨ kind = .integer := by
        simpa [Inside.expected, Expected.kinds] using wanted
      · exact ⟨_, .operand rfl⟩
      · exact ⟨_, .operand rfl⟩
  | opened =>
      obtain rfl | rfl : kind = .ident ∨ kind = .integer := by
        simpa [Inside.expected, Expected.kinds] using wanted
      · exact ⟨_, .argument rfl⟩
      · exact ⟨_, .argument rfl⟩
  | marked primary access mark =>
      obtain rfl : kind = .ident := by simpa [Inside.expected, Expected.kinds] using wanted
      exact ⟨_, .member rfl⟩
  | primary | member | call =>
      refine behind rfl ?_
      cases frames <;> simpa [Inside.expected, Expected.kinds] using wanted

theorem State.exists_takes {state : State} {kind : Kind} (wanted : kind ∈ state.expected.kinds) :
    ∃ step, Takes state (tokenOf kind) step := by
  cases state with
  | start =>
      obtain rfl | rfl | rfl : kind = .keyword .letWord ∨ kind = .ident ∨ kind = .integer := by
        simpa [State.expected, Expected.kinds] using wanted
      · exact ⟨_, .letWord rfl⟩
      · exact ⟨_, .first rfl⟩
      · exact ⟨_, .first rfl⟩
  | binding keyword mutable =>
      obtain rfl : kind = .ident := by simpa [State.expected, Expected.kinds] using wanted
      exact ⟨_, .name rfl⟩
  | named keyword mutable name =>
      obtain rfl : kind = .punct .equal := by simpa [State.expected, Expected.kinds] using wanted
      exact ⟨_, .equal rfl⟩
  | inside here => exact Inside.exists_takes wanted

theorem Reads.derives_iff {before : List Token} {state : State} (reads : Reads .start before state)
    (after : List Token) :
    Derives (.rule .statement) ((before ++ after).map Token.kind) ↔
      (state.finish? after).isSome := by
  rw [← finish?_isSome_iff, reads.finish?]

theorem Reads.properlyBegins {before : List Token} {state : State}
    (reads : Reads .start before state) : ProperlyBegins (before.map Token.kind) := by
  obtain ⟨rest, finishes⟩ := state.completable
  refine ⟨rest.map Token.kind, ?_, ?_⟩
  · cases rest with
    | nil => simp [State.finish?] at finishes
    | cons => simp
  · rw [← List.map_append]
    exact (reads.derives_iff rest).mpr finishes

theorem Reads.not_begins {before : List Token} {state : State} {found : Token}
    (reads : Reads .start before state) (refused : state.take found = none) :
    ¬Begins (before.map Token.kind ++ [found.kind]) := by
  rintro ⟨rest, derived⟩
  have spelled : before.map Token.kind ++ [found.kind] ++ rest =
      (before ++ found :: rest.map tokenOf).map Token.kind := by
    simp [-List.map_map]
  rw [spelled, reads.derives_iff, State.finish?, refused] at derived
  cases derived

theorem Reads.begins {before : List Token} {state : State} {token : Token} {step : Step}
    (reads : Reads .start before state) (takes : Takes state token step) :
    Begins (before.map Token.kind ++ [token.kind]) := by
  have whole (rest : List Token) (finishes : (state.finish? (token :: rest)).isSome) :
      Begins (before.map Token.kind ++ [token.kind]) :=
    ⟨rest.map Token.kind, by simpa using (reads.derives_iff (token :: rest)).mpr finishes⟩
  cases step with
  | more next =>
      obtain ⟨rest, finishes⟩ := next.completable
      exact whole rest (by rwa [takes.finish?])
  | done statement => exact whole [] (by simp [State.finish?, takes.take])

theorem State.take_of_eof (state : State) {eof : Token} (ends : eof.kind = .eof) :
    state.take eof = none := by
  obtain refused | ⟨next, takes⟩ | ⟨statement, takes⟩ := state.take_cases eof
  · exact refused
  · exact absurd ends takes.kind_ne.1
  · exact absurd ends takes.kind_ne.1

theorem Reads.earliestIn {before after : List Token} {state : State} {found : Token}
    (reads : Reads .start before state) (refused : state.take found = none) :
    EarliestIn (ParseError.refuse state.expected found) (before ++ found :: after) := by
  refine ⟨before, after, rfl, reads.properlyBegins, reads.not_begins refused, ?_⟩
  intro kind wanted
  obtain ⟨step, takes⟩ := State.exists_takes wanted
  exact reads.begins takes

-- The tokens passed so far are carried along, since the grammar sees the row from its start.
theorem Halts.earliestIn {eof : Token} (ends : eof.kind = .eof) {state : State} {row : List Token}
    {error : Located ParseError} (halts : Halts eof state row error) {before : List Token}
    (reads : Reads .start before state) : EarliestIn error (before ++ row) := by
  induction halts generalizing before with
  | refused refused => exact reads.earliestIn refused
  | ended => exact reads.earliestIn (State.take_of_eof _ ends)
  | @later _ _ token rest _ takes _ ih =>
      have longer := ih (reads.append (.single takes))
      rwa [List.append_assoc] at longer

/-- Every row of tokens with something wrong in it has one error, at the first token with which it
is no beginning of a statement any more. -/
theorem parse_errors_earliest (tokens : List Token) :
    ∃ eof : Token, eof.kind = .eof ∧
      if readable tokens = [] then (parse tokens).errors = [ParseError.refuse .statement eof]
      else List.Forall₂ EarliestIn (parse tokens).errors ((cut (readable tokens)).faults eof) := by
  obtain ⟨last, eof, ends, same⟩ := parse_eq tokens
  have recovers := readings_recovers last (readable tokens) kind_ne_of_mem_readable
  refine ⟨last, ends, ?_⟩
  rw [same]
  by_cases empty : readable tokens = []
  · simp only [if_pos empty]
  · simp only [if_neg empty]
    exact recovers.halts.imp fun error row halts => halts.earliestIn ends .nil

end ParseTree

end Pipewright
