import Pipewright.Program.Lowering
import Pipewright.Proofs.Hulls
import Pipewright.Proofs.WrittenTrees

/-!
Where lowering stops. Only some of the tokens leave a trace in the program. They are looked at in a
fixed order, and the first of them that is at fault decides; joining spans never fails after that.
-/

set_option autoImplicit false

namespace Pipewright

open ParseTree

/-- What is wrong with a token that leaves a trace: it comes from another text, or it is an integer
that does not fit. -/
def Token.fault? (source : String) (token : Token) : Option (Located LowerError) :=
  if token.span.source ≠ source then
    some (LowerError.ofConflict ⟨.emptyAt source token.span.start, token.span⟩)
  else if token.kind = .integer ∧ Text.readUInt64? token.text.toList = none then
    some ⟨.intOutOfRange token.text, token.span⟩
  else
    none

def firstFault? (source : String) (tokens : List Token) : Option (Located LowerError) :=
  tokens.findSome? (Token.fault? source)

theorem firstFault?_append (source : String) (front back : List Token) :
    firstFault? source (front ++ back) =
      (firstFault? source front).or (firstFault? source back) :=
  List.findSome?_append

theorem source_of_fault?_eq_none {source : String} {token : Token}
    (sound : token.fault? source = none) : token.span.source = source := by
  by_cases own : token.span.source = source
  · exact own
  · simp [Token.fault?, own] at sound

theorem ne_notOperator_of_fault? {source : String} {token other : Token}
    {fault : Located LowerError} (found : token.fault? source = some fault) :
    fault.error ≠ .notOperator other := by
  rw [Token.fault?] at found
  split at found
  · cases found
    simp [LowerError.ofConflict]
  · split at found
    · cases found
      simp
    · cases found

/-- The tokens decide a result: the first of them at fault is its error, and if there is none the
result is a good value. -/
inductive Decided {α : Type} (source : String) (tokens : List Token) (good : α → Prop) :
    Lowered α → Prop
  | ok {value : α} : firstFault? source tokens = none → good value →
      Decided source tokens good (.ok value)
  | error {fault : Located LowerError} : firstFault? source tokens = some fault →
      Decided source tokens good (.error fault)

namespace Decided

variable {α β : Type} {source : String} {front back : List Token} {good : α → Prop}
  {fine : β → Prop} {first : Lowered α} {next : α → Lowered β}

theorem bind (decided : Decided source front good first)
    (later : ∀ value, good value → Decided source back fine (next value)) :
    Decided source (front ++ back) fine (first >>= next) := by
  cases decided with
  | error found => exact .error (by rw [firstFault?_append, found]; rfl)
  | @ok value sound result =>
      change Decided source (front ++ back) fine (next value)
      have second := later value result
      generalize next value = last at second
      cases second with
      | ok clean fits => exact .ok (by rw [firstFault?_append, sound, clean]; rfl) fits
      | error found => exact .error (by rw [firstFault?_append, sound, found]; rfl)

theorem andThen (decided : Decided source front good first)
    (later : ∀ value, good value → ∃ result, next value = .ok result ∧ fine result) :
    Decided source front fine (first >>= next) := by
  have whole : Decided source (front ++ []) fine (first >>= next) := by
    refine decided.bind fun value result => ?_
    obtain ⟨last, same, fits⟩ := later value result
    rw [same]
    exact .ok rfl fits
  simpa using whole

theorem map {f : α → β} (decided : Decided source front good first)
    (later : ∀ value, good value → fine (f value)) :
    Decided source front fine (f <$> first) := by
  cases decided with
  | error found => exact .error found
  | ok sound result => exact .ok sound (later _ result)

theorem eq_error (decided : Decided source front good first) {fault : Located LowerError}
    (found : firstFault? source front = some fault) : first = .error fault := by
  cases decided with
  | ok sound => cases sound.symm.trans found
  | error other => cases other.symm.trans found; rfl

theorem firstFault?_eq_none (decided : Decided source front good first) {value : α}
    (succeeds : first = .ok value) : firstFault? source front = none := by
  cases decided with
  | ok sound => exact sound
  | error => cases succeeds

theorem firstFault?_eq_some (decided : Decided source front good first)
    {fault : Located LowerError} (fails : first = .error fault) :
    firstFault? source front = some fault := by
  cases decided with
  | ok => cases fails
  | error found => cases fails; exact found

end Decided

namespace ParseTree

def Member.traced (member : Member) : List Token :=
  member.primary.token :: (member.suffix.map Suffix.name).toList

mutual

def Expression.traced : Expression → List Token
  | ⟨head, tail, _⟩ => head.traced ++ tailTraced tail

def tailTraced : List (Token × Call) → List Token
  | [] => []
  | (_, operand) :: rest => operand.traced ++ tailTraced rest

-- The end of the arguments is looked at before the arguments.
def Call.traced : Call → List Token
  | ⟨member, none, _⟩ => member.traced
  | ⟨member, some ⟨_, exprs, _, closing, _⟩, _⟩ => member.traced ++ closing :: allTraced exprs

def allTraced : List Expression → List Token
  | [] => []
  | expr :: exprs => expr.traced ++ allTraced exprs

end

def Clause.traced : Clause → List Token
  | .letDecl decl => decl.name :: (decl.value.traced ++ [decl.keyword])
  | .expression expr => expr.traced

def Statement.traced (statement : Statement) : List Token :=
  statement.clause.traced

def Program.traced (program : Program) : List Token :=
  program.statements.flatMap Statement.traced

theorem Member.mem_tokens_of_mem_traced (member : Member) {token : Token}
    (traced : token ∈ member.traced) : token ∈ member.tokens := by
  obtain ⟨primary, suffix, span⟩ := member
  cases suffix with
  | none => exact traced
  | some suffix =>
      have parts : token = primary.token ∨ token = suffix.name := by
        simpa [Member.traced] using traced
      rcases parts with rfl | rfl <;> simp [Member.tokens, Suffix.tokens]

mutual

theorem Expression.mem_tokens_of_mem_traced (expr : Expression) {token : Token}
    (traced : token ∈ expr.traced) : token ∈ expr.tokens := by
  match expr with
  | ⟨head, tail, span⟩ =>
      rw [Expression.traced, List.mem_append] at traced
      rw [Expression.tokens, List.mem_append]
      exact traced.imp head.mem_tokens_of_mem_traced (mem_tailTokens_of_mem_tailTraced tail)

theorem mem_tailTokens_of_mem_tailTraced (tail : List (Token × Call)) {token : Token}
    (traced : token ∈ tailTraced tail) : token ∈ tailTokens tail := by
  match tail with
  | [] => cases traced
  | (op, operand) :: rest =>
      rw [tailTraced, List.mem_append] at traced
      rw [tailTokens, List.mem_cons, List.mem_append]
      right
      exact traced.imp operand.mem_tokens_of_mem_traced (mem_tailTokens_of_mem_tailTraced rest)

theorem Call.mem_tokens_of_mem_traced (call : Call) {token : Token}
    (traced : token ∈ call.traced) : token ∈ call.tokens := by
  match call with
  | ⟨member, none, span⟩ =>
      rw [Call.traced] at traced
      rw [Call.tokens]
      exact member.mem_tokens_of_mem_traced traced
  | ⟨member, some ⟨opening, exprs, commas, closing, _⟩, span⟩ =>
      have inner := @mem_separated_of_mem_allTraced exprs commas token
      rw [Call.traced, List.mem_append, List.mem_cons] at traced
      rw [Call.tokens, Arguments.tokens]
      rcases traced with callee | rfl | arg
      · exact List.mem_append_left _ (member.mem_tokens_of_mem_traced callee)
      · simp
      · simp [inner arg]

theorem mem_separated_of_mem_allTraced (exprs : List Expression) (commas : List Token)
    {token : Token} (traced : token ∈ allTraced exprs) : token ∈ separated exprs commas := by
  match exprs, commas with
  | [], _ => cases traced
  | expr :: rest, [] =>
      rw [allTraced, List.mem_append] at traced
      rw [separated, List.mem_append]
      exact traced.imp expr.mem_tokens_of_mem_traced (mem_separated_of_mem_allTraced rest [])
  | expr :: rest, comma :: commas =>
      rw [allTraced, List.mem_append] at traced
      rw [separated, List.mem_append, List.mem_cons]
      exact traced.imp expr.mem_tokens_of_mem_traced fun other =>
        .inr (mem_separated_of_mem_allTraced rest commas other)

end

theorem Statement.mem_tokens_of_mem_traced (statement : Statement) {token : Token}
    (traced : token ∈ statement.traced) : token ∈ statement.tokens := by
  obtain ⟨clause, semi, span⟩ := statement
  rw [Statement.tokens, List.mem_append]
  left
  cases clause with
  | expression expr => exact expr.mem_tokens_of_mem_traced traced
  | letDecl decl =>
      have inner := @decl.value.mem_tokens_of_mem_traced token
      simp only [Statement.traced, Clause.traced, List.mem_cons, List.mem_append,
        List.not_mem_nil, or_false] at traced
      rcases traced with rfl | value | rfl
      · simp [Clause.tokens, LetDecl.tokens]
      · simp [Clause.tokens, LetDecl.tokens, inner value]
      · simp [Clause.tokens, LetDecl.tokens]

theorem Program.mem_tokens_of_mem_traced (program : Program) {token : Token}
    (traced : token ∈ program.traced) : token ∈ program.tokens := by
  obtain ⟨statement, member, inside⟩ := List.mem_flatMap.mp traced
  exact List.mem_flatMap.mpr ⟨statement, member, statement.mem_tokens_of_mem_traced inside⟩

def Expression.leading (expr : Expression) : Token :=
  expr.head.member.primary.token

theorem Expression.exists_traced (expr : Expression) :
    ∃ rest, expr.traced = expr.leading :: rest := by
  obtain ⟨⟨member, args, _⟩, tail, _⟩ := expr
  rw [Expression.traced, Expression.leading]
  rcases args with _ | ⟨opening, exprs, commas, closing, _⟩ <;> simp [Call.traced, Member.traced]

theorem Expression.leading_mem_traced (expr : Expression) : expr.leading ∈ expr.traced := by
  obtain ⟨rest, same⟩ := expr.exists_traced
  rw [same]
  exact List.mem_cons_self

theorem Expression.exists_tokens (expr : Expression) :
    ∃ rest, expr.tokens = expr.leading :: rest := by
  obtain ⟨⟨member, args, _⟩, tail, _⟩ := expr
  rw [Expression.tokens, Expression.leading]
  cases args <;> simp [Call.tokens, Member.tokens]

theorem Member.Grammatical.begins {member : Member} (grammatical : member.Grammatical) :
    member.span.source = member.primary.span.source ∧
      member.span.start = member.primary.span.start := by
  obtain ⟨primary, suffix, span⟩ := member
  obtain ⟨-, -, rfl⟩ := grammatical
  cases suffix <;> exact ⟨rfl, rfl⟩

theorem Call.Grammatical.begins {call : Call} (grammatical : call.Grammatical) :
    call.span.source = call.member.primary.span.source ∧
      call.span.start = call.member.primary.span.start := by
  obtain ⟨member, args, span⟩ := call
  cases args with
  | none =>
      obtain ⟨callee, rfl⟩ := grammatical
      exact callee.begins
  | some args =>
      obtain ⟨callee, -, rfl⟩ := grammatical
      exact callee.begins

theorem Expression.Grammatical.begins {expr : Expression} (grammatical : expr.Grammatical) :
    expr.span.source = expr.leading.span.source ∧
      expr.span.start = expr.leading.span.start := by
  obtain ⟨head, tail, span⟩ := expr
  obtain ⟨first, -, rfl⟩ := grammatical
  rw [Expression.make]
  split <;> exact first.begins

theorem Statement.Grammatical.source {source : String} {statement : Statement}
    (grammatical : statement.Grammatical)
    (own : ∀ token ∈ statement.traced, token.span.source = source) :
    statement.span.source = source := by
  obtain ⟨clause, semi, span⟩ := statement
  obtain ⟨inner, -, rfl⟩ := grammatical
  cases clause with
  | letDecl decl =>
      obtain ⟨-, -, -, -, -, span⟩ := inner
      have whole : decl.span.source = decl.keyword.span.source := by rw [span]; rfl
      exact whole.trans (own decl.keyword (by simp [Statement.traced, Clause.traced]))
  | expression expr =>
      have first : expr.Grammatical := inner
      exact first.begins.1.trans (own expr.leading expr.leading_mem_traced)

theorem Program.source_of_statements {source : String} {program : Program}
    (grammatical : ∀ statement ∈ program.statements, statement.Grammatical)
    (own : ∀ token ∈ program.traced, token.span.source = source) :
    ∀ span ∈ program.statements.map Statement.span, span.source = source := by
  rw [List.forall_mem_map]
  intro statement member
  apply (grammatical statement member).source
  intro token traced
  exact own token (List.mem_flatMap.mpr ⟨statement, member, traced⟩)

section

variable {source : String}

theorem decided_ownSpan {token : Token} (other : token.kind ≠ .integer) :
    Decided source [token] (fun span => span.source = source) (ownSpan source token) := by
  rw [ownSpan]
  split
  · next own => exact .ok (by simp [firstFault?, Token.fault?, own, other]) own
  · next foreign => exact .error (by simp [firstFault?, Token.fault?, foreign])

theorem decided_lowerIdent {token : Token} (kind : token.kind = .ident) :
    Decided source [token] (fun ident => ident.span.source = source)
      (lowerIdent source token) :=
  (decided_ownSpan (by simp [kind])).map fun _ own => own

theorem decided_lowerInteger {token : Token} (kind : token.kind = .integer) :
    Decided source [token] (fun literal => literal.span.source = source)
      (lowerInteger source token) := by
  by_cases own : token.span.source = source
  · rw [lowerInteger, ownSpan, if_pos own]
    cases read : Text.readUInt64? token.text.toList with
    | none => exact .error (by simp [firstFault?, Token.fault?, own, kind, read])
    | some value => exact .ok (by simp [firstFault?, Token.fault?, own, read]) own
  · rw [lowerInteger, ownSpan, if_neg own]
    exact .error (by simp [firstFault?, Token.fault?, own])

theorem Primary.decided (primary : Primary) (grammatical : primary.Grammatical) :
    Decided source [primary.token] (fun expr => expr.span.source = source)
      (primary.lower source) := by
  cases primary with
  | ident token => exact (decided_lowerIdent grammatical).map fun _ own => own
  | integer token => exact (decided_lowerInteger grammatical).map fun _ own => own

theorem Member.decided (member : Member) (grammatical : member.Grammatical) :
    Decided source member.traced (fun expr => expr.span.source = source)
      (member.lower source) := by
  obtain ⟨primary, suffix, span⟩ := member
  obtain ⟨first, rest, -⟩ := grammatical
  cases suffix with
  | none => exact (primary.decided first).andThen fun object own => ⟨object, rfl, own⟩
  | some suffix =>
      refine (primary.decided first).bind fun object objectOwn => ?_
      refine (decided_lowerIdent (rest suffix rfl).2.1).andThen fun property propertyOwn => ?_
      obtain ⟨span, merged, own⟩ := Span.exists_merge objectOwn propertyOwn
      exact ⟨.member suffix.access object property span, by rw [merged]; rfl, own⟩

mutual

theorem Expression.decided (expr : Expression) (grammatical : expr.Grammatical) :
    Decided source expr.traced (fun result => result.span.source = source)
      (expr.lower source) := by
  obtain ⟨head, tail, span⟩ := expr
  obtain ⟨first, rest, -⟩ := grammatical
  rw [Expression.lower, Expression.traced]
  refine (head.decided first).bind fun operand own => ?_
  refine (decided_tail tail rest).andThen fun pairs all => ?_
  obtain ⟨result, resolved, inSource⟩ := exists_resolve own all
  exact ⟨result, by rw [resolved]; rfl, inSource⟩

theorem decided_tail (tail : List (Token × Call)) (grammatical : tailGrammatical tail) :
    Decided source (tailTraced tail)
      (fun pairs => ∀ pair ∈ pairs, pair.2.span.source = source) (lowerTail source tail) := by
  match tail with
  | [] => exact .ok rfl (by simp)
  | (token, operand) :: rest =>
      obtain ⟨⟨op, kind⟩, first, others⟩ := grammatical
      rw [lowerTail, tailTraced, lowerOperator, kind]
      refine (operand.decided first).bind fun expr own => ?_
      refine (decided_tail rest others).andThen fun pairs all => ?_
      exact ⟨(op, expr) :: pairs, rfl, List.forall_mem_cons.mpr ⟨own, all⟩⟩

theorem Call.decided (call : Call) (grammatical : call.Grammatical) :
    Decided source call.traced (fun result => result.span.source = source)
      (call.lower source) := by
  match call with
  | ⟨member, none, span⟩ =>
      rw [Call.lower, Call.traced]
      exact member.decided grammatical.1
  | ⟨member, some ⟨opening, exprs, commas, closing, _⟩, span⟩ =>
      obtain ⟨first, ⟨-, inner, -, -, last, -⟩, -⟩ := grammatical
      rw [Call.lower, Call.traced]
      refine (member.decided first).bind fun callee own => ?_
      refine (decided_ownSpan (by simp [last])).bind fun close _ => ?_
      exact (decided_all exprs inner).andThen fun args _ => ⟨_, rfl, own⟩

theorem decided_all (exprs : List Expression) (grammatical : allGrammatical exprs) :
    Decided source (allTraced exprs) (fun _ => True) (lowerAll source exprs) := by
  match exprs with
  | [] => exact .ok rfl trivial
  | expr :: rest =>
      rw [lowerAll, allTraced]
      refine (expr.decided grammatical.1).bind fun first _ => ?_
      exact (decided_all rest grammatical.2).andThen fun others _ => ⟨_, rfl, trivial⟩

end

theorem LetDecl.decided (decl : LetDecl) (grammatical : decl.Grammatical) :
    Decided source (Clause.traced (.letDecl decl)) (fun _ => True) (decl.lower source) := by
  obtain ⟨keyword, mutable, name, equal, value, span⟩ := decl
  obtain ⟨first, -, named, -, inner, -⟩ := grammatical
  refine (decided_lowerIdent named).bind fun ident _ => ?_
  refine (value.decided inner).bind fun expr exprOwn => ?_
  refine (decided_ownSpan (by simp [first])).andThen fun begin beginOwn => ?_
  obtain ⟨hull, merged, -⟩ := Span.exists_merge beginOwn exprOwn
  exact ⟨_, by rw [merged]; rfl, trivial⟩

theorem Statement.decided (statement : Statement) (grammatical : statement.Grammatical) :
    Decided source statement.traced (fun _ => True) (statement.lower source) := by
  obtain ⟨clause, semi, span⟩ := statement
  obtain ⟨inner, -, -⟩ := grammatical
  cases clause with
  | letDecl decl => exact (decl.decided inner).map fun _ _ => trivial
  | expression expr => exact (expr.decided inner).map fun _ _ => trivial

theorem decided_statements (statements : List Statement)
    (grammatical : ∀ statement ∈ statements, statement.Grammatical) :
    Decided source (statements.flatMap Statement.traced) (fun _ => True)
      (statements.mapM (Statement.lower source)) := by
  induction statements with
  | nil => exact .ok rfl trivial
  | cons statement statements ih =>
      rw [List.forall_mem_cons] at grammatical
      rw [List.flatMap_cons, List.mapM_cons]
      refine (statement.decided grammatical.1).bind fun first _ => ?_
      exact (ih grammatical.2).andThen fun others _ => ⟨_, rfl, trivial⟩

theorem source_of_firstFault? {tokens : List Token} (sound : firstFault? source tokens = none) :
    ∀ token ∈ tokens, token.span.source = source := by
  intro token member
  exact source_of_fault?_eq_none (List.findSome?_eq_none_iff.mp sound token member)

theorem Program.lower_of_fault (program : Program)
    (grammatical : ∀ statement ∈ program.statements, statement.Grammatical)
    {fault : Located LowerError} (found : firstFault? source program.traced = some fault) :
    program.lower source = .error fault := by
  have decided : Decided source program.traced _ _ :=
    decided_statements program.statements grammatical
  rw [Program.lower]
  generalize program.statements.mapM (Statement.lower source) = result at decided
  cases decided with
  | ok sound => cases sound.symm.trans found
  | error first =>
      cases first.symm.trans found
      rfl

theorem Program.lower_of_sound (program : Program)
    (grammatical : ∀ statement ∈ program.statements, statement.Grammatical)
    (sound : firstFault? source program.traced = none) :
    if program.statements = [] then
      program.lower source = .error ⟨.emptyProgram, program.span⟩
    else
      ∃ lowered, program.lower source = .ok lowered := by
  have decided : Decided source program.traced _ _ :=
    decided_statements program.statements grammatical
  rw [Program.lower]
  generalize program.statements.mapM (Statement.lower source) = result at decided
  cases decided with
  | error first => cases sound.symm.trans first
  | ok =>
      split
      · next empty =>
          rw [empty]
          rfl
      · next nonempty =>
          have own := source_of_statements grammatical (source_of_firstFault? sound)
          obtain ⟨hull, merged⟩ := Span.exists_mergeAll (by simpa using nonempty) own
          exact ⟨_, by rw [merged]; rfl⟩

end

end ParseTree

end Pipewright
