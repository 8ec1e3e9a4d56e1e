import Pipewright.Proofs.Faults

set_option autoImplicit false

namespace Pipewright

open ParseTree

def Token.isTraced (token : Token) : Bool :=
  match token.kind with
  | .keyword .letWord | .ident | .integer | .punct .rparen => true
  | _ => false

namespace ParseTree

theorem Primary.Grammatical.isTraced {primary : Primary} (grammatical : primary.Grammatical) :
    primary.token.isTraced = true := by
  cases primary with
  | ident token =>
      have kind : token.kind = .ident := grammatical
      simp [Token.isTraced, Primary.token, kind]
  | integer token =>
      have kind : token.kind = .integer := grammatical
      simp [Token.isTraced, Primary.token, kind]

theorem Member.filter_isTraced_tokens {member : Member} (grammatical : member.Grammatical) :
    member.tokens.filter Token.isTraced = member.traced := by
  obtain ⟨primary, suffix, span⟩ := member
  obtain ⟨first, rest, -⟩ := grammatical
  have base := first.isTraced
  cases suffix with
  | none => exact List.filter_cons_of_pos base
  | some suffix =>
      obtain ⟨mark, name, -⟩ := rest suffix rfl
      have marked : ¬suffix.mark.isTraced = true := by
        cases access : suffix.access <;> simp [Token.isTraced, mark, Access.kind, access]
      have named : suffix.name.isTraced = true := by simp [Token.isTraced, name]
      change [primary.token, suffix.mark, suffix.name].filter Token.isTraced =
        [primary.token, suffix.name]
      rw [List.filter_cons_of_pos base, List.filter_cons_of_neg marked,
        List.filter_cons_of_pos named, List.filter_nil]

mutual

theorem Expression.traced_perm (expr : Expression) (grammatical : expr.Grammatical) :
    expr.traced.Perm (expr.tokens.filter Token.isTraced) := by
  match expr with
  | ⟨head, tail, span⟩ =>
      obtain ⟨first, rest, -⟩ := grammatical
      rw [Expression.traced, Expression.tokens, List.filter_append]
      exact (head.traced_perm first).append (tailTraced_perm tail rest)

theorem tailTraced_perm (tail : List (Token × Call)) (grammatical : tailGrammatical tail) :
    (tailTraced tail).Perm ((tailTokens tail).filter Token.isTraced) := by
  match tail with
  | [] => exact .nil
  | (token, operand) :: rest =>
      obtain ⟨⟨op, kind⟩, first, others⟩ := grammatical
      rw [tailTraced, tailTokens, List.filter_cons_of_neg (by simp [Token.isTraced, kind]),
        List.filter_append]
      exact (operand.traced_perm first).append (tailTraced_perm rest others)

theorem Call.traced_perm (call : Call) (grammatical : call.Grammatical) :
    call.traced.Perm (call.tokens.filter Token.isTraced) := by
  match call with
  | ⟨member, none, span⟩ =>
      rw [Call.traced, Call.tokens, Member.filter_isTraced_tokens grammatical.1]
  | ⟨member, some ⟨opening, exprs, commas, closing, _⟩, span⟩ =>
      obtain ⟨first, ⟨left, inner, marks, -, right, -⟩, -⟩ := grammatical
      have closes : closing.isTraced = true := by simp [Token.isTraced, right]
      have silent : ∀ comma ∈ commas, ¬comma.isTraced = true := by
        intro comma among
        simp [Token.isTraced, marks comma among]
      rw [Call.traced, Call.tokens, Arguments.tokens, List.filter_append,
        Member.filter_isTraced_tokens first,
        List.filter_cons_of_neg (by simp [Token.isTraced, left]),
        List.filter_append, List.filter_cons_of_pos closes, List.filter_nil]
      -- The closing parenthesis is looked at before the arguments.
      apply List.Perm.append_left
      have inside := allTraced_perm exprs commas inner silent
      exact (inside.cons closing).trans (List.perm_append_singleton closing _).symm

theorem allTraced_perm (exprs : List Expression) (commas : List Token)
    (grammatical : allGrammatical exprs) (silent : ∀ comma ∈ commas, ¬comma.isTraced = true) :
    (allTraced exprs).Perm ((separated exprs commas).filter Token.isTraced) := by
  match exprs, commas with
  | [], commas => rw [separated, List.filter_eq_nil_iff.mpr silent, allTraced]
  | expr :: rest, [] =>
      rw [allTraced, separated, List.filter_append]
      exact (expr.traced_perm grammatical.1).append (allTraced_perm rest [] grammatical.2 silent)
  | expr :: rest, comma :: commas =>
      rw [List.forall_mem_cons] at silent
      rw [allTraced, separated, List.filter_append, List.filter_cons_of_neg silent.1]
      exact (expr.traced_perm grammatical.1).append
        (allTraced_perm rest commas grammatical.2 silent.2)

end

theorem LetDecl.traced_perm {decl : LetDecl} (grammatical : decl.Grammatical) :
    (Clause.traced (.letDecl decl)).Perm (decl.tokens.filter Token.isTraced) := by
  obtain ⟨keyword, mutable, name, equal, value, span⟩ := decl
  obtain ⟨first, marks, named, assigns, inner, -⟩ := grammatical
  have silent : ∀ word ∈ mutable.toList, ¬word.isTraced = true := by
    intro word among
    simp [Token.isTraced, marks word (by simpa using among)]
  rw [Clause.traced, LetDecl.tokens, List.cons_append,
    List.filter_cons_of_pos (by simp [Token.isTraced, first]), List.filter_append,
    List.filter_eq_nil_iff.mpr silent, List.nil_append,
    List.filter_cons_of_pos (by simp [Token.isTraced, named]),
    List.filter_cons_of_neg (by simp [Token.isTraced, assigns])]
  -- The keyword is looked at behind the value.
  have inside := (value.traced_perm inner).append_right [keyword]
  have moved := inside.trans (List.perm_append_singleton keyword _)
  exact (moved.cons name).trans (.swap keyword name _)

theorem Statement.traced_perm {statement : Statement} (grammatical : statement.Grammatical) :
    statement.traced.Perm (statement.tokens.filter Token.isTraced) := by
  obtain ⟨clause, semi, span⟩ := statement
  obtain ⟨inner, ends, -⟩ := grammatical
  rw [Statement.traced, Statement.tokens, List.filter_append,
    List.filter_cons_of_neg (by simp [Token.isTraced, ends]), List.filter_nil, List.append_nil]
  cases clause with
  | expression expr => exact expr.traced_perm inner
  | letDecl decl => exact LetDecl.traced_perm inner

theorem Program.mem_traced_iff {tree : Program}
    (grammatical : ∀ statement ∈ tree.statements, statement.Grammatical) (token : Token) :
    token ∈ tree.traced ↔ token ∈ tree.tokens ∧ token.isTraced = true := by
  have each : ∀ statement ∈ tree.statements,
      (token ∈ statement.traced ↔ token ∈ statement.tokens ∧ token.isTraced = true) := by
    intro statement member
    rw [(Statement.traced_perm (grammatical statement member)).mem_iff, List.mem_filter]
  simp only [Program.traced, Program.tokens, List.mem_flatMap]
  constructor
  · rintro ⟨statement, member, traced⟩
    obtain ⟨inside, kind⟩ := (each statement member).mp traced
    exact ⟨⟨statement, member, inside⟩, kind⟩
  · rintro ⟨⟨statement, member, inside⟩, kind⟩
    exact ⟨statement, member, (each statement member).mpr ⟨inside, kind⟩⟩

end ParseTree

theorem Token.fault?_eq_none_iff {source : String} {token : Token} :
    token.fault? source = none ↔ token.span.source = source ∧
      (token.kind = .integer → (Text.readUInt64? token.text.toList).isSome = true) := by
  by_cases own : token.span.source = source
  · simp [Token.fault?, own, Option.isSome_iff_ne_none]
  · simp [Token.fault?, own]

theorem Token.conflict_of_fault? {source : String} {token : Token} {conflict : Span.Conflict}
    {span : Span} (found : token.fault? source = some ⟨.spanConflict conflict, span⟩) :
    token.span.source ≠ source ∧ conflict = ⟨.emptyAt source token.span.start, token.span⟩ ∧
      span = token.span := by
  by_cases own : token.span.source = source
  · simp [Token.fault?, own] at found
  · simp only [Token.fault?, ne_eq, own, not_false_eq_true, if_true] at found
    cases found
    exact ⟨own, rfl, rfl⟩

end Pipewright
