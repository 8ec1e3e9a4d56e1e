import Pipewright.Proofs.LoweredTrees
import Pipewright.Proofs.Parsing
import Pipewright.Proofs.TracedTokens
import Pipewright.Proofs.TreeNodes

set_option autoImplicit false

namespace Pipewright

open ParseTree

mutual

def Expr.spans : Expr → List Span
  | .ident name => [name.span]
  | .integer literal => [literal.span]
  | .call callee args span => span :: (callee.spans ++ allSpans args)
  | .member _ object property span => span :: (object.spans ++ [property.span])
  | .binary _ lhs rhs span => span :: (lhs.spans ++ rhs.spans)
  | .await expr span => span :: expr.spans

def allSpans : List Expr → List Span
  | [] => []
  | expr :: rest => expr.spans ++ allSpans rest

end

def Stmt.spans : Stmt → List Span
  | .declaration decl => decl.span :: decl.name.span :: decl.value.spans
  | .expression expr => expr.spans

def Program.spans (program : Program) : List Span :=
  program.span :: program.statements.flatMap Stmt.spans

def Expr.Owned (source : String) (expr : Expr) : Prop :=
  ∀ span ∈ expr.spans, span.source = source

variable {source : String}

theorem Expr.Owned.span {expr : Expr} (owned : expr.Owned source) : expr.span.source = source := by
  apply owned
  cases expr <;> simp [Expr.spans, Expr.span]

theorem Expr.owned_call {callee : Expr} {args : List Expr} {span : Span}
    (own : span.source = source) (first : callee.Owned source)
    (rest : ∀ inner ∈ allSpans args, inner.source = source) :
    (Expr.call callee args span).Owned source :=
  List.forall_mem_cons.mpr ⟨own, List.forall_mem_append.mpr ⟨first, rest⟩⟩

theorem Operator.Joins.owned {op : Operator} {lhs rhs expr : Expr} (joins : op.Joins lhs rhs expr)
    (left : lhs.Owned source) (right : rhs.Owned source) : expr.Owned source := by
  have own := (Span.merge_eq_ok joins.merge).2.1.trans left.span
  have piped : ∀ inner ∈ allSpans [lhs], inner.source = source := by
    simpa [allSpans, Expr.Owned] using left
  cases joins with
  | pipe merged => exact Expr.owned_call own right piped
  | awaitPipe merged => exact List.forall_mem_cons.mpr ⟨own, Expr.owned_call own right piped⟩
  | binary _ _ merged =>
      exact List.forall_mem_cons.mpr ⟨own, List.forall_mem_append.mpr ⟨left, right⟩⟩

theorem OperatorTree.Denotes.owned {tree : OperatorTree} {expr : Expr} (denotes : tree.Denotes expr)
    (all : ∀ operand ∈ tree.operands, operand.Owned source) : expr.Owned source := by
  induction denotes with
  | leaf expr => exact all expr (by simp)
  | node _ _ joins left right =>
      rw [operands_node, List.forall_mem_append] at all
      exact joins.owned (left all.1) (right all.2)

namespace ParseTree

theorem Primary.owned {primary : Primary} {expr : Expr}
    (lowered : primary.lower source = .ok expr) : expr.Owned source := by
  cases primary with
  | ident token =>
      rw [Primary.lower, Lowered.map_eq_ok_iff] at lowered
      obtain ⟨name, found, rfl⟩ := lowered
      obtain ⟨own, rfl⟩ := lowerIdent_eq_ok_iff.mp found
      simpa [Expr.Owned, Expr.spans] using own
  | integer token =>
      rw [Primary.lower, Lowered.map_eq_ok_iff] at lowered
      obtain ⟨literal, found, rfl⟩ := lowered
      obtain ⟨own, value, -, rfl⟩ := lowerInteger_eq_ok_iff.mp found
      simpa [Expr.Owned, Expr.spans] using own

theorem Member.owned {member : Member} {expr : Expr} (lowered : member.lower source = .ok expr) :
    expr.Owned source := by
  obtain ⟨primary, suffix, span⟩ := member
  obtain ⟨object, first, rest⟩ := Member.lower_eq_ok_iff.mp lowered
  have objectOwned := Primary.owned first
  cases suffix with
  | none =>
      obtain rfl := rest
      exact objectOwned
  | some suffix =>
      obtain ⟨property, hull, found, merged, rfl⟩ := rest
      obtain ⟨own, rfl⟩ := lowerIdent_eq_ok_iff.mp found
      have inSource := (Span.merge_eq_ok merged).2.1.trans objectOwned.span
      refine List.forall_mem_cons.mpr ⟨inSource, List.forall_mem_append.mpr ⟨objectOwned, ?_⟩⟩
      simpa using own

mutual

theorem Expression.owned (expr : Expression) {result : Expr}
    (lowered : expr.lower source = .ok result) : result.Owned source := by
  match expr with
  | ⟨head, tail, span⟩ =>
      obtain ⟨first, pairs, begins, rest, denotes⟩ := Expression.lower_eq_ok_iff.mp lowered
      apply denotes.owned
      rw [OperatorTree.operands_ofChain, List.forall_mem_cons, List.forall_mem_map]
      exact ⟨head.owned begins, owned_tail tail rest⟩

theorem owned_tail (tail : List (Token × Call)) {pairs : List (Operator × Expr)}
    (lowered : lowerTail source tail = .ok pairs) : ∀ pair ∈ pairs, pair.2.Owned source := by
  match tail with
  | [] =>
      cases lowered
      simp
  | (token, operand) :: rest =>
      obtain ⟨op, expr, others, -, first, later, rfl⟩ := lowerTail_cons_eq_ok_iff.mp lowered
      exact List.forall_mem_cons.mpr ⟨operand.owned first, owned_tail rest later⟩

theorem Call.owned (call : Call) {result : Expr} (lowered : call.lower source = .ok result) :
    result.Owned source := by
  match call with
  | ⟨member, none, span⟩ =>
      rw [Call.lower] at lowered
      exact Member.owned lowered
  | ⟨member, some ⟨opening, exprs, commas, closing, _⟩, span⟩ =>
      obtain ⟨callee, args, first, -, all, rfl⟩ := Call.lower_some_eq_ok_iff.mp lowered
      have calleeOwned := Member.owned first
      exact Expr.owned_call calleeOwned.span calleeOwned (owned_all exprs all)

theorem owned_all (exprs : List Expression) {args : List Expr}
    (lowered : lowerAll source exprs = .ok args) :
    ∀ span ∈ allSpans args, span.source = source := by
  match exprs with
  | [] =>
      cases lowered
      simp [allSpans]
  | expr :: rest =>
      obtain ⟨first, others, begins, later, rfl⟩ := lowerAll_cons_eq_ok_iff.mp lowered
      exact List.forall_mem_append.mpr ⟨expr.owned begins, owned_all rest later⟩

end

theorem Statement.owned {statement : Statement} {stmt : Stmt}
    (lowered : statement.lower source = .ok stmt) : ∀ span ∈ stmt.spans, span.source = source := by
  obtain ⟨clause, semi, span⟩ := statement
  cases clause with
  | expression expr =>
      obtain ⟨result, found, rfl⟩ := Lowered.map_eq_ok_iff.mp lowered
      exact expr.owned found
  | letDecl decl =>
      obtain ⟨result, found, rfl⟩ := Lowered.map_eq_ok_iff.mp lowered
      obtain ⟨name, value, hull, named, valued, own, merged, rfl⟩ :=
        LetDecl.lower_eq_ok_iff.mp found
      obtain ⟨nameOwn, rfl⟩ := lowerIdent_eq_ok_iff.mp named
      have inSource := (Span.merge_eq_ok merged).2.1.trans own
      exact List.forall_mem_cons.mpr
        ⟨inSource, List.forall_mem_cons.mpr ⟨nameOwn, decl.value.owned valued⟩⟩

theorem source_of_mapM_lower {tree : Program} {stmts : List Stmt}
    (grammatical : ∀ statement ∈ tree.statements, statement.Grammatical)
    (lowered : tree.statements.mapM (Statement.lower source) = .ok stmts) :
    ∀ span ∈ tree.statements.map Statement.span, span.source = source := by
  have sound : firstFault? source tree.traced = none :=
    (decided_statements tree.statements grammatical).firstFault?_eq_none lowered
  exact Program.source_of_statements grammatical (source_of_firstFault? sound)

theorem Program.owned {tree : Program} {program : Pipewright.Program}
    (grammatical : ∀ statement ∈ tree.statements, statement.Grammatical)
    (lowered : tree.lower source = .ok program) :
    ∀ span ∈ program.spans, span.source = source := by
  obtain ⟨mapped, merged⟩ := Program.lower_eq_ok_iff.mp lowered
  refine List.forall_mem_cons.mpr ⟨?_, ?_⟩
  · -- The span of the program is joined from spans of the tree, which were never looked at.
    have own := source_of_mapM_lower grammatical mapped
    have hull := Span.contains_of_mergeAll merged
    obtain ⟨first, member⟩ : ∃ first, first ∈ tree.statements.map Statement.span := by
      apply List.exists_mem_of_ne_nil
      intro empty
      rw [empty] at merged
      cases merged
    exact (Span.contains_iff.mp (hull first member)).1.trans (own first member)
  · intro span member
    obtain ⟨stmt, inside, here⟩ := List.mem_flatMap.mp member
    obtain ⟨statement, -, found⟩ := exists_of_mem_mapM mapped stmt inside
    exact Statement.owned found span here

def Node.Joins (source : String) : Node → Prop
  | .member ⟨primary, some part, _⟩ => ∀ object property,
      primary.lower source = .ok object → lowerIdent source part.name = .ok property →
        ∃ hull, object.span.merge property.span = .ok hull
  | .expression ⟨head, tail, _⟩ => ∀ first pairs,
      head.lower source = .ok first → lowerTail source tail = .ok pairs →
        ∃ expr, resolve first pairs = .ok expr
  | .clause (.letDecl decl) => ∀ value keyword,
      decl.value.lower source = .ok value → ownSpan source decl.keyword = .ok keyword →
        ∃ hull, keyword.merge value.span = .ok hull
  | .program tree => ∀ stmts, tree.statements.mapM (Statement.lower source) = .ok stmts →
      ∃ hull, Span.mergeAll (tree.statements.map Statement.span) = .ok hull
  | _ => True

theorem Program.exists_mergeAll {tree : Program} {stmts : List Stmt}
    (grammatical : ∀ statement ∈ tree.statements, statement.Grammatical)
    (lowered : tree.statements.mapM (Statement.lower source) = .ok stmts) :
    ∃ hull, Span.mergeAll (tree.statements.map Statement.span) = .ok hull := by
  by_cases empty : tree.statements = []
  · exact ⟨none, by rw [empty]; rfl⟩
  · have own := source_of_mapM_lower grammatical lowered
    obtain ⟨hull, merged⟩ := Span.exists_mergeAll (by simpa using empty) own
    exact ⟨some hull, merged⟩

theorem Node.Grammatical.joins {node : Node} (grammatical : node.Grammatical) :
    node.Joins source := by
  match node with
  | .member ⟨primary, some part, _⟩ =>
      intro object property first last
      obtain ⟨own, rfl⟩ := lowerIdent_eq_ok_iff.mp last
      obtain ⟨hull, merged, -⟩ := Span.exists_merge (Primary.owned first).span own
      exact ⟨hull, merged⟩
  | .expression ⟨head, tail, _⟩ =>
      intro first pairs begins rest
      have operands := owned_tail tail rest
      obtain ⟨expr, resolved, -⟩ := exists_resolve (head.owned begins).span
        fun pair member => (operands pair member).span
      exact ⟨expr, resolved⟩
  | .clause (.letDecl decl) =>
      intro value keyword valued found
      obtain ⟨own, rfl⟩ := ownSpan_eq_ok_iff.mp found
      obtain ⟨hull, merged, -⟩ := Span.exists_merge own (decl.value.owned valued).span
      exact ⟨hull, merged⟩
  | .program tree =>
      intro stmts lowered
      exact Program.exists_mergeAll grammatical.1 lowered
  | .token _ | .suffix _ | .member ⟨_, none, _⟩ | .arguments _ | .call _
  | .clause (.expression _) | .statement _ => trivial

theorem joins_parse (row : List Token) {node : Node}
    (within : node.Within (.program (parse row).program)) : node.Joins source := by
  by_cases empty : (parse row).program.statements = []
  · -- There is no node but the program itself.
    cases within with
    | refl =>
        intro stmts lowered
        exact Program.exists_mergeAll (by simp [empty]) lowered
    | child member => simp [Node.children, empty] at member
  · have whole : Node.Grammatical (.program (parse row).program) := grammatical_parse empty
    exact (whole.within within).joins

theorem Program.lower_cases (source : String) {tree : Program}
    (grammatical : ∀ statement ∈ tree.statements, statement.Grammatical) :
    (∃ token ∈ tree.tokens, token.isTraced = true ∧
        ∃ fault, token.fault? source = some fault ∧ tree.lower source = .error fault) ∨
      (∀ token ∈ tree.tokens, token.isTraced = true → token.fault? source = none) ∧
        ((tree.statements = [] ∧ tree.lower source = .error ⟨.emptyProgram, tree.span⟩) ∨
          (tree.statements ≠ [] ∧ ∃ program, tree.lower source = .ok program)) := by
  have traced := Program.mem_traced_iff grammatical
  cases found : firstFault? source tree.traced with
  | some fault =>
      have lowered := tree.lower_of_fault grammatical found
      obtain ⟨token, member, here⟩ := List.exists_of_findSome?_eq_some found
      rw [traced] at member
      exact .inl ⟨token, member.1, member.2, fault, here, lowered⟩
  | none =>
      have lowered := tree.lower_of_sound grammatical found
      have sound := List.findSome?_eq_none_iff.mp found
      refine .inr ⟨fun token member kind => sound token ((traced token).mpr ⟨member, kind⟩), ?_⟩
      by_cases empty : tree.statements = []
      · rw [if_pos empty] at lowered
        exact .inl ⟨empty, lowered⟩
      · rw [if_neg empty] at lowered
        exact .inr ⟨empty, lowered⟩

theorem Program.exists_lower_iff {tree : Program}
    (grammatical : ∀ statement ∈ tree.statements, statement.Grammatical) :
    (∃ program, tree.lower source = .ok program) ↔ tree.statements ≠ [] ∧
      ∀ token ∈ tree.tokens, token.isTraced = true → token.fault? source = none := by
  obtain ⟨token, member, traced, fault, found, fails⟩ | ⟨sound, outcome⟩ :=
    Program.lower_cases source grammatical
  · refine iff_of_false (by simp [fails]) ?_
    rintro ⟨-, sound⟩
    cases found.symm.trans (sound token member traced)
  · obtain ⟨empty, fails⟩ | ⟨nonempty, lowers⟩ := outcome
    · simp [empty, fails]
    · exact iff_of_true lowers ⟨nonempty, sound⟩

theorem Program.fault_of_lower {tree : Program} {fault : Located LowerError}
    (grammatical : ∀ statement ∈ tree.statements, statement.Grammatical)
    (failed : tree.lower source = .error fault) :
    fault = ⟨.emptyProgram, tree.span⟩ ∨
      ∃ token ∈ tree.tokens, token.isTraced = true ∧ token.fault? source = some fault := by
  obtain ⟨token, member, traced, first, found, fails⟩ | ⟨-, outcome⟩ :=
    Program.lower_cases source grammatical
  · cases failed.symm.trans fails
    exact .inr ⟨token, member, traced, found⟩
  · obtain ⟨-, fails⟩ | ⟨-, program, lowers⟩ := outcome
    · cases failed.symm.trans fails
      exact .inl rfl
    · cases failed.symm.trans lowers

end ParseTree

/-- Lowering what was read from any row of tokens. It fails only if there is no statement, or for
one of the tokens that leave a trace: an integer that does not fit, or a token of another text. -/
theorem lower_parse (source : String) (row : List Token) :
    (∀ fault token, (parse row).program.lower source = .error fault →
      fault.error ≠ .notOperator token) ∧
    ((∃ program, (parse row).program.lower source = .ok program) ↔
      (parse row).program.statements ≠ [] ∧
        ∀ token ∈ (parse row).program.tokens, token.isTraced = true →
          token.span.source = source ∧
            (token.kind = .integer → (Text.readUInt64? token.text.toList).isSome = true)) ∧
    (∀ program, (parse row).program.lower source = .ok program →
      ∀ span ∈ program.spans, span.source = source) ∧
    (∀ conflict span, (parse row).program.lower source = .error ⟨.spanConflict conflict, span⟩ →
      ∃ token ∈ (parse row).program.tokens, token.isTraced = true ∧ token.span.source ≠ source ∧
        conflict = ⟨.emptyAt source token.span.start, token.span⟩ ∧ span = token.span) ∧
    ∀ node : Node, node.Within (.program (parse row).program) → node.Joins source := by
  have grammatical := grammatical_of_mem_parse row
  refine ⟨?_, ?_, ?_, ?_, ?_⟩
  · intro fault token fails
    obtain rfl | ⟨other, -, -, found⟩ := Program.fault_of_lower grammatical fails
    · simp
    · exact ne_notOperator_of_fault? found
  · simpa only [Token.fault?_eq_none_iff] using Program.exists_lower_iff grammatical
  · intro program lowered
    exact Program.owned grammatical lowered
  · intro conflict span fails
    obtain empty | ⟨token, member, traced, found⟩ := Program.fault_of_lower grammatical fails
    · cases empty
    · exact ⟨token, member, traced, Token.conflict_of_fault? found⟩
  · intro node within
    exact joins_parse row within

end Pipewright
