import Pipewright.Compilation
import Pipewright.Proofs.BareTrees
import Pipewright.Proofs.Faults

set_option autoImplicit false

namespace Pipewright

open ParseTree

def Ident.bare (name : Ident) : Ident :=
  { name with span := .nowhere }

def IntLiteral.bare (literal : IntLiteral) : IntLiteral :=
  { literal with span := .nowhere }

namespace Expr

mutual

def bare : Expr → Expr
  | .ident name => .ident name.bare
  | .integer literal => .integer literal.bare
  | .call callee args _ => .call callee.bare (bares args) .nowhere
  | .member access object property _ => .member access object.bare property.bare .nowhere
  | .binary op lhs rhs _ => .binary op lhs.bare rhs.bare .nowhere
  | .await expr _ => .await expr.bare .nowhere

def bares : List Expr → List Expr
  | [] => []
  | expr :: rest => expr.bare :: bares rest

end

@[simp] theorem bares_eq_map (exprs : List Expr) : bares exprs = exprs.map bare := by
  induction exprs with
  | nil => rfl
  | cons expr rest ih => simp [bares, ih]

@[simp] theorem span_bare (expr : Expr) : expr.bare.span = .nowhere := by
  cases expr <;> rfl

end Expr

def Declaration.bare (decl : Declaration) : Declaration :=
  ⟨decl.mutability, decl.name.bare, decl.value.bare, .nowhere⟩

def Stmt.bare : Stmt → Stmt
  | .declaration decl => .declaration decl.bare
  | .expression expr => .expression expr.bare

def Program.bare (program : Program) : Program :=
  ⟨program.statements.map Stmt.bare, .nowhere⟩

mutual

theorem Expr.toJavaScript_bare (expr : Expr) : expr.bare.toJavaScript = expr.toJavaScript := by
  match expr with
  | .ident name => rfl
  | .integer literal => rfl
  | .call callee args span =>
      simp only [Expr.bare, Expr.toJavaScript, callee.toJavaScript_bare, toJavaScripts_bares args]
  | .member access object property span =>
      simp only [Expr.bare, Expr.toJavaScript, object.toJavaScript_bare, Ident.bare]
  | .binary op lhs rhs span =>
      simp only [Expr.bare, Expr.toJavaScript, lhs.toJavaScript_bare, rhs.toJavaScript_bare]
  | .await inner span => simp only [Expr.bare, Expr.toJavaScript, inner.toJavaScript_bare]

theorem toJavaScripts_bares (exprs : List Expr) :
    Expr.toJavaScripts (Expr.bares exprs) = Expr.toJavaScripts exprs := by
  match exprs with
  | [] => rfl
  | expr :: rest =>
      rw [Expr.bares, Expr.toJavaScripts, Expr.toJavaScripts, expr.toJavaScript_bare,
        toJavaScripts_bares rest]

end

theorem Program.toJavaScript_bare (program : Program) :
    program.bare.toJavaScript = program.toJavaScript := by
  have each : ∀ stmt : Stmt, stmt.bare.toJavaScript = stmt.toJavaScript := by
    intro stmt
    cases stmt <;> simp [Stmt.bare, Declaration.bare, Stmt.toJavaScript, Expr.toJavaScript_bare,
      Ident.bare]
  simp [Program.bare, Program.toJavaScript, Function.comp_def, each]

theorem Operator.Joins.bare {op : Operator} {lhs rhs expr : Expr} (joins : op.Joins lhs rhs expr) :
    op.Joins lhs.bare rhs.bare expr.bare := by
  have merged : lhs.bare.span.merge rhs.bare.span = .ok .nowhere := by
    rw [Expr.span_bare, Expr.span_bare]
    rfl
  cases joins with
  | pipe => exact .pipe merged
  | awaitPipe => exact .awaitPipe merged
  | binary notPipe notAwaitPipe => exact .binary notPipe notAwaitPipe merged

namespace OperatorTree

def bare : OperatorTree → OperatorTree
  | .leaf expr => .leaf expr.bare
  | .node op left right => .node op left.bare right.bare

theorem Denotes.bare {tree : OperatorTree} {expr : Expr} (denotes : tree.Denotes expr) :
    tree.bare.Denotes expr.bare := by
  induction denotes with
  | leaf expr => exact .leaf expr.bare
  | node _ _ joins left right => exact .node left right joins.bare

theorem bare_insert (tree : OperatorTree) (op : Operator) (operand : Expr) :
    (tree.insert op operand).bare = tree.bare.insert op operand.bare := by
  induction tree with
  | leaf expr => rfl
  | node root left right _ ih =>
      by_cases tighter : root.precedence < op.precedence <;>
        simp [OperatorTree.insert, OperatorTree.bare, tighter, ih]

end OperatorTree

def barePairs (pairs : List (Operator × Expr)) : List (Operator × Expr) :=
  pairs.map fun pair => (pair.1, pair.2.bare)

theorem OperatorTree.bare_foldl (tree : OperatorTree) (pairs : List (Operator × Expr)) :
    (pairs.foldl (fun tree (op, operand) => tree.insert op operand) tree).bare =
      (barePairs pairs).foldl (fun tree (op, operand) => tree.insert op operand) tree.bare := by
  induction pairs generalizing tree with
  | nil => rfl
  | cons pair pairs ih =>
      rw [List.foldl_cons, ih, bare_insert]
      rfl

theorem OperatorTree.bare_ofChain (head : Expr) (pairs : List (Operator × Expr)) :
    (ofChain head pairs).bare = ofChain head.bare (barePairs pairs) :=
  bare_foldl (.leaf head) pairs

theorem resolve_bare {head expr : Expr} {pairs : List (Operator × Expr)}
    (resolved : resolve head pairs = .ok expr) :
    resolve head.bare (barePairs pairs) = .ok expr.bare := by
  rw [resolve_eq_ok_iff, ← OperatorTree.bare_ofChain]
  exact (resolve_eq_ok_iff.mp resolved).bare

def Lowered.strip {α : Type} (bare : α → α) : Lowered α → Lowered α
  | .ok value => .ok (bare value)
  | .error fault => .error ⟨fault.error, .nowhere⟩

theorem Lowered.strip_bind {α β : Type} {bare : α → α} {bare' : β → β} {first : Lowered α}
    {next next' : α → Lowered β}
    (later : ∀ value, first = .ok value → (next value).strip bare' = next' (bare value)) :
    (first >>= next).strip bare' = first.strip bare >>= next' := by
  cases first with
  | error fault => rfl
  | ok value => exact later value rfl

theorem Lowered.strip_eq_ok_iff {α : Type} {bare : α → α} {result : Lowered α} {value : α} :
    result.strip bare = .ok value ↔ ∃ found, result = .ok found ∧ bare found = value := by
  cases result <;> simp [Lowered.strip]

theorem Lowered.strip_map {α β : Type} {bare : α → α} {bare' : β → β} {f g : α → β}
    (commutes : ∀ value, bare' (f value) = g (bare value)) (result : Lowered α) :
    (f <$> result).strip bare' = g <$> result.strip bare := by
  cases result with
  | error fault => rfl
  | ok value => exact congrArg Except.ok (commutes value)

theorem Span.mergeAll_nowhere {spans : List Span} (nonempty : spans ≠ [])
    (all : ∀ span ∈ spans, span = .nowhere) : mergeAll spans = .ok (some .nowhere) := by
  cases spans with
  | nil => cases nonempty rfl
  | cons first rest =>
      rw [List.forall_mem_cons] at all
      obtain ⟨rfl, others⟩ := all
      clear nonempty
      have folded : rest.foldlM Span.merge .nowhere = .ok .nowhere := by
        induction rest with
        | nil => rfl
        | cons span rest ih =>
            rw [List.forall_mem_cons] at others
            rw [others.1]
            exact ih others.2
      rw [mergeAll, folded]
      rfl

theorem Decided.good_of_ok {α : Type} {source : String} {tokens : List Token} {good : α → Prop}
    {result : Lowered α} (decided : Decided source tokens good result) {value : α}
    (ended : result = .ok value) : good value := by
  cases decided with
  | error => cases ended
  | ok _ fits =>
      cases ended
      exact fits

namespace ParseTree

variable {source : String}

theorem ownSpan_bare {token : Token} (own : token.span.source = source) :
    ownSpan "" token.bare = (ownSpan source token).strip fun _ => .nowhere := by
  rw [ownSpan, ownSpan, if_pos own]
  rfl

theorem lowerIdent_bare {token : Token} (own : token.span.source = source) :
    lowerIdent "" token.bare = (lowerIdent source token).strip Ident.bare := by
  rw [lowerIdent, lowerIdent, ownSpan_bare own]
  symm
  apply Lowered.strip_map
  exact fun _ => rfl

theorem lowerInteger_bare {token : Token} (own : token.span.source = source) :
    lowerInteger "" token.bare = (lowerInteger source token).strip IntLiteral.bare := by
  rw [lowerInteger, lowerInteger, ownSpan_bare own]
  symm
  apply Lowered.strip_bind
  intro span _
  simp only [Token.bare]
  cases Text.readUInt64? token.text.toList <;> rfl

theorem Primary.lower_bare (primary : Primary) (own : primary.token.span.source = source) :
    primary.bare.lower "" = (primary.lower source).strip Expr.bare := by
  cases primary with
  | ident token =>
      have named : token.span.source = source := own
      rw [Primary.bare, Primary.lower, Primary.lower, lowerIdent_bare named]
      symm
      apply Lowered.strip_map
      exact fun _ => rfl
  | integer token =>
      have read : token.span.source = source := own
      rw [Primary.bare, Primary.lower, Primary.lower, lowerInteger_bare read]
      symm
      apply Lowered.strip_map
      exact fun _ => rfl

theorem Member.lower_bare (member : Member) (grammatical : member.Grammatical)
    (own : ∀ token ∈ member.traced, token.span.source = source) :
    member.bare.lower "" = (member.lower source).strip Expr.bare := by
  obtain ⟨primary, suffix, span⟩ := member
  obtain ⟨first, rest, -⟩ := grammatical
  have object := primary.lower_bare (own primary.token (by simp [Member.traced]))
  rw [Member.lower, Member.lower]
  simp only [Member.bare, object]
  symm
  apply Lowered.strip_bind
  intro lowered fits
  cases suffix with
  | none => rfl
  | some suffix =>
      have named : suffix.name.span.source = source := own suffix.name (by simp [Member.traced])
      have objectOwn := (primary.decided first).good_of_ok fits
      have kind : suffix.name.kind = .ident := (rest suffix rfl).2.1
      simp only [Option.map_some, Suffix.bare, lowerIdent_bare named]
      apply Lowered.strip_bind
      intro property found
      have propertyOwn := (decided_lowerIdent kind).good_of_ok found
      obtain ⟨hull, merged, -⟩ := Span.exists_merge objectOwn propertyOwn
      rw [merged, Expr.span_bare]
      rfl

mutual

theorem Expression.lower_bare (expr : Expression) (grammatical : expr.Grammatical)
    (own : ∀ token ∈ expr.traced, token.span.source = source) :
    expr.bare.lower "" = (expr.lower source).strip Expr.bare := by
  match expr with
  | ⟨head, tail, span⟩ =>
      obtain ⟨first, rest, -⟩ := grammatical
      rw [Expression.traced, List.forall_mem_append] at own
      rw [Expression.bare, Expression.lower, Expression.lower, head.lower_bare first own.1]
      symm
      apply Lowered.strip_bind
      intro operand found
      rw [lowerTail_bare tail rest own.2]
      apply Lowered.strip_bind
      intro pairs all
      have operandOwn := (head.decided first).good_of_ok found
      have pairsOwn := (decided_tail tail rest).good_of_ok all
      obtain ⟨result, resolved, -⟩ := exists_resolve operandOwn pairsOwn
      rw [resolved, resolve_bare resolved]
      rfl

theorem lowerTail_bare (tail : List (Token × Call)) (grammatical : tailGrammatical tail)
    (own : ∀ token ∈ tailTraced tail, token.span.source = source) :
    lowerTail "" (bareTail tail) = (lowerTail source tail).strip barePairs := by
  match tail with
  | [] => rfl
  | (token, operand) :: rest =>
      obtain ⟨⟨op, kind⟩, first, others⟩ := grammatical
      rw [tailTraced, List.forall_mem_append] at own
      rw [bareTail, lowerTail, lowerTail, lowerOperator, lowerOperator, Token.kind_bare, kind,
        operand.lower_bare first own.1, lowerTail_bare rest others own.2]
      symm
      apply Lowered.strip_bind
      intro op _
      apply Lowered.strip_bind
      intro expr _
      apply Lowered.strip_bind
      intro pairs _
      rfl

theorem Call.lower_bare (call : Call) (grammatical : call.Grammatical)
    (own : ∀ token ∈ call.traced, token.span.source = source) :
    call.bare.lower "" = (call.lower source).strip Expr.bare := by
  match call with
  | ⟨member, none, span⟩ =>
      rw [Call.traced] at own
      rw [Call.bare, Call.lower, Call.lower]
      exact member.lower_bare grammatical.1 own
  | ⟨member, some ⟨opening, exprs, commas, closing, _⟩, span⟩ =>
      obtain ⟨first, ⟨-, inner, -, -, last, -⟩, -⟩ := grammatical
      rw [Call.traced, List.forall_mem_append, List.forall_mem_cons] at own
      rw [Call.bare, Arguments.bare, Call.lower, Call.lower, member.lower_bare first own.1,
        ownSpan_bare own.2.1, lowerAll_bare exprs inner own.2.2]
      symm
      apply Lowered.strip_bind
      intro callee _
      apply Lowered.strip_bind
      intro close _
      apply Lowered.strip_bind
      intro args _
      simp [Lowered.strip, Expr.bare]

theorem lowerAll_bare (exprs : List Expression) (grammatical : allGrammatical exprs)
    (own : ∀ token ∈ allTraced exprs, token.span.source = source) :
    lowerAll "" (bareAll exprs) = (lowerAll source exprs).strip (List.map Expr.bare) := by
  match exprs with
  | [] => rfl
  | expr :: rest =>
      rw [allTraced, List.forall_mem_append] at own
      rw [bareAll, lowerAll, lowerAll, expr.lower_bare grammatical.1 own.1,
        lowerAll_bare rest grammatical.2 own.2]
      symm
      apply Lowered.strip_bind
      intro first _
      apply Lowered.strip_bind
      intro others _
      rfl

end

theorem LetDecl.lower_bare (decl : LetDecl) (grammatical : decl.Grammatical)
    (own : ∀ token ∈ Clause.traced (.letDecl decl), token.span.source = source) :
    decl.bare.lower "" = (decl.lower source).strip Declaration.bare := by
  obtain ⟨keyword, mutable, name, equal, value, span⟩ := decl
  obtain ⟨-, -, -, -, inner, -⟩ := grammatical
  simp only [Clause.traced, List.forall_mem_cons, List.forall_mem_append] at own
  obtain ⟨nameOwn, valueOwn, keywordOwn, -⟩ := own
  simp only [LetDecl.bare, LetDecl.lower, lowerIdent_bare nameOwn, value.lower_bare inner valueOwn,
    ownSpan_bare keywordOwn, Option.isSome_map]
  symm
  apply Lowered.strip_bind
  intro ident _
  apply Lowered.strip_bind
  intro expr found
  rw [ownSpan, if_pos keywordOwn]
  have exprOwn := (value.decided inner).good_of_ok found
  obtain ⟨hull, merged, -⟩ := Span.exists_merge keywordOwn exprOwn
  change Lowered.strip _ (Lowered.ofMerge (keyword.span.merge expr.span) >>= _) = _
  rw [merged, Expr.span_bare]
  rfl

theorem Statement.lower_bare (statement : Statement) (grammatical : statement.Grammatical)
    (own : ∀ token ∈ statement.traced, token.span.source = source) :
    statement.bare.lower "" = (statement.lower source).strip Stmt.bare := by
  obtain ⟨clause, semi, span⟩ := statement
  obtain ⟨inner, -, -⟩ := grammatical
  cases clause with
  | letDecl decl =>
      simp only [Statement.bare, Clause.bare, Statement.lower, decl.lower_bare inner own]
      symm
      apply Lowered.strip_map
      exact fun _ => rfl
  | expression expr =>
      simp only [Statement.bare, Clause.bare, Statement.lower, expr.lower_bare inner own]
      symm
      apply Lowered.strip_map
      exact fun _ => rfl

theorem lower_statements_bare (statements : List Statement)
    (grammatical : ∀ statement ∈ statements, statement.Grammatical)
    (own : ∀ token ∈ statements.flatMap Statement.traced, token.span.source = source) :
    (statements.map Statement.bare).mapM (Statement.lower "") =
      (statements.mapM (Statement.lower source)).strip (List.map Stmt.bare) := by
  induction statements with
  | nil => rfl
  | cons statement statements ih =>
      rw [List.forall_mem_cons] at grammatical
      rw [List.flatMap_cons, List.forall_mem_append] at own
      rw [List.map_cons, List.mapM_cons, List.mapM_cons,
        statement.lower_bare grammatical.1 own.1, ih grammatical.2 own.2]
      symm
      apply Lowered.strip_bind
      intro first _
      apply Lowered.strip_bind
      intro others _
      rfl

theorem Program.lower_bare (program : Program)
    (grammatical : ∀ statement ∈ program.statements, statement.Grammatical)
    (own : ∀ token ∈ program.traced, token.span.source = source) :
    program.bare.lower "" = (program.lower source).strip Pipewright.Program.bare := by
  have bareSpans : ∀ span ∈ program.bare.statements.map Statement.span, span = .nowhere := by
    simp [Program.bare, Statement.bare]
  have stripped : program.bare.statements.mapM (Statement.lower "") = _ :=
    lower_statements_bare program.statements grammatical own
  rw [Program.lower, Program.lower, stripped]
  symm
  apply Lowered.strip_bind
  intro statements _
  by_cases empty : program.statements = []
  · simp only [Program.bare, empty]
    rfl
  · have spans := source_of_statements grammatical own
    obtain ⟨hull, merged⟩ := Span.exists_mergeAll (by simpa using empty) spans
    rw [merged, Span.mergeAll_nowhere (by simpa [Program.bare] using empty) bareSpans]
    rfl

end ParseTree

end Pipewright
