import Pipewright.Program.Lowering
import Pipewright.Proofs.Hulls

set_option autoImplicit false

namespace Pipewright

variable {source : String}

theorem Lowered.ofMerge_eq_ok_iff {α : Type} {merged : Except Span.Conflict α} {value : α} :
    Lowered.ofMerge merged = .ok value ↔ merged = .ok value := by
  cases merged with
  | error conflict => exact ⟨nofun, nofun⟩
  | ok joined =>
      change Except.ok joined = .ok value ↔ Except.ok joined = .ok value
      simp only [Except.ok.injEq]

theorem Lowered.map_eq_ok_iff {α β : Type} {f : α → β} {result : Lowered α} {value : β} :
    f <$> result = .ok value ↔ ∃ first, result = .ok first ∧ f first = value := by
  cases result <;> simp [Functor.map, Except.map]

theorem mapM_cons_eq_ok_iff {ε α β : Type} {f : α → Except ε β} {x : α} {xs : List α}
    {ys : List β} :
    (x :: xs).mapM f = .ok ys ↔
      ∃ first others, f x = .ok first ∧ xs.mapM f = .ok others ∧ first :: others = ys := by
  simp only [List.mapM_cons, bind_eq_ok_iff, pure, Except.pure, Except.ok.injEq, exists_and_left]

theorem exists_of_mem_mapM {ε α β : Type} {f : α → Except ε β} {xs : List α} {ys : List β}
    (mapped : xs.mapM f = .ok ys) : ∀ y ∈ ys, ∃ x ∈ xs, f x = .ok y := by
  induction xs generalizing ys with
  | nil =>
      cases mapped
      simp
  | cons x xs ih =>
      obtain ⟨first, others, here, later, rfl⟩ := mapM_cons_eq_ok_iff.mp mapped
      rw [List.forall_mem_cons]
      refine ⟨⟨x, List.mem_cons_self, here⟩, ?_⟩
      intro y member
      obtain ⟨x', inside, found⟩ := ih later y member
      exact ⟨x', List.mem_cons_of_mem _ inside, found⟩

theorem mapM_eq_error {ε α β : Type} {f : α → Except ε β} {front back : List α} {x : α} {fault : ε}
    (earlier : ∀ y ∈ front, ∃ value, f y = .ok value) (fails : f x = .error fault) :
    (front ++ x :: back).mapM f = .error fault := by
  induction front with
  | nil =>
      rw [List.nil_append, List.mapM_cons, fails]
      rfl
  | cons y front ih =>
      obtain ⟨⟨value, first⟩, others⟩ := List.forall_mem_cons.mp earlier
      rw [List.cons_append, List.mapM_cons, first, ih others]
      rfl

theorem exists_mapM {ε α β : Type} {f : α → Except ε β} {xs : List α}
    (all : ∀ x ∈ xs, ∃ value, f x = .ok value) :
    ∃ ys, xs.mapM f = .ok ys ∧ xs.map f = ys.map .ok := by
  induction xs with
  | nil => exact ⟨[], rfl, rfl⟩
  | cons x xs ih =>
      obtain ⟨⟨value, first⟩, others⟩ := List.forall_mem_cons.mp all
      obtain ⟨ys, mapped, same⟩ := ih others
      refine ⟨value :: ys, ?_, by rw [List.map_cons, List.map_cons, first, same]⟩
      rw [List.mapM_cons, first, mapped]
      rfl

theorem ownSpan_eq_ok_iff {token : Token} {span : Span} :
    ownSpan source token = .ok span ↔ token.span.source = source ∧ span = token.span := by
  rw [ownSpan]
  split <;> simp_all [eq_comm]

namespace ParseTree

theorem lowerIdent_eq_ok_iff {token : Token} {name : Ident} :
    lowerIdent source token = .ok name ↔
      token.span.source = source ∧ name = ⟨token.text, token.span⟩ := by
  rw [lowerIdent]
  change _ <$> ownSpan source token = .ok name ↔ _
  simp only [Lowered.map_eq_ok_iff, ownSpan_eq_ok_iff]
  constructor
  · rintro ⟨_, ⟨own, rfl⟩, rfl⟩
    exact ⟨own, rfl⟩
  · rintro ⟨own, rfl⟩
    exact ⟨token.span, ⟨own, rfl⟩, rfl⟩

theorem lowerInteger_eq_ok_iff {token : Token} {literal : IntLiteral} :
    lowerInteger source token = .ok literal ↔
      token.span.source = source ∧ ∃ value, Text.readUInt64? token.text.toList = some value ∧
        literal = ⟨value, token.text, token.span⟩ := by
  rw [lowerInteger]
  simp only [bind_eq_ok_iff, ownSpan_eq_ok_iff]
  constructor
  · rintro ⟨_, ⟨own, rfl⟩, read⟩
    cases found : Text.readUInt64? token.text.toList with
    | none =>
        rw [found] at read
        cases read
    | some value =>
        rw [found] at read
        cases read
        exact ⟨own, value, rfl, rfl⟩
  · rintro ⟨own, value, found, rfl⟩
    rw [found]
    exact ⟨token.span, ⟨own, rfl⟩, rfl⟩

theorem Member.lower_eq_ok_iff {primary : Primary} {suffix : Option Suffix} {span : Span}
    {expr : Expr} :
    Member.lower source ⟨primary, suffix, span⟩ = .ok expr ↔
      ∃ object, primary.lower source = .ok object ∧
        match suffix with
        | none => object = expr
        | some suffix => ∃ property hull, lowerIdent source suffix.name = .ok property ∧
            object.span.merge property.span = .ok hull ∧
              .member suffix.access object property hull = expr := by
  rw [Member.lower]
  cases suffix <;>
    simp only [bind_eq_ok_iff, Lowered.ofMerge_eq_ok_iff, Except.ok.injEq, exists_and_left]

theorem lowerOperator_eq_ok_iff {token : Token} {op : Operator} :
    lowerOperator token = .ok op ↔ token.kind = .operator op := by
  rw [lowerOperator]
  cases token.kind with
  | operator found =>
      change Except.ok found = .ok op ↔ Kind.operator found = .operator op
      simp
  | _ => exact ⟨nofun, nofun⟩

theorem Expression.lower_eq_ok_iff {head : Call} {tail : List (Token × Call)} {span : Span}
    {expr : Expr} :
    Expression.lower source ⟨head, tail, span⟩ = .ok expr ↔
      ∃ first pairs, head.lower source = .ok first ∧ lowerTail source tail = .ok pairs ∧
        (OperatorTree.ofChain first pairs).Denotes expr := by
  rw [Expression.lower]
  simp only [bind_eq_ok_iff, Lowered.ofMerge_eq_ok_iff, resolve_eq_ok_iff, exists_and_left]

theorem lowerTail_cons_eq_ok_iff {token : Token} {operand : Call} {rest : List (Token × Call)}
    {pairs : List (Operator × Expr)} :
    lowerTail source ((token, operand) :: rest) = .ok pairs ↔
      ∃ op expr others, token.kind = .operator op ∧ operand.lower source = .ok expr ∧
        lowerTail source rest = .ok others ∧ (op, expr) :: others = pairs := by
  rw [lowerTail]
  simp only [bind_eq_ok_iff, lowerOperator_eq_ok_iff, exists_and_left, Except.ok.injEq]

theorem Call.lower_some_eq_ok_iff {member : Member} {opening closing : Token}
    {exprs : List Expression} {commas : List Token} {inner outer : Span} {expr : Expr} :
    Call.lower source ⟨member, some ⟨opening, exprs, commas, closing, inner⟩, outer⟩ = .ok expr ↔
      ∃ callee args, member.lower source = .ok callee ∧ closing.span.source = source ∧
        lowerAll source exprs = .ok args ∧
          .call callee args (callee.span.extendTo closing.span.stop) = expr := by
  rw [Call.lower]
  simp only [bind_eq_ok_iff, ownSpan_eq_ok_iff, Except.ok.injEq]
  constructor
  · rintro ⟨callee, first, _, ⟨own, rfl⟩, args, all, rfl⟩
    exact ⟨callee, args, first, own, all, rfl⟩
  · rintro ⟨callee, args, first, own, all, rfl⟩
    exact ⟨callee, first, _, ⟨own, rfl⟩, args, all, rfl⟩

theorem lowerAll_cons_eq_ok_iff {expr : Expression} {rest : List Expression} {args : List Expr} :
    lowerAll source (expr :: rest) = .ok args ↔
      ∃ first others, expr.lower source = .ok first ∧ lowerAll source rest = .ok others ∧
        first :: others = args := by
  rw [lowerAll]
  simp only [bind_eq_ok_iff, exists_and_left, Except.ok.injEq]

theorem LetDecl.lower_eq_ok_iff {decl : LetDecl} {lowered : Declaration} :
    decl.lower source = .ok lowered ↔
      ∃ name value hull, lowerIdent source decl.name = .ok name ∧
        decl.value.lower source = .ok value ∧ decl.keyword.span.source = source ∧
        decl.keyword.span.merge value.span = .ok hull ∧
        ⟨if decl.mutable.isSome then .mutable else .immutable, name, value, hull⟩ = lowered := by
  rw [LetDecl.lower]
  simp only [bind_eq_ok_iff, ownSpan_eq_ok_iff, Lowered.ofMerge_eq_ok_iff, Except.ok.injEq]
  constructor
  · rintro ⟨name, first, value, second, _, ⟨own, rfl⟩, hull, merged, rfl⟩
    exact ⟨name, value, hull, first, second, own, merged, rfl⟩
  · rintro ⟨name, value, hull, first, second, own, merged, rfl⟩
    exact ⟨name, first, value, second, _, ⟨own, rfl⟩, hull, merged, rfl⟩

theorem Program.lower_eq_ok_iff {program : Program} {lowered : Pipewright.Program} :
    program.lower source = .ok lowered ↔
      program.statements.mapM (Statement.lower source) = .ok lowered.statements ∧
        Span.mergeAll (program.statements.map Statement.span) = .ok (some lowered.span) := by
  obtain ⟨statements, span⟩ := lowered
  rw [Program.lower]
  simp only [bind_eq_ok_iff, Lowered.ofMerge_eq_ok_iff]
  constructor
  · rintro ⟨found, first, hull, merged, last⟩
    cases hull with
    | none => cases last
    | some hull =>
        cases last
        exact ⟨first, merged⟩
  · rintro ⟨first, merged⟩
    exact ⟨statements, first, some span, merged, rfl⟩

end ParseTree

end Pipewright
