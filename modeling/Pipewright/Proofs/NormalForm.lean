import Pipewright.Proofs.BarePrograms
import Pipewright.Proofs.Compiling
import Pipewright.Proofs.LoweredTrees

/-!
Normal forms: which expressions can stand where. Pipes are left out of chains of operators, a chain
has the shape that precedence demands, and only what can be written as an operand is one.
-/

set_option autoImplicit false

namespace Pipewright

open ParseTree

/-- The positions of expressions, from the tightest to the loosest. -/
inductive Position where
  | primary | access | operand | chained | whole

structure IntLiteral.Exact (literal : IntLiteral) : Prop where
  digits : Text.isDecimal literal.raw.toList = true
  value : literal.value.toNat = Text.decimalValue literal.raw.toList

namespace Expr

def operator? : Expr → Option Operator
  | .binary op _ _ _ => some op
  | _ => none

inductive Normal : Position → Expr → Prop
  | ident {name : Ident} : IsIdentifier name.name → Normal .primary (.ident name)
  | integer {literal : IntLiteral} : literal.Exact → Normal .primary (.integer literal)
  | primary {expr : Expr} : Normal .primary expr → Normal .access expr
  | member {access : Access} {object : Expr} {property : Ident} {span : Span} :
      Normal .primary object → IsIdentifier property.name →
        Normal .access (.member access object property span)
  | access {expr : Expr} : Normal .access expr → Normal .operand expr
  | call {callee : Expr} {args : List Expr} {span : Span} :
      Normal .access callee → (∀ arg ∈ args, Normal .whole arg) →
        Normal .operand (.call callee args span)
  | operand {expr : Expr} : Normal .operand expr → Normal .chained expr
  | binary {op : Operator} {lhs rhs : Expr} {span : Span} :
      op ≠ .pipe → op ≠ .awaitPipe →
      Normal .chained lhs → (∀ inner ∈ lhs.operator?, op.precedence ≤ inner.precedence) →
      Normal .chained rhs → (∀ inner ∈ rhs.operator?, op.precedence < inner.precedence) →
        Normal .chained (.binary op lhs rhs span)
  | chained {expr : Expr} : Normal .chained expr → Normal .whole expr
  | pipe {callee arg : Expr} {span : Span} :
      Normal .chained callee → Normal .whole arg → Normal .whole (.call callee [arg] span)
  | awaitPipe {callee arg : Expr} {inner outer : Span} :
      Normal .chained callee → Normal .whole arg →
        Normal .whole (.await (.call callee [arg] inner) outer)

end Expr

def Stmt.Normal : Stmt → Prop
  | .declaration decl => IsIdentifier decl.name.name ∧ decl.value.Normal .whole
  | .expression expr => expr.Normal .whole

structure Program.Normal (program : Program) : Prop where
  nonempty : program.statements ≠ []
  all : ∀ stmt ∈ program.statements, stmt.Normal

theorem Expr.operator?_eq_of_bare {expr other : Expr} (same : expr.bare = other.bare) :
    expr.operator? = other.operator? := by
  cases expr <;> cases other <;> simp_all [Expr.bare, operator?]

theorem IntLiteral.Exact.of_bare {literal other : IntLiteral} (exact : literal.Exact)
    (same : literal.bare = other.bare) : other.Exact := by
  injection same with value raw
  exact ⟨raw ▸ exact.digits, value ▸ raw ▸ exact.value⟩

theorem Expr.Normal.of_bare {position : Position} {expr other : Expr}
    (normal : expr.Normal position) (same : expr.bare = other.bare) : other.Normal position := by
  induction normal generalizing other with
  | primary _ ih => exact .primary (ih same)
  | access _ ih => exact .access (ih same)
  | operand _ ih => exact .operand (ih same)
  | chained _ ih => exact .chained (ih same)
  | ident named =>
      cases other <;> simp [Expr.bare] at same
      injection same with name
      exact .ident (name ▸ named)
  | integer exact =>
      cases other <;> simp [Expr.bare] at same
      exact .integer (exact.of_bare same)
  | member _ named ih =>
      cases other <;> simp [Expr.bare] at same
      obtain ⟨rfl, object, property⟩ := same
      injection property with name
      exact .member (ih object) (name ▸ named)
  | @call callee args _ _ _ ih all =>
      cases other <;> simp [Expr.bare] at same
      obtain ⟨first, rest⟩ := same
      refine .call (ih first) ?_
      intro other member
      have found : other.bare ∈ args.map Expr.bare := rest ▸ List.mem_map_of_mem member
      obtain ⟨arg, inside, here⟩ := List.mem_map.mp found
      exact all arg inside here
  | binary notPipe notAwaitPipe _ loose _ tight left right =>
      cases other <;> simp [Expr.bare] at same
      obtain ⟨rfl, lhs, rhs⟩ := same
      refine .binary notPipe notAwaitPipe (left lhs) ?_ (right rhs) ?_
      · rwa [← Expr.operator?_eq_of_bare lhs]
      · rwa [← Expr.operator?_eq_of_bare rhs]
  | pipe _ _ callee arg =>
      cases other <;> simp [Expr.bare] at same
      obtain ⟨first, rest⟩ := same
      obtain ⟨other, rfl, piped⟩ := List.map_eq_singleton_iff.mp rest.symm
      exact .pipe (callee first) (arg piped.symm)
  | awaitPipe _ _ callee arg =>
      cases other <;> simp [Expr.bare] at same
      next awaited _ =>
        cases awaited <;> simp [Expr.bare] at same
        obtain ⟨first, rest⟩ := same
        obtain ⟨other, rfl, piped⟩ := List.map_eq_singleton_iff.mp rest.symm
        exact .awaitPipe (callee first) (arg piped.symm)

theorem Stmt.Normal.of_bare {stmt other : Stmt} (normal : stmt.Normal)
    (same : stmt.bare = other.bare) : other.Normal := by
  cases stmt <;> cases other <;> simp [Stmt.bare] at same
  · next decl other =>
      injection same with _ name value
      injection name with name
      exact ⟨name ▸ normal.1, Expr.Normal.of_bare normal.2 value⟩
  · exact Expr.Normal.of_bare normal same

theorem Program.Normal.of_bare {program other : Program} (normal : program.Normal)
    (same : program.bare = other.bare) : other.Normal := by
  injection same with statements
  constructor
  · intro empty
    rw [empty] at statements
    exact normal.nonempty (List.map_eq_nil_iff.mp statements)
  · intro stmt member
    have found : stmt.bare ∈ program.statements.map Stmt.bare :=
      statements ▸ List.mem_map_of_mem member
    obtain ⟨first, inside, here⟩ := List.mem_map.mp found
    exact (normal.all first inside).of_bare here

theorem Operator.precedence_eq_zero_iff {op : Operator} :
    op.precedence = 0 ↔ op = .pipe ∨ op = .awaitPipe := by
  cases op <;> simp [Operator.precedence]

theorem Expr.Normal.operator?_eq_none {expr : Expr} (normal : expr.Normal .operand) :
    expr.operator? = none := by
  cases normal with
  | call => rfl
  | access inner =>
      cases inner with
      | member => rfl
      | primary inner => cases inner <;> rfl

namespace OperatorTree

theorem Denotes.normal_chained {tree : OperatorTree} {expr : Expr} (denotes : tree.Denotes expr)
    (ordered : tree.Ordered) (operands : ∀ operand ∈ tree.operands, operand.Normal .operand)
    (tight : ∀ pair ∈ tree.chain.2, 0 < pair.1.precedence) :
    expr.Normal .chained ∧ ∀ op ∈ expr.operator?, ∃ pair ∈ tree.chain.2, pair.1 = op := by
  induction denotes with
  | leaf expr =>
      have normal := operands expr (by simp)
      exact ⟨.operand normal, by simp [normal.operator?_eq_none]⟩
  | @node op left right lhs rhs expr _ _ joins ihLeft ihRight =>
      obtain ⟨loose, strict, leftOrdered, rightOrdered⟩ := ordered
      rw [operands_node, List.forall_mem_append] at operands
      simp only [chain, List.forall_mem_append, List.forall_mem_cons] at tight
      obtain ⟨leftTight, rootTight, rightTight⟩ := tight
      obtain ⟨leftNormal, leftRoot⟩ := ihLeft leftOrdered operands.1 leftTight
      obtain ⟨rightNormal, rightRoot⟩ := ihRight rightOrdered operands.2 rightTight
      cases joins with
      | pipe => cases rootTight
      | awaitPipe => cases rootTight
      | binary notPipe notAwaitPipe =>
          refine ⟨.binary notPipe notAwaitPipe leftNormal ?_ rightNormal ?_, ?_⟩
          · intro inner member
            obtain ⟨pair, inside, rfl⟩ := leftRoot inner member
            exact loose pair inside
          · intro inner member
            obtain ⟨pair, inside, rfl⟩ := rightRoot inner member
            exact strict pair inside
          · rintro _ ⟨⟩
            exact ⟨(op, right.chain.1), by simp [chain], rfl⟩

-- Pipes are the loosest operators, so a chain is cut at them first, and a right side has none.
theorem Denotes.normal_whole {tree : OperatorTree} {expr : Expr} (denotes : tree.Denotes expr)
    (ordered : tree.Ordered) (operands : ∀ operand ∈ tree.operands, operand.Normal .operand) :
    expr.Normal .whole := by
  induction denotes with
  | leaf expr => exact .chained (.operand (operands expr (by simp)))
  | @node op left right lhs rhs expr leftDenotes rightDenotes joins ihLeft _ =>
      by_cases loosest : op.precedence = 0
      · obtain ⟨-, strict, leftOrdered, rightOrdered⟩ := ordered
        rw [operands_node, List.forall_mem_append] at operands
        have arg := ihLeft leftOrdered operands.1
        have callee := (rightDenotes.normal_chained rightOrdered operands.2 (loosest ▸ strict)).1
        cases joins with
        | pipe => exact .pipe callee arg
        | awaitPipe => exact .awaitPipe callee arg
        | binary notPipe notAwaitPipe =>
            rcases Operator.precedence_eq_zero_iff.mp loosest with rfl | rfl <;> contradiction
      · have tight : ∀ pair ∈ (OperatorTree.node op left right).chain.2, 0 < pair.1.precedence := by
          simp only [chain, List.forall_mem_append, List.forall_mem_cons]
          refine ⟨?_, by omega, ?_⟩
          · intro pair member
            have := ordered.1 pair member
            omega
          · intro pair member
            have := ordered.2.1 pair member
            omega
        have denotes := leftDenotes.node rightDenotes joins
        exact .chained (denotes.normal_chained ordered operands tight).1

end OperatorTree

theorem normal_of_resolve {head expr : Expr} {pairs : List (Operator × Expr)}
    (denotes : (OperatorTree.ofChain head pairs).Denotes expr) (first : head.Normal .operand)
    (rest : ∀ pair ∈ pairs, pair.2.Normal .operand) : expr.Normal .whole := by
  apply denotes.normal_whole (OperatorTree.ordered_ofChain head pairs)
  rw [OperatorTree.operands_ofChain, List.forall_mem_cons, List.forall_mem_map]
  exact ⟨first, rest⟩

namespace ParseTree

variable {source : String}

theorem lowerInteger_exact {token : Token} {literal : IntLiteral}
    (decimal : Text.isDecimal token.text.toList = true)
    (found : lowerInteger source token = .ok literal) : literal.Exact := by
  obtain ⟨-, value, read, rfl⟩ := lowerInteger_eq_ok_iff.mp found
  refine ⟨decimal, ?_⟩
  rw [Text.readUInt64?_of_isDecimal decimal] at read
  split at read
  · next small =>
      cases read
      exact UInt64.toNat_ofNat_of_lt' small
  · cases read

theorem Primary.normal {primary : Primary} {expr : Expr} (grammatical : primary.Grammatical)
    (spelled : primary.token.kind.Spells primary.token.text)
    (found : primary.lower source = .ok expr) : expr.Normal .primary := by
  cases primary with
  | ident token =>
      have kind : token.kind = .ident := grammatical
      simp only [Primary.token, kind] at spelled
      obtain ⟨name, here, rfl⟩ := Lowered.map_eq_ok_iff.mp found
      obtain ⟨-, rfl⟩ := lowerIdent_eq_ok_iff.mp here
      exact .ident spelled
  | integer token =>
      have kind : token.kind = .integer := grammatical
      simp only [Primary.token, kind] at spelled
      obtain ⟨literal, here, rfl⟩ := Lowered.map_eq_ok_iff.mp found
      exact .integer (lowerInteger_exact spelled here)

theorem Member.normal {member : Member} {expr : Expr} (grammatical : member.Grammatical)
    (spelled : ∀ token ∈ member.tokens, token.kind.Spells token.text)
    (found : member.lower source = .ok expr) : expr.Normal .access := by
  obtain ⟨primary, suffix, span⟩ := member
  obtain ⟨first, rest, -⟩ := grammatical
  obtain ⟨object, here, later⟩ := Member.lower_eq_ok_iff.mp found
  have inner := Primary.normal first (spelled primary.token (by simp [Member.tokens])) here
  cases suffix with
  | none =>
      obtain rfl := later
      exact .primary inner
  | some suffix =>
      obtain ⟨property, hull, named, -, rfl⟩ := later
      obtain ⟨-, rfl⟩ := lowerIdent_eq_ok_iff.mp named
      have kind : suffix.name.kind = .ident := (rest suffix rfl).2.1
      have name := spelled suffix.name (by simp [Member.tokens, Suffix.tokens])
      rw [kind] at name
      exact .member inner name

mutual

theorem Expression.normal (expr : Expression) {result : Expr} (grammatical : expr.Grammatical)
    (spelled : ∀ token ∈ expr.tokens, token.kind.Spells token.text)
    (found : expr.lower source = .ok result) : result.Normal .whole := by
  match expr with
  | ⟨head, tail, span⟩ =>
      obtain ⟨first, rest, -⟩ := grammatical
      rw [Expression.tokens, List.forall_mem_append] at spelled
      obtain ⟨operand, pairs, here, later, denotes⟩ := Expression.lower_eq_ok_iff.mp found
      exact normal_of_resolve denotes (head.normal first spelled.1 here)
        (normal_tail tail rest spelled.2 later)

theorem normal_tail (tail : List (Token × Call)) {pairs : List (Operator × Expr)}
    (grammatical : tailGrammatical tail)
    (spelled : ∀ token ∈ tailTokens tail, token.kind.Spells token.text)
    (found : lowerTail source tail = .ok pairs) : ∀ pair ∈ pairs, pair.2.Normal .operand := by
  match tail with
  | [] =>
      cases found
      simp
  | (token, operand) :: rest =>
      obtain ⟨-, first, others⟩ := grammatical
      rw [tailTokens, List.forall_mem_cons, List.forall_mem_append] at spelled
      obtain ⟨op, expr, pairs, -, here, later, rfl⟩ := lowerTail_cons_eq_ok_iff.mp found
      rw [List.forall_mem_cons]
      exact ⟨operand.normal first spelled.2.1 here, normal_tail rest others spelled.2.2 later⟩

theorem Call.normal (call : Call) {result : Expr} (grammatical : call.Grammatical)
    (spelled : ∀ token ∈ call.tokens, token.kind.Spells token.text)
    (found : call.lower source = .ok result) : result.Normal .operand := by
  match call with
  | ⟨member, none, span⟩ =>
      rw [Call.lower] at found
      rw [Call.tokens] at spelled
      exact .access (Member.normal grammatical.1 spelled found)
  | ⟨member, some ⟨opening, exprs, commas, closing, _⟩, span⟩ =>
      obtain ⟨first, ⟨-, inner, -, -, -, -⟩, -⟩ := grammatical
      simp only [Call.tokens, Arguments.tokens, List.forall_mem_append, List.forall_mem_cons]
        at spelled
      obtain ⟨callee, args, here, -, all, rfl⟩ := Call.lower_some_eq_ok_iff.mp found
      exact .call (Member.normal first spelled.1 here)
        (normal_all exprs commas inner spelled.2.2.1 all)

theorem normal_all (exprs : List Expression) (commas : List Token) {args : List Expr}
    (grammatical : allGrammatical exprs)
    (spelled : ∀ token ∈ separated exprs commas, token.kind.Spells token.text)
    (found : lowerAll source exprs = .ok args) : ∀ arg ∈ args, arg.Normal .whole := by
  match exprs, commas with
  | [], _ =>
      cases found
      simp
  | expr :: rest, [] =>
      rw [separated, List.forall_mem_append] at spelled
      obtain ⟨first, others, here, later, rfl⟩ := lowerAll_cons_eq_ok_iff.mp found
      rw [List.forall_mem_cons]
      exact ⟨expr.normal grammatical.1 spelled.1 here,
        normal_all rest [] grammatical.2 spelled.2 later⟩
  | expr :: rest, comma :: commas =>
      rw [separated, List.forall_mem_append, List.forall_mem_cons] at spelled
      obtain ⟨first, others, here, later, rfl⟩ := lowerAll_cons_eq_ok_iff.mp found
      rw [List.forall_mem_cons]
      exact ⟨expr.normal grammatical.1 spelled.1 here,
        normal_all rest commas grammatical.2 spelled.2.2 later⟩

end

theorem Statement.normal {statement : Statement} {stmt : Stmt}
    (grammatical : statement.Grammatical)
    (spelled : ∀ token ∈ statement.tokens, token.kind.Spells token.text)
    (found : statement.lower source = .ok stmt) : stmt.Normal := by
  obtain ⟨clause, semi, span⟩ := statement
  obtain ⟨inner, -, -⟩ := grammatical
  have clauseSpelled : ∀ token ∈ clause.tokens, token.kind.Spells token.text :=
    fun token member => spelled token (List.mem_append_left _ member)
  cases clause with
  | letDecl decl =>
      obtain ⟨lowered, here, rfl⟩ := Lowered.map_eq_ok_iff.mp found
      obtain ⟨name, value, hull, named, valued, -, -, rfl⟩ := LetDecl.lower_eq_ok_iff.mp here
      obtain ⟨-, rfl⟩ := lowerIdent_eq_ok_iff.mp named
      obtain ⟨-, -, kind, -, valueGrammatical, -⟩ := inner
      have nameSpelled := clauseSpelled decl.name (by simp [Clause.tokens, LetDecl.tokens])
      rw [kind] at nameSpelled
      refine ⟨nameSpelled, decl.value.normal valueGrammatical ?_ valued⟩
      intro token member
      exact clauseSpelled token (by simp [Clause.tokens, LetDecl.tokens, member])
  | expression expr =>
      obtain ⟨lowered, here, rfl⟩ := Lowered.map_eq_ok_iff.mp found
      exact expr.normal inner clauseSpelled here

end ParseTree

theorem normal_of_lower_compile {source text : String} {program : Program}
    (lowered : (compile source text).lower = .ok program) : program.Normal := by
  have placed := placed_compile source text
  obtain ⟨mapped, merged⟩ := ParseTree.Program.lower_eq_ok_iff.mp lowered
  constructor
  · intro empty
    cases statements : (compile source text).tree.statements with
    | nil =>
        rw [statements] at merged
        cases merged
    | cons statement rest =>
        rw [statements] at mapped
        obtain ⟨first, others, -, -, same⟩ := mapM_cons_eq_ok_iff.mp mapped
        rw [empty] at same
        cases same
  · intro stmt member
    obtain ⟨statement, inside, found⟩ := exists_of_mem_mapM mapped stmt member
    apply Statement.normal (placed.grammatical statement inside) _ found
    intro token here
    exact placed.spelled token (List.mem_flatMap.mpr ⟨statement, inside, here⟩)

end Pipewright
