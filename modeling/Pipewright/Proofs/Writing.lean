import Mathlib.Data.List.Forall2
import Pipewright.Proofs.LayoutIndependence
import Pipewright.Proofs.NormalForm

set_option autoImplicit false

namespace Pipewright

open ParseTree

structure Token.Writable (token : Token) : Prop where
  spelled : token.kind.Spells token.text
  bare : token.bare = token

theorem Token.writable_ofLexeme (kind : Kind) {text : String} (spelled : kind.Spells text) :
    (Token.ofLexeme (kind, text)).Writable :=
  ⟨spelled, rfl⟩

/-- A tree follows the grammar, its tokens are writable, and lowering it gives the value. -/
structure Writes {α : Type} (follows : Prop) (tokens : List Token) (result : Lowered α)
    (value : α) : Prop where
  grammatical : follows
  writable : ∀ token ∈ tokens, token.Writable
  lowers : result = .ok value

namespace ParseTree

def Primary.Writes (primary : Primary) : Expr → Prop :=
  Pipewright.Writes primary.Grammatical [primary.token] (primary.lower "")

def Member.Writes (member : Member) : Expr → Prop :=
  Pipewright.Writes member.Grammatical member.tokens (member.lower "")

def Call.Writes (call : Call) : Expr → Prop :=
  Pipewright.Writes call.Grammatical call.tokens (call.lower "")

def Expression.Writes (expr : Expression) : Expr → Prop :=
  Pipewright.Writes expr.Grammatical expr.tokens (expr.lower "")

def LetDecl.Writes (decl : LetDecl) : Declaration → Prop :=
  Pipewright.Writes decl.Grammatical decl.tokens (decl.lower "")

def Statement.Writes (statement : Statement) : Stmt → Prop :=
  Pipewright.Writes statement.Grammatical statement.tokens (statement.lower "")

theorem Primary.writes_ident {name : Ident} (named : IsIdentifier name.name) :
    (Primary.ident (.ofLexeme (.ident, name.name))).Writes (.ident name.bare) := by
  refine ⟨rfl, ?_, ?_⟩
  · simpa [Primary.token] using Token.writable_ofLexeme .ident named
  · exact Lowered.map_eq_ok_iff.mpr ⟨_, lowerIdent_eq_ok_iff.mpr ⟨rfl, rfl⟩, rfl⟩

theorem Primary.writes_integer {literal : IntLiteral} (exact : literal.Exact) :
    (Primary.integer (.ofLexeme (.integer, literal.raw))).Writes (.integer literal.bare) := by
  refine ⟨rfl, ?_, ?_⟩
  · simpa [Primary.token] using Token.writable_ofLexeme .integer exact.digits
  · have small : Text.decimalValue literal.raw.toList < UInt64.size :=
      exact.value ▸ literal.value.toNat_lt_size
    have read : Text.readUInt64? literal.raw.toList = some literal.value := by
      rw [Text.readUInt64?_of_isDecimal exact.digits, if_pos small, ← exact.value,
        UInt64.ofNat_toNat]
    exact Lowered.map_eq_ok_iff.mpr
      ⟨_, lowerInteger_eq_ok_iff.mpr ⟨rfl, literal.value, read, rfl⟩, rfl⟩

theorem Primary.Writes.member {primary : Primary} {object : Expr} (writes : primary.Writes object) :
    (Member.make primary none).Writes object := by
  refine ⟨.make writes.grammatical (by simp), writes.writable, ?_⟩
  exact Member.lower_eq_ok_iff.mpr ⟨object, writes.lowers, rfl⟩

def Access.spelling : Access → String
  | .dot => Punct.dot.spelling
  | .path => Punct.path.spelling

def Suffix.written (access : Access) (property : Ident) : Suffix :=
  .make access (.ofLexeme (access.kind, Access.spelling access)) (.ofLexeme (.ident, property.name))

theorem Primary.Writes.suffixed {primary : Primary} {object : Expr}
    (writes : primary.Writes object.bare) (access : Access) {property : Ident}
    (named : IsIdentifier property.name) :
    (Member.make primary (some (.written access property))).Writes
      (.member access object.bare property.bare .nowhere) := by
  have mark : access.kind.Spells (Access.spelling access) := by cases access <;> rfl
  refine ⟨.make writes.grammatical ?_, ?_, ?_⟩
  · rintro _ ⟨⟩
    exact .make rfl rfl
  · have marked := Token.writable_ofLexeme access.kind mark
    have name := Token.writable_ofLexeme .ident named
    have first := writes.writable _ (List.mem_singleton_self _)
    simp [Member.make, Member.tokens, Suffix.tokens, Suffix.written, Suffix.make, marked, name,
      first]
  · refine Member.lower_eq_ok_iff.mpr ⟨object.bare, writes.lowers, _, _,
      lowerIdent_eq_ok_iff.mpr ⟨rfl, rfl⟩, ?_, rfl⟩
    rw [Expr.span_bare]
    rfl

theorem Member.Writes.operand {member : Member} {expr : Expr} (writes : member.Writes expr) :
    (Call.make member none).Writes expr :=
  ⟨.make writes.grammatical (by simp), writes.writable, writes.lowers⟩

theorem exists_tail_of_operands {pairs : List (Operator × Expr)}
    (operands : ∀ pair ∈ pairs, ∃ call : Call, call.Writes pair.2) :
    ∃ tail, tailGrammatical tail ∧ (∀ token ∈ tailTokens tail, token.Writable) ∧
      lowerTail "" tail = .ok pairs := by
  induction pairs with
  | nil => exact ⟨[], trivial, by simp [tailTokens], rfl⟩
  | cons pair pairs ih =>
      obtain ⟨op, operand⟩ := pair
      rw [List.forall_mem_cons] at operands
      obtain ⟨call, writes⟩ := operands.1
      obtain ⟨tail, grammatical, writable, lowers⟩ := ih operands.2
      refine ⟨(.ofLexeme (.operator op, op.spelling), call) :: tail,
        ⟨⟨op, rfl⟩, writes.grammatical, grammatical⟩, ?_, ?_⟩
      · rw [tailTokens, List.forall_mem_cons, List.forall_mem_append]
        exact ⟨Token.writable_ofLexeme (.operator op) rfl, writes.writable, writable⟩
      · exact lowerTail_cons_eq_ok_iff.mpr ⟨op, operand, pairs, rfl, writes.lowers, lowers, rfl⟩

end ParseTree

namespace OperatorTree

theorem Ordered.resolve_chain {tree : OperatorTree} (ordered : tree.Ordered) :
    resolve tree.chain.1 tree.chain.2 = tree.toExpr := by
  rw [resolve, (ordered_ofChain tree.chain.1 tree.chain.2).toExpr_eq, chain_ofChain,
    ordered.toExpr_eq]

structure Writes (tree : OperatorTree) (expr : Expr) : Prop where
  ordered : tree.Ordered
  operands : ∀ operand ∈ tree.operands, ∃ call : Call, call.Writes operand
  denotes : tree.Denotes expr

theorem Writes.expression {tree : OperatorTree} {expr : Expr} (writes : tree.Writes expr) :
    ∃ parsed : Expression, parsed.Writes expr := by
  obtain ⟨first, rest⟩ := List.forall_mem_cons.mp writes.operands
  rw [List.forall_mem_map] at rest
  obtain ⟨head, headWrites⟩ := first
  obtain ⟨tail, grammatical, writable, lowers⟩ := exists_tail_of_operands rest
  refine ⟨.make head tail, .make headWrites.grammatical grammatical, ?_, ?_⟩
  · rw [Expression.tokens_make, List.forall_mem_append]
    exact ⟨headWrites.writable, writable⟩
  · rw [Expression.make_eq]
    refine Expression.lower_eq_ok_iff.mpr ⟨_, _, headWrites.lowers, lowers, ?_⟩
    rw [← resolve_eq_ok_iff, writes.ordered.resolve_chain, toExpr_eq_ok_iff]
    exact writes.denotes

theorem Writes.node {left right : OperatorTree} {op : Operator} {lhs rhs expr : Expr}
    (first : left.Writes lhs) (second : right.Writes rhs) (joins : op.Joins lhs rhs expr)
    (loose : ∀ pair ∈ left.chain.2, op.precedence ≤ pair.1.precedence)
    (strict : ∀ pair ∈ right.chain.2, op.precedence < pair.1.precedence) :
    (OperatorTree.node op left right).Writes expr where
  ordered := ⟨loose, strict, first.ordered, second.ordered⟩
  operands := by
    rw [operands_node, List.forall_mem_append]
    exact ⟨first.operands, second.operands⟩
  denotes := first.denotes.node second.denotes joins

end OperatorTree

namespace ParseTree

theorem forall_mem_separated {P : Token → Prop} (exprs : List Expression) (commas : List Token)
    (inner : ∀ expr ∈ exprs, ∀ token ∈ expr.tokens, P token) (marks : ∀ comma ∈ commas, P comma) :
    ∀ token ∈ separated exprs commas, P token := by
  induction exprs generalizing commas with
  | nil => simpa [separated] using marks
  | cons expr exprs ih =>
      rw [List.forall_mem_cons] at inner
      cases commas with
      | nil =>
          rw [separated, List.forall_mem_append]
          exact ⟨inner.1, ih [] inner.2 marks⟩
      | cons comma commas =>
          rw [List.forall_mem_cons] at marks
          rw [separated, List.forall_mem_append, List.forall_mem_cons]
          exact ⟨inner.1, marks.1, ih commas inner.2 marks.2⟩

theorem Expression.Writes.all {exprs : List Expression} {args : List Expr}
    (written : List.Forall₂ Expression.Writes exprs args) :
    allGrammatical exprs ∧ (∀ expr ∈ exprs, ∀ token ∈ expr.tokens, token.Writable) ∧
      lowerAll "" exprs = .ok args := by
  induction written with
  | nil => exact ⟨trivial, by simp, rfl⟩
  | @cons expr arg exprs args writes _ ih =>
      obtain ⟨grammatical, writable, lowers⟩ := ih
      refine ⟨⟨writes.grammatical, grammatical⟩, ?_, ?_⟩
      · exact List.forall_mem_cons.mpr ⟨writes.writable, writable⟩
      · exact lowerAll_cons_eq_ok_iff.mpr ⟨arg, args, writes.lowers, lowers, rfl⟩

def Arguments.written (exprs : List Expression) : Arguments :=
  .make (.ofLexeme (.punct .lparen, Punct.lparen.spelling)) exprs
    (List.replicate (exprs.length - 1) (.ofLexeme (.punct .comma, Punct.comma.spelling)))
    (.ofLexeme (.punct .rparen, Punct.rparen.spelling))

theorem Member.Writes.call {member : Member} {callee : Expr} {exprs : List Expression}
    {args : List Expr} (writes : member.Writes callee.bare)
    (written : List.Forall₂ Expression.Writes exprs args) :
    (Call.make member (some (.written exprs))).Writes (.call callee.bare args .nowhere) := by
  obtain ⟨grammatical, writable, lowers⟩ := Expression.Writes.all written
  have mark (punct : Punct) := Token.writable_ofLexeme (.punct punct) rfl
  refine ⟨.make writes.grammatical ?_, ?_, ?_⟩
  · rintro _ ⟨⟩
    exact .make rfl grammatical (by simp [Token.ofLexeme]) (by simp) rfl
  · simp only [Call.make, Call.tokens, Arguments.written, Arguments.make, Arguments.tokens,
      List.forall_mem_append, List.forall_mem_cons]
    refine ⟨writes.writable, mark .lparen, forall_mem_separated _ _ writable ?_, mark .rparen,
      by simp⟩
    intro comma member
    obtain ⟨-, rfl⟩ := List.mem_replicate.mp member
    exact mark .comma
  · refine Call.lower_some_eq_ok_iff.mpr ⟨callee.bare, args, writes.lowers, rfl, lowers, ?_⟩
    rw [Expr.span_bare]
    rfl

end ParseTree

-- The operators of a chain are never pipes and never looser than the outermost one.
def Expr.Written : Position → Expr → Prop
  | .primary, expr => ∃ primary : Primary, primary.Writes expr.bare
  | .access, expr => ∃ member : Member, member.Writes expr.bare
  | .operand, expr => ∃ call : Call, call.Writes expr.bare
  | .chained, expr => ∃ tree : OperatorTree, tree.Writes expr.bare ∧
      ∀ pair ∈ tree.chain.2, 0 < pair.1.precedence ∧
        ∃ root ∈ expr.operator?, root.precedence ≤ pair.1.precedence
  | .whole, expr => ∃ tree : OperatorTree, tree.Writes expr.bare

theorem Expr.merge_bare (lhs rhs : Expr) : lhs.bare.span.merge rhs.bare.span = .ok .nowhere := by
  rw [Expr.span_bare, Expr.span_bare]
  rfl

theorem written_binary {op : Operator} {lhs rhs : Expr} {span : Span} (notPipe : op ≠ .pipe)
    (notAwaitPipe : op ≠ .awaitPipe) (left : lhs.Written .chained)
    (loose : ∀ inner ∈ lhs.operator?, op.precedence ≤ inner.precedence)
    (right : rhs.Written .chained)
    (strict : ∀ inner ∈ rhs.operator?, op.precedence < inner.precedence) :
    (Expr.binary op lhs rhs span).Written .chained := by
  obtain ⟨leftTree, leftWrites, leftRoot⟩ := left
  obtain ⟨rightTree, rightWrites, rightRoot⟩ := right
  have tight : 0 < op.precedence := by
    apply Nat.pos_of_ne_zero
    intro zero
    exact (Operator.precedence_eq_zero_iff.mp zero).elim notPipe notAwaitPipe
  have leftLoose : ∀ pair ∈ leftTree.chain.2, op.precedence ≤ pair.1.precedence := by
    intro pair member
    obtain ⟨-, root, outer, le⟩ := leftRoot pair member
    exact Nat.le_trans (loose root outer) le
  have rightStrict : ∀ pair ∈ rightTree.chain.2, op.precedence < pair.1.precedence := by
    intro pair member
    obtain ⟨-, root, outer, le⟩ := rightRoot pair member
    exact Nat.lt_of_lt_of_le (strict root outer) le
  refine ⟨.node op leftTree rightTree, leftWrites.node rightWrites
    (.binary notPipe notAwaitPipe (Expr.merge_bare lhs rhs)) leftLoose rightStrict, ?_⟩
  have bound : ∀ pair ∈ (OperatorTree.node op leftTree rightTree).chain.2,
      op.precedence ≤ pair.1.precedence := by
    simp only [OperatorTree.chain, List.forall_mem_append, List.forall_mem_cons]
    exact ⟨leftLoose, Nat.le_refl _, fun pair member => Nat.le_of_lt (rightStrict pair member)⟩
  intro pair member
  exact ⟨Nat.lt_of_lt_of_le tight (bound pair member), op, rfl, bound pair member⟩

theorem OperatorTree.writes_leaf {operand : Expr} {call : Call} (writes : call.Writes operand) :
    (OperatorTree.leaf operand).Writes operand :=
  ⟨trivial, by simpa using ⟨call, writes⟩, .leaf operand⟩

theorem exists_tree_pipe {op : Operator} {callee arg expr : Expr} (loosest : op.precedence = 0)
    (right : callee.Written .chained) (left : arg.Written .whole)
    (joins : op.Joins arg.bare callee.bare expr) : ∃ tree : OperatorTree, tree.Writes expr := by
  obtain ⟨leftTree, leftWrites⟩ := left
  obtain ⟨rightTree, rightWrites, tight⟩ := right
  refine ⟨.node op leftTree rightTree, leftWrites.node rightWrites joins ?_ ?_⟩
  · intro pair _
    omega
  · intro pair member
    rw [loosest]
    exact (tight pair member).1

theorem exists_forall₂_of_forall_exists {α β : Type} {r : α → β → Prop} {ys : List β}
    (all : ∀ y ∈ ys, ∃ x, r x y) : ∃ xs, List.Forall₂ r xs ys := by
  induction ys with
  | nil => exact ⟨[], .nil⟩
  | cons y ys ih =>
      rw [List.forall_mem_cons] at all
      obtain ⟨x, first⟩ := all.1
      obtain ⟨xs, rest⟩ := ih all.2
      exact ⟨x :: xs, .cons first rest⟩

theorem Expr.Normal.written {position : Position} {expr : Expr} (normal : expr.Normal position) :
    expr.Written position := by
  induction normal with
  | ident named => exact ⟨_, Primary.writes_ident named⟩
  | integer exact => exact ⟨_, Primary.writes_integer exact⟩
  | primary _ ih =>
      obtain ⟨primary, writes⟩ := ih
      exact ⟨_, writes.member⟩
  | @member access object property span _ named ih =>
      obtain ⟨primary, writes⟩ := ih
      exact ⟨_, writes.suffixed access named⟩
  | access _ ih =>
      obtain ⟨member, writes⟩ := ih
      exact ⟨_, writes.operand⟩
  | @call callee args _ _ _ ih all =>
      obtain ⟨member, writes⟩ := ih
      have each : ∀ arg ∈ args.map Expr.bare, ∃ parsed : Expression, parsed.Writes arg := by
        rw [List.forall_mem_map]
        intro arg inside
        obtain ⟨tree, argWrites⟩ := all arg inside
        exact argWrites.expression
      obtain ⟨exprs, written⟩ := exists_forall₂_of_forall_exists each
      rw [Expr.Written, Expr.bare, Expr.bares_eq_map]
      exact ⟨_, writes.call written⟩
  | operand _ ih =>
      obtain ⟨call, writes⟩ := ih
      exact ⟨.leaf _, OperatorTree.writes_leaf writes, by simp [OperatorTree.chain]⟩
  | binary notPipe notAwaitPipe _ loose _ strict left right =>
      exact written_binary notPipe notAwaitPipe left loose right strict
  | chained _ ih =>
      obtain ⟨tree, writes, -⟩ := ih
      exact ⟨tree, writes⟩
  | pipe _ _ right left =>
      exact exists_tree_pipe rfl right left (.pipe (Expr.merge_bare _ _))
  | awaitPipe _ _ right left =>
      exact exists_tree_pipe rfl right left (.awaitPipe (Expr.merge_bare _ _))

def Mutability.word? : Mutability → Option Token
  | .mutable => some (.ofLexeme (.keyword .mutWord, Keyword.mutWord.spelling))
  | .immutable => none

namespace ParseTree

def LetDecl.written (decl : Declaration) (value : Expression) : LetDecl :=
  .make (.ofLexeme (.keyword .letWord, Keyword.letWord.spelling)) decl.mutability.word?
    (.ofLexeme (.ident, decl.name.name)) (.ofLexeme (.punct .equal, Punct.equal.spelling)) value

theorem LetDecl.writes_written (decl : Declaration) (named : IsIdentifier decl.name.name)
    {value : Expression} (writes : value.Writes decl.value.bare) :
    (LetDecl.written decl value).Writes decl.bare := by
  have word (keyword : Keyword) := Token.writable_ofLexeme (.keyword keyword) rfl
  have name := Token.writable_ofLexeme .ident named
  have equal := Token.writable_ofLexeme (.punct .equal) rfl
  have merged : Span.nowhere.merge decl.value.bare.span = .ok .nowhere := by
    rw [Expr.span_bare]
    rfl
  obtain ⟨mutability, ident, expr, span⟩ := decl
  refine ⟨⟨rfl, ?_, rfl, rfl, writes.grammatical, rfl⟩, ?_, ?_⟩
  · cases mutability <;> simp [Mutability.word?, Token.ofLexeme]
  · have marked : ∀ token ∈ mutability.word?.toList, token.Writable := by
      cases mutability <;> simp [Mutability.word?, word]
    simp only [LetDecl.written, LetDecl.make, LetDecl.tokens, List.forall_mem_append,
      List.forall_mem_cons]
    exact ⟨⟨word .letWord, marked⟩, name, equal, writes.writable⟩
  · refine LetDecl.lower_eq_ok_iff.mpr ⟨_, _, _, lowerIdent_eq_ok_iff.mpr ⟨rfl, rfl⟩,
      writes.lowers, rfl, merged, ?_⟩
    cases mutability <;> rfl

def Statement.written (clause : Clause) : Statement :=
  .make clause (.ofLexeme (.punct .semi, Punct.semi.spelling))

theorem Statement.writes_written {clause : Clause} {stmt : Stmt} (grammatical : clause.Grammatical)
    (writable : ∀ token ∈ clause.tokens, token.Writable)
    (lowers : ∀ semi, Statement.lower "" (.make clause semi) = .ok stmt) :
    (Statement.written clause).Writes stmt := by
  have semi := Token.writable_ofLexeme (.punct .semi) rfl
  refine ⟨⟨grammatical, rfl, rfl⟩, ?_, lowers _⟩
  simp only [Statement.written, Statement.make, Statement.tokens, List.forall_mem_append]
  exact ⟨writable, by simpa using semi⟩

theorem Expression.Writes.statement {parsed : Expression} {expr : Expr}
    (writes : parsed.Writes expr) :
    (Statement.written (.expression parsed)).Writes (.expression expr) :=
  Statement.writes_written writes.grammatical writes.writable fun _ =>
    Lowered.map_eq_ok_iff.mpr ⟨_, writes.lowers, rfl⟩

theorem LetDecl.Writes.statement {parsed : LetDecl} {decl : Declaration}
    (writes : parsed.Writes decl) :
    (Statement.written (.letDecl parsed)).Writes (.declaration decl) :=
  Statement.writes_written writes.grammatical writes.writable fun _ =>
    Lowered.map_eq_ok_iff.mpr ⟨_, writes.lowers, rfl⟩

theorem Statement.Writes.all {statements : List Statement} {stmts : List Stmt}
    (written : List.Forall₂ Statement.Writes statements stmts) :
    (∀ statement ∈ statements, statement.Grammatical) ∧
      (∀ token ∈ statements.flatMap Statement.tokens, token.Writable) ∧
      statements.mapM (Statement.lower "") = .ok stmts := by
  induction written with
  | nil => exact ⟨by simp, by simp, rfl⟩
  | @cons statement stmt statements stmts writes _ ih =>
      obtain ⟨grammatical, writable, lowers⟩ := ih
      refine ⟨List.forall_mem_cons.mpr ⟨writes.grammatical, grammatical⟩, ?_,
        mapM_cons_eq_ok_iff.mpr ⟨_, _, writes.lowers, lowers, rfl⟩⟩
      rw [List.flatMap_cons, List.forall_mem_append]
      exact ⟨writes.writable, writable⟩

end ParseTree

theorem Expr.Normal.expression {expr : Expr} (normal : expr.Normal .whole) :
    ∃ parsed : Expression, parsed.Writes expr.bare := by
  obtain ⟨tree, writes⟩ := normal.written
  exact writes.expression

theorem Stmt.Normal.written {stmt : Stmt} (normal : stmt.Normal) :
    ∃ statement : Statement, statement.Writes stmt.bare := by
  cases stmt with
  | expression expr =>
      have whole : expr.Normal .whole := normal
      obtain ⟨parsed, writes⟩ := whole.expression
      exact ⟨_, writes.statement⟩
  | declaration decl =>
      obtain ⟨named, valued⟩ := normal
      obtain ⟨value, writes⟩ := valued.expression
      exact ⟨_, (LetDecl.writes_written decl named writes).statement⟩

theorem ParseTree.valid_eq_self {tokens : List Token}
    (known : ∀ token ∈ tokens, token.kind ≠ .invalid) : valid tokens = tokens := by
  rw [valid, List.filter_eq_self]
  simpa using known

section

variable {source text : String} {statements : List Statement}

theorem compile_of_lexemes (nonempty : statements ≠ [])
    (grammatical : ∀ statement ∈ statements, statement.Grammatical)
    (writable : ∀ token ∈ statements.flatMap Statement.tokens, token.Writable)
    (lexemes : (tokenize source text).tokens.map Token.lexeme =
      (statements.flatMap Statement.tokens).map Token.lexeme ++ [(.eof, "")])
    (noLexErrors : (tokenize source text).errors = []) :
    (compile source text).hasErrors = false ∧
      (compile source text).tree.bare.statements = statements := by
  have ends : (Token.ofLexeme (.eof, "")).kind = .eof := rfl
  have written : (statements.flatMap Statement.tokens).map Token.bare =
      statements.flatMap Statement.tokens :=
    (List.map_congr_left fun token member => (writable token member).bare).trans (List.map_id _)
  rw [map_bare_eq_map_ofLexeme] at written
  have known : ∀ token ∈ statements.flatMap Statement.tokens, token.kind ≠ .invalid :=
    fun token member => (writable token member).spelled.ne_invalid
  have allKnown : ∀ token ∈ (tokenize source text).tokens, token.kind ≠ .invalid := by
    intro token member
    have inside : token.lexeme ∈ (tokenize source text).tokens.map Token.lexeme :=
      List.mem_map_of_mem member
    rw [lexemes, List.mem_append, List.mem_map, List.mem_singleton] at inside
    rcases inside with ⟨made, here, same⟩ | last
    · have kind : made.kind = token.kind := congrArg Prod.fst same
      exact kind ▸ known made here
    · have kind : token.kind = .eof := congrArg Prod.fst last
      simp [kind]
  have parsed := bare_compile source text
  obtain ⟨program, errors⟩ := parse_concat (statements.flatMap Statement.tokens) ends
  rw [valid_eq_self allKnown, lexemes, List.map_append, written, List.map_singleton] at parsed
  rw [parsed, valid_eq_self known, readings_flatMap _ statements grammatical] at program errors
  constructor
  · have noParseErrors : (compile source text).parseErrors = [] := by
      simpa [nonempty] using errors
    have noErrors : (compile source text).lexErrors = [] := noLexErrors
    simp [Compilation.hasErrors, noParseErrors, noErrors]
  · simp only at program
    rw [program, ParseTree.Program.statements_make]

theorem lower_of_bare_statements {program : Program} (nonempty : statements ≠ [])
    (lowers : statements.mapM (Statement.lower "") = .ok (program.statements.map Stmt.bare))
    (tree : (compile source text).tree.bare.statements = statements) :
    ∃ found, (compile source text).lower = .ok found ∧ found.bare = program.bare := by
  have spans : ∀ span ∈ (compile source text).tree.bare.statements.map Statement.span,
      span = .nowhere := by
    simp [ParseTree.Program.bare, Statement.bare]
  have lowered : (compile source text).tree.bare.lower "" = .ok program.bare := by
    have some : (compile source text).tree.bare.statements.map Statement.span ≠ [] := by
      simpa [tree] using nonempty
    rw [ParseTree.Program.lower_eq_ok_iff, Span.mergeAll_nowhere some spans, tree]
    exact ⟨lowers, rfl⟩
  rw [← strip_lower_compile, Lowered.strip_eq_ok_iff] at lowered
  exact lowered

theorem compile_of_written {program : Program} (nonempty : program.statements ≠ [])
    (written : List.Forall₂ Statement.Writes statements (program.statements.map Stmt.bare))
    (lexemes : (tokenize source text).tokens.map Token.lexeme =
      (statements.flatMap Statement.tokens).map Token.lexeme ++ [(.eof, "")])
    (noLexErrors : (tokenize source text).errors = []) :
    (compile source text).hasErrors = false ∧
      ∃ found, (compile source text).lower = .ok found ∧ found.bare = program.bare := by
  obtain ⟨grammatical, writable, lowers⟩ := Statement.Writes.all written
  have some : statements ≠ [] := by
    rintro rfl
    exact nonempty (List.map_eq_nil_iff.mp (List.forall₂_nil_left_iff.mp written))
  obtain ⟨clean, tree⟩ := compile_of_lexemes some grammatical writable lexemes noLexErrors
  exact ⟨clean, lower_of_bare_statements some lowers tree⟩

end

theorem exists_text_of_normal (source : String) {program : Program} (normal : program.Normal) :
    ∃ text found, (compile source text).hasErrors = false ∧
      (compile source text).lower = .ok found ∧ found.bare = program.bare := by
  have each : ∀ stmt ∈ program.statements.map Stmt.bare,
      ∃ statement : Statement, statement.Writes stmt := by
    rw [List.forall_mem_map]
    exact fun stmt member => (normal.all stmt member).written
  obtain ⟨statements, written⟩ := exists_forall₂_of_forall_exists each
  have spelled : ∀ lexeme ∈ (statements.flatMap Statement.tokens).map Token.lexeme,
      lexeme.1.Spells lexeme.2 := by
    rw [List.forall_mem_map]
    exact fun token member => ((Statement.Writes.all written).2.1 token member).spelled
  obtain ⟨tokens, same, whole, noLexErrors⟩ := tokenize_spaced source _ spelled
  have lexemes := congrArg (List.map Token.lexeme) whole
  rw [List.map_append, same] at lexemes
  obtain ⟨clean, found, lowered, same⟩ :=
    compile_of_written normal.nonempty written lexemes noLexErrors
  exact ⟨_, found, clean, lowered, same⟩

theorem exists_text_iff_normal (source : String) (program : Program) :
    ((∃ text found, (compile source text).lower = .ok found ∧ found.bare = program.bare) ↔
        program.Normal) ∧
      ((∃ text found, (compile source text).hasErrors = false ∧
        (compile source text).lower = .ok found ∧ found.bare = program.bare) ↔
        program.Normal) := by
  refine ⟨⟨?_, ?_⟩, ?_, exists_text_of_normal source⟩
  · rintro ⟨text, found, lowered, same⟩
    exact (normal_of_lower_compile lowered).of_bare same
  · intro normal
    obtain ⟨text, found, -, lowered, same⟩ := exists_text_of_normal source normal
    exact ⟨text, found, lowered, same⟩
  · rintro ⟨text, found, -, lowered, same⟩
    exact (normal_of_lower_compile lowered).of_bare same

end Pipewright
