import Pipewright.Proofs.Outcome

set_option autoImplicit false

namespace Pipewright

open ParseTree

def Token.isAtom (token : Token) : Bool :=
  token.kind = .ident || token.kind = .integer

def Ident.token (name : Ident) : Token :=
  ⟨.ident, name.name, name.span⟩

def IntLiteral.token (literal : IntLiteral) : Token :=
  ⟨.integer, literal.raw, literal.span⟩

namespace Expr

def atom? : Expr → Option Token
  | .ident name => some name.token
  | .integer literal => some literal.token
  | .member _ _ property _ => some property.token
  | .call _ _ _ | .binary _ _ _ _ | .await _ _ => none

/-- The atoms of the children, in the order of the children, and then its own. -/
def atoms (expr : Expr) : List Token :=
  expr.children.attach.flatMap (fun child => child.val.atoms) ++ expr.atom?.toList
termination_by sizeOf expr
decreasing_by exact sizeOf_lt_of_mem_children child.property

theorem atoms_eq (expr : Expr) :
    expr.atoms = expr.children.flatMap atoms ++ expr.atom?.toList := by
  rw [atoms]
  simp

@[simp] theorem atoms_ident (name : Ident) : (ident name).atoms = [name.token] := by
  simp [atoms_eq, children, atom?]

@[simp] theorem atoms_integer (literal : IntLiteral) :
    (integer literal).atoms = [literal.token] := by
  simp [atoms_eq, children, atom?]

@[simp] theorem atoms_member (access : Access) (object : Expr) (property : Ident) (span : Span) :
    (member access object property span).atoms = object.atoms ++ [property.token] := by
  rw [atoms_eq]
  simp [children, atom?]

@[simp] theorem atoms_binary (op : Operator) (lhs rhs : Expr) (span : Span) :
    (binary op lhs rhs span).atoms = lhs.atoms ++ rhs.atoms := by
  rw [atoms_eq]
  simp [children, atom?]

@[simp] theorem atoms_await (expr : Expr) (span : Span) : (await expr span).atoms = expr.atoms := by
  rw [atoms_eq]
  simp [children, atom?]

theorem atoms_call_of_children {callee : Expr} {args parts : List Expr} {span : Span}
    (order : (call callee args span).children = parts) :
    (call callee args span).atoms = parts.flatMap atoms := by
  rw [atoms_eq, order]
  simp [atom?]

end Expr

def Stmt.atoms : Stmt → List Token
  | .declaration decl => decl.name.token :: decl.value.atoms
  | .expression expr => expr.atoms

def Program.atoms (program : Program) : List Token :=
  program.statements.flatMap Stmt.atoms

theorem Operator.Joins.atoms {source : String} {op : Operator} {lhs rhs expr : Expr}
    (joins : op.Joins lhs rhs expr) (left : lhs.Nested source)
    (apart : lhs.span.stop ≤ rhs.span.start) : expr.atoms = lhs.atoms ++ rhs.atoms := by
  have piped (span : Span) : (Expr.call rhs [lhs] span).atoms = lhs.atoms ++ rhs.atoms := by
    rw [Expr.atoms_call_of_children (Expr.children_call_of_before span left.nonempty apart)]
    simp
  cases joins with
  | pipe => exact piped _
  | awaitPipe => rw [Expr.atoms_await, piped]
  | binary => rw [Expr.atoms_binary]

theorem OperatorTree.Denotes.atoms {source : String} {tree : OperatorTree} {expr : Expr}
    (denotes : tree.Denotes expr) (all : ∀ operand ∈ tree.operands, operand.Nested source)
    (ordered : tree.operands.Pairwise fun left right => left.span.stop ≤ right.span.start) :
    expr.atoms = tree.operands.flatMap Expr.atoms := by
  induction denotes with
  | leaf expr => simp
  | node leftDenotes rightDenotes joins left right =>
      rw [operands_node, List.forall_mem_append] at all
      rw [operands_node, List.pairwise_append] at ordered
      obtain ⟨leftOrdered, rightOrdered, across⟩ := ordered
      have apart := leftDenotes.endsIn.before rightDenotes.endsIn
        (by simpa [List.forall_mem_map] using across)
      rw [joins.atoms (leftDenotes.nested all.1 leftOrdered) apart, left all.1 leftOrdered,
        right all.2 rightOrdered, operands_node, List.flatMap_append]

namespace ParseTree

variable {source : String}

theorem token_of_lowerIdent {token : Token} {name : Ident} (kind : token.kind = .ident)
    (found : lowerIdent source token = .ok name) : name.token = token ∧ token.isAtom = true := by
  obtain ⟨-, rfl⟩ := lowerIdent_eq_ok_iff.mp found
  exact ⟨by simp [Ident.token, ← kind], by simp [Token.isAtom, kind]⟩

theorem Primary.atoms {primary : Primary} {expr : Expr} (grammatical : primary.Grammatical)
    (lowered : primary.lower source = .ok expr) :
    expr.atoms = [primary.token] ∧ primary.token.isAtom = true := by
  cases primary with
  | ident token =>
      obtain ⟨name, found, rfl⟩ := Lowered.map_eq_ok_iff.mp lowered
      simpa [Primary.token] using token_of_lowerIdent grammatical found
  | integer token =>
      have kind : token.kind = .integer := grammatical
      obtain ⟨literal, found, rfl⟩ := Lowered.map_eq_ok_iff.mp lowered
      obtain ⟨-, value, -, rfl⟩ := lowerInteger_eq_ok_iff.mp found
      simp [IntLiteral.token, Primary.token, Token.isAtom, ← kind]

theorem Member.atoms {member : Member} {expr : Expr} (grammatical : member.Grammatical)
    (lowered : member.lower source = .ok expr) :
    expr.atoms = member.tokens.filter Token.isAtom := by
  obtain ⟨primary, suffix, span⟩ := member
  obtain ⟨first, rest, -⟩ := grammatical
  obtain ⟨object, here, later⟩ := Member.lower_eq_ok_iff.mp lowered
  obtain ⟨atoms, isAtom⟩ := Primary.atoms first here
  cases suffix with
  | none =>
      obtain rfl := later
      simp [Member.tokens, atoms, isAtom]
  | some suffix =>
      obtain ⟨property, hull, found, -, rfl⟩ := later
      obtain ⟨mark, name, -⟩ := rest suffix rfl
      obtain ⟨token, named⟩ := token_of_lowerIdent name found
      have passed : suffix.mark.isAtom = false := by
        cases access : suffix.access <;> simp [Token.isAtom, mark, Access.kind, access]
      simp [Member.tokens, Suffix.tokens, atoms, isAtom, passed, token, named]

mutual

theorem Expression.atoms (expr : Expression) {result : Expr} (grammatical : expr.Grammatical)
    (inText : InText source expr.tokens) (lowered : expr.lower source = .ok result) :
    result.atoms = expr.tokens.filter Token.isAtom := by
  match expr with
  | ⟨head, tail, span⟩ =>
      obtain ⟨first, rest, -⟩ := grammatical
      rw [Expression.tokens] at inText ⊢
      obtain ⟨operand, pairs, begins, later, denotes⟩ := Expression.lower_eq_ok_iff.mp lowered
      have inHead := inText.sublist (List.sublist_append_left _ _)
      have inTail := inText.sublist (List.sublist_append_right _ _)
      have row := Row.cons inText (head.covers inHead begins) (row_tail tail inTail later)
      rw [← OperatorTree.operands_ofChain] at row
      rw [denotes.atoms (fun operand member => (row.1 operand member).nested) row.2,
        OperatorTree.operands_ofChain, List.flatMap_cons, List.filter_append,
        head.atoms first inHead begins, atoms_tail tail rest inTail later]

theorem atoms_tail (tail : List (Token × Call)) {pairs : List (Operator × Expr)}
    (grammatical : tailGrammatical tail) (inText : InText source (tailTokens tail))
    (lowered : lowerTail source tail = .ok pairs) :
    (pairs.map Prod.snd).flatMap Expr.atoms = (tailTokens tail).filter Token.isAtom := by
  match tail with
  | [] =>
      cases lowered
      rfl
  | (token, operand) :: rest =>
      obtain ⟨⟨op, kind⟩, first, others⟩ := grammatical
      rw [tailTokens] at inText ⊢
      obtain ⟨op, expr, pairs, -, begins, later, rfl⟩ := lowerTail_cons_eq_ok_iff.mp lowered
      have inner := inText.sublist (List.sublist_cons_self _ _)
      rw [List.filter_cons_of_neg (by simp [Token.isAtom, kind]), List.filter_append, List.map_cons,
        List.flatMap_cons,
        operand.atoms first (inner.sublist (List.sublist_append_left _ _)) begins,
        atoms_tail rest others (inner.sublist (List.sublist_append_right _ _)) later]

theorem Call.atoms (call : Call) {result : Expr} (grammatical : call.Grammatical)
    (inText : InText source call.tokens) (lowered : call.lower source = .ok result) :
    result.atoms = call.tokens.filter Token.isAtom := by
  match call with
  | ⟨member, none, span⟩ =>
      rw [Call.lower] at lowered
      rw [Call.tokens]
      exact Member.atoms grammatical.1 lowered
  | ⟨member, some ⟨opening, exprs, commas, closing, _⟩, span⟩ =>
      obtain ⟨first, ⟨opens, inner, marks, -, closes, -⟩, -⟩ := grammatical
      rw [Call.tokens, Arguments.tokens] at inText ⊢
      obtain ⟨callee, args, begins, -, all, rfl⟩ := Call.lower_some_eq_ok_iff.mp lowered
      have covers := Member.covers (inText.sublist (List.sublist_append_left _ _)) begins
      have behind := inText.sublist (List.sublist_append_right _ _)
      have inside := (behind.sublist (List.sublist_cons_self _ _)).sublist
        (List.sublist_append_left _ _)
      have row : Row source (opening :: (separated exprs commas ++ [closing])) args :=
        (row_all exprs commas inside all).mono
          (List.subset_cons_of_subset _ (List.subset_append_left _ _))
      -- The callee stands before its arguments, so sorting leaves them as they are.
      have order := Expr.children_call_of_pairwise (callee.span.extendTo closing.span.stop)
        (Row.cons inText covers row).2
      have silent : ∀ comma ∈ commas, ¬comma.isAtom = true := by
        intro comma among
        simp [Token.isAtom, marks comma among]
      rw [Expr.atoms_call_of_children order, List.flatMap_cons, Member.atoms first begins,
        atoms_all exprs commas inner silent inside all, List.filter_append,
        List.filter_cons_of_neg (by simp [Token.isAtom, opens]), List.filter_append,
        List.filter_cons_of_neg (by simp [Token.isAtom, closes]), List.filter_nil, List.append_nil]

theorem atoms_all (exprs : List Expression) (commas : List Token) {args : List Expr}
    (grammatical : allGrammatical exprs) (silent : ∀ comma ∈ commas, ¬comma.isAtom = true)
    (inText : InText source (separated exprs commas)) (lowered : lowerAll source exprs = .ok args) :
    args.flatMap Expr.atoms = (separated exprs commas).filter Token.isAtom := by
  match exprs, commas with
  | [], commas =>
      cases lowered
      rw [separated, List.filter_eq_nil_iff.mpr silent, List.flatMap_nil]
  | expr :: rest, [] =>
      rw [separated] at inText ⊢
      obtain ⟨first, others, begins, later, rfl⟩ := lowerAll_cons_eq_ok_iff.mp lowered
      rw [List.flatMap_cons, List.filter_append,
        expr.atoms grammatical.1 (inText.sublist (List.sublist_append_left _ _)) begins,
        atoms_all rest [] grammatical.2 silent (inText.sublist (List.sublist_append_right _ _))
          later]
  | expr :: rest, comma :: commas =>
      rw [List.forall_mem_cons] at silent
      rw [separated] at inText ⊢
      obtain ⟨first, others, begins, later, rfl⟩ := lowerAll_cons_eq_ok_iff.mp lowered
      have behind := inText.sublist (List.sublist_append_right _ _)
      rw [List.flatMap_cons, List.filter_append, List.filter_cons_of_neg silent.1,
        expr.atoms grammatical.1 (inText.sublist (List.sublist_append_left _ _)) begins,
        atoms_all rest commas grammatical.2 silent.2 (behind.sublist (List.sublist_cons_self _ _))
          later]

end

theorem LetDecl.atoms {decl : LetDecl} {lowered : Declaration} (grammatical : decl.Grammatical)
    (inText : InText source decl.tokens) (found : decl.lower source = .ok lowered) :
    (Stmt.declaration lowered).atoms = decl.tokens.filter Token.isAtom := by
  obtain ⟨name, value, hull, named, valued, -, -, rfl⟩ := LetDecl.lower_eq_ok_iff.mp found
  obtain ⟨keyword, mutable, ident, equal, expr, span⟩ := decl
  obtain ⟨letWord, mutWord, kind, equals, inner, -⟩ := grammatical
  obtain ⟨token, isAtom⟩ := token_of_lowerIdent kind named
  have inside : expr.tokens.Sublist (LetDecl.tokens ⟨keyword, mutable, ident, equal, expr, span⟩) :=
    ((List.sublist_cons_self _ _).trans (List.sublist_cons_self _ _)).trans
      (List.sublist_append_right _ _)
  have silent : ∀ word ∈ mutable.toList, ¬word.isAtom = true := by
    intro word member
    simp [Token.isAtom, mutWord word (Option.mem_toList.mp member)]
  rw [Stmt.atoms, expr.atoms inner (inText.sublist inside) valued, token, LetDecl.tokens,
    List.filter_append, List.filter_cons_of_neg (by simp [Token.isAtom, letWord]),
    List.filter_eq_nil_iff.mpr silent,
    List.filter_cons_of_pos isAtom, List.filter_cons_of_neg (by simp [Token.isAtom, equals]),
    List.nil_append]

theorem Statement.atoms {statement : Statement} {stmt : Stmt} (grammatical : statement.Grammatical)
    (inText : InText source statement.tokens) (found : statement.lower source = .ok stmt) :
    stmt.atoms = statement.tokens.filter Token.isAtom := by
  obtain ⟨clause, semi, span⟩ := statement
  obtain ⟨inner, ends, -⟩ := grammatical
  have inside := inText.sublist (List.sublist_append_left _ _)
  rw [Statement.tokens, List.filter_append, List.filter_cons_of_neg (by simp [Token.isAtom, ends]),
    List.filter_nil, List.append_nil]
  cases clause with
  | letDecl decl =>
      obtain ⟨lowered, here, rfl⟩ := Lowered.map_eq_ok_iff.mp found
      exact LetDecl.atoms inner inside here
  | expression expr =>
      obtain ⟨lowered, here, rfl⟩ := Lowered.map_eq_ok_iff.mp found
      exact expr.atoms inner inside here

theorem atoms_statements {statements : List Statement} {stmts : List Stmt}
    (grammatical : ∀ statement ∈ statements, statement.Grammatical)
    (inText : InText source (statements.flatMap Statement.tokens))
    (mapped : statements.mapM (Statement.lower source) = .ok stmts) :
    stmts.flatMap Stmt.atoms = (statements.flatMap Statement.tokens).filter Token.isAtom := by
  induction statements generalizing stmts with
  | nil =>
      cases mapped
      rfl
  | cons statement statements ih =>
      rw [List.forall_mem_cons] at grammatical
      rw [List.flatMap_cons] at inText
      obtain ⟨first, others, here, later, rfl⟩ := mapM_cons_eq_ok_iff.mp mapped
      rw [List.flatMap_cons, List.flatMap_cons, List.filter_append,
        Statement.atoms grammatical.1 (inText.sublist (List.sublist_append_left _ _)) here,
        ih grammatical.2 (inText.sublist (List.sublist_append_right _ _)) later]

end ParseTree

/-- The atoms of a lowered program are those of the statements that were read, which have their
tokens in the order of the text. -/
theorem atoms_of_lower_compile {source text : String} {program : Program}
    (lowered : (compile source text).lower = .ok program) :
    program.atoms = (compile source text).tree.tokens.filter Token.isAtom ∧
      (compile source text).tree.tokens.Sublist (tokenize source text).tokens := by
  have placed := placed_compile source text
  obtain ⟨mapped, -⟩ := ParseTree.Program.lower_eq_ok_iff.mp lowered
  exact ⟨atoms_statements placed.grammatical placed.inText mapped, tokens_parse_sublist _⟩

-- The product is piped into a member, so the program holds it behind the name of that member.
theorem atoms_pipedProduct :
    ∃ program, (compile "main" "let y = a.b * 07 |> m::f(c, g()); x +;").lower = .ok program ∧
      program.atoms.map Token.text = ["y", "a", "b", "07", "m", "f", "c", "g"] ∧
      (compile "main" "let y = a.b * 07 |> m::f(c, g()); x +;").tree.tokens.Sublist
        (tokenize "main" "let y = a.b * 07 |> m::f(c, g()); x +;").tokens := by
  obtain ⟨program, lowered⟩ :=
    (exists_lower_compile_iff "main" "let y = a.b * 07 |> m::f(c, g()); x +;").mpr
      ⟨List.isEmpty_eq_false_iff.mp (by decide +kernel), by decide +kernel⟩
  obtain ⟨atoms, inOrder⟩ := atoms_of_lower_compile lowered
  refine ⟨program, lowered, ?_, inOrder⟩
  rw [atoms]
  decide +kernel

end Pipewright
