import Pipewright.Proofs.Containment
import Pipewright.Proofs.NormalForm

set_option autoImplicit false

namespace Pipewright

open ParseTree

def Token.Oversized (token : Token) : Prop :=
  token.kind = .integer ∧ UInt64.size ≤ Text.decimalValue token.text.toList

instance : DecidablePred Token.Oversized :=
  fun token => inferInstanceAs (Decidable (token.kind = .integer ∧ _))

structure IsLeftmost (tokens : List Token) (wanted : Token → Prop) (token : Token) : Prop where
  member : token ∈ tokens
  holds : wanted token
  first : ∀ other ∈ tokens, wanted other → other ≠ token → token.span.stop ≤ other.span.start

def Token.isInteger (token : Token) : Bool :=
  token.kind = .integer

namespace ParseTree

theorem Member.integers_traced (member : Member) (grammatical : member.Grammatical) :
    member.traced.filter Token.isInteger = member.tokens.filter Token.isInteger := by
  obtain ⟨primary, suffix, span⟩ := member
  obtain ⟨-, rest, -⟩ := grammatical
  cases suffix with
  | none => rfl
  | some suffix =>
      obtain ⟨mark, name, -⟩ := rest suffix rfl
      have marked : ¬suffix.mark.isInteger = true := by
        cases access : suffix.access <;> simp [Token.isInteger, mark, Access.kind, access]
      change ([primary.token] ++ [suffix.name]).filter Token.isInteger =
        ([primary.token] ++ suffix.mark :: [suffix.name]).filter Token.isInteger
      rw [List.filter_append, List.filter_append, List.filter_cons_of_neg marked]

mutual

theorem Expression.integers_traced (expr : Expression) (grammatical : expr.Grammatical) :
    expr.traced.filter Token.isInteger = expr.tokens.filter Token.isInteger := by
  match expr with
  | ⟨head, tail, span⟩ =>
      rw [Expression.traced, Expression.tokens, List.filter_append, List.filter_append,
        head.integers_traced grammatical.1, integers_tailTraced tail grammatical.2.1]

theorem integers_tailTraced (tail : List (Token × Call)) (grammatical : tailGrammatical tail) :
    (tailTraced tail).filter Token.isInteger = (tailTokens tail).filter Token.isInteger := by
  match tail with
  | [] => rfl
  | (token, operand) :: rest =>
      obtain ⟨⟨op, kind⟩, first, others⟩ := grammatical
      rw [tailTraced, tailTokens, List.filter_cons_of_neg (by simp [Token.isInteger, kind]),
        List.filter_append, List.filter_append, operand.integers_traced first,
        integers_tailTraced rest others]

theorem Call.integers_traced (call : Call) (grammatical : call.Grammatical) :
    call.traced.filter Token.isInteger = call.tokens.filter Token.isInteger := by
  match call with
  | ⟨member, none, span⟩ =>
      rw [Call.traced, Call.tokens]
      exact member.integers_traced grammatical.1
  | ⟨member, some ⟨opening, exprs, commas, closing, _⟩, span⟩ =>
      obtain ⟨first, ⟨left, inner, marks, -, right, -⟩, -⟩ := grammatical
      have opens : ¬opening.isInteger = true := by simp [Token.isInteger, left]
      have closes : ¬closing.isInteger = true := by simp [Token.isInteger, right]
      have silent : ∀ comma ∈ commas, ¬comma.isInteger = true := by
        intro comma among
        simp [Token.isInteger, marks comma among]
      rw [Call.traced, Call.tokens, Arguments.tokens, List.filter_append, List.filter_append,
        List.filter_cons_of_neg closes, List.filter_cons_of_neg opens, List.filter_append,
        member.integers_traced first, integers_allTraced exprs commas inner silent,
        List.filter_cons_of_neg closes, List.filter_nil, List.append_nil]

theorem integers_allTraced (exprs : List Expression) (commas : List Token)
    (grammatical : allGrammatical exprs) (silent : ∀ comma ∈ commas, ¬comma.isInteger = true) :
    (allTraced exprs).filter Token.isInteger =
      (separated exprs commas).filter Token.isInteger := by
  match exprs, commas with
  | [], commas =>
      rw [separated, List.filter_eq_nil_iff.mpr silent]
      rfl
  | expr :: rest, [] =>
      rw [allTraced, separated, List.filter_append, List.filter_append,
        expr.integers_traced grammatical.1, integers_allTraced rest [] grammatical.2 silent]
  | expr :: rest, comma :: commas =>
      rw [List.forall_mem_cons] at silent
      rw [allTraced, separated, List.filter_append, List.filter_append,
        List.filter_cons_of_neg silent.1, expr.integers_traced grammatical.1,
        integers_allTraced rest commas grammatical.2 silent.2]

end

theorem LetDecl.integers_traced {decl : LetDecl} (grammatical : decl.Grammatical) :
    (Clause.traced (.letDecl decl)).filter Token.isInteger =
      decl.tokens.filter Token.isInteger := by
  obtain ⟨keyword, mutable, name, equal, value, -⟩ := grammatical
  have notName : ¬decl.name.isInteger = true := by simp [Token.isInteger, name]
  have notEqual : ¬decl.equal.isInteger = true := by simp [Token.isInteger, equal]
  have notKeyword : ¬decl.keyword.isInteger = true := by simp [Token.isInteger, keyword]
  have notMutable : ∀ word ∈ decl.mutable.toList, ¬word.isInteger = true := by
    intro word among
    simp [Token.isInteger, mutable word (Option.mem_toList.mp among)]
  calc (Clause.traced (.letDecl decl)).filter Token.isInteger
    _ = decl.value.traced.filter Token.isInteger := by
        rw [Clause.traced, List.filter_cons_of_neg notName, List.filter_append,
          List.filter_cons_of_neg notKeyword, List.filter_nil, List.append_nil]
    _ = decl.value.tokens.filter Token.isInteger := decl.value.integers_traced value
    _ = decl.tokens.filter Token.isInteger := by
        rw [LetDecl.tokens, List.filter_append, List.filter_cons_of_neg notKeyword,
          List.filter_eq_nil_iff.mpr notMutable, List.nil_append,
          List.filter_cons_of_neg notName, List.filter_cons_of_neg notEqual]

theorem Statement.integers_traced (statement : Statement) (grammatical : statement.Grammatical) :
    statement.traced.filter Token.isInteger = statement.tokens.filter Token.isInteger := by
  obtain ⟨clause, semi, span⟩ := statement
  obtain ⟨inner, ends, -⟩ := grammatical
  rw [Statement.traced, Statement.tokens, List.filter_append,
    List.filter_cons_of_neg (by simp [Token.isInteger, ends]), List.filter_nil, List.append_nil]
  cases clause with
  | expression expr => exact expr.integers_traced inner
  | letDecl decl => exact LetDecl.integers_traced inner

theorem integers_flatMap_traced (statements : List Statement)
    (grammatical : ∀ statement ∈ statements, statement.Grammatical) :
    (statements.flatMap Statement.traced).filter Token.isInteger =
      (statements.flatMap Statement.tokens).filter Token.isInteger := by
  rw [List.filter_flatMap, List.filter_flatMap]
  refine List.flatMap_congr fun statement member => ?_
  exact statement.integers_traced (grammatical statement member)

end ParseTree

theorem Token.fault?_of_own {source : String} {token : Token}
    (own : token.span.source = source) (spelled : token.kind.Spells token.text) :
    token.fault? source =
      if token.Oversized then some ⟨.intOutOfRange token.text, token.span⟩ else none := by
  by_cases integer : token.kind = .integer
  · have decimal : Text.isDecimal token.text.toList = true := by
      rw [integer] at spelled
      exact spelled
    have read := Text.readUInt64?_of_isDecimal decimal
    by_cases small : Text.decimalValue token.text.toList < UInt64.size
    · simp [Token.fault?, own, integer, read, small, Token.Oversized]
    · simp [Token.fault?, own, integer, read, small, Token.Oversized]
  · simp [Token.fault?, own, integer, Token.Oversized]

section

variable {source : String} {tokens : List Token}

theorem firstFault?_integers (own : ∀ token ∈ tokens, token.span.source = source) :
    firstFault? source (tokens.filter Token.isInteger) = firstFault? source tokens := by
  induction tokens with
  | nil => rfl
  | cons token tokens ih =>
      rw [List.forall_mem_cons] at own
      have later := ih own.2
      rw [firstFault?, firstFault?] at later
      by_cases integer : token.isInteger = true
      · rw [List.filter_cons_of_pos integer, firstFault?, firstFault?, List.findSome?_cons,
          List.findSome?_cons, later]
      · have other : token.kind ≠ .integer := by simpa [Token.isInteger] using integer
        have sound : token.fault? source = none := by simp [Token.fault?, own.1, other]
        rw [List.filter_cons_of_neg integer, firstFault?, firstFault?, List.findSome?_cons, sound,
          later]

theorem firstFault?_eq_of_integers {others : List Token}
    (own : ∀ token ∈ tokens, token.span.source = source)
    (within : ∀ token ∈ others, token ∈ tokens)
    (same : others.filter Token.isInteger = tokens.filter Token.isInteger) :
    firstFault? source others = firstFault? source tokens := by
  have ownOthers : ∀ token ∈ others, token.span.source = source :=
    fun token member => own token (within token member)
  rw [← firstFault?_integers ownOthers, ← firstFault?_integers own, same]

theorem exists_leftmost_of_firstFault? (inText : InText source tokens)
    (spelled : ∀ token ∈ tokens, token.kind.Spells token.text) {fault : Located LowerError}
    (found : firstFault? source tokens = some fault) :
    ∃ token, IsLeftmost tokens Token.Oversized token ∧
      fault = ⟨.intOutOfRange token.text, token.span⟩ := by
  obtain ⟨front, token, back, rfl, here, before⟩ := List.findSome?_eq_some_iff.mp found
  have faults : ∀ other ∈ front ++ token :: back, other.fault? source =
      if other.Oversized then some ⟨.intOutOfRange other.text, other.span⟩ else none :=
    fun other member => Token.fault?_of_own (inText.own other member) (spelled other member)
  have member : token ∈ front ++ token :: back := by simp
  have behind := List.pairwise_cons.mp (List.pairwise_append.mp inText.ordered).2.1
  rw [faults token member] at here
  by_cases large : token.Oversized
  · rw [if_pos large] at here
    cases here
    refine ⟨token, ⟨member, large, ?_⟩, rfl⟩
    intro other inside wanted different
    rcases List.mem_append.mp inside with earlier | later
    · have sound := before other earlier
      rw [faults other inside, if_pos wanted] at sound
      cases sound
    · exact behind.1 other ((List.mem_cons.mp later).resolve_left different)
  · rw [if_neg large] at here
    cases here

theorem not_oversized_of_firstFault? (own : ∀ token ∈ tokens, token.span.source = source)
    (spelled : ∀ token ∈ tokens, token.kind.Spells token.text)
    (sound : firstFault? source tokens = none) : ∀ token ∈ tokens, ¬ token.Oversized := by
  intro token member large
  have here := List.findSome?_eq_none_iff.mp sound token member
  rw [Token.fault?_of_own (own token member) (spelled token member), if_pos large] at here
  cases here

theorem IsLeftmost.unique (inText : InText source tokens) {wanted : Token → Prop}
    {token other : Token} (first : IsLeftmost tokens wanted token)
    (second : IsLeftmost tokens wanted other) : other = token := by
  by_cases same : other = token
  · exact same
  · have before := first.first other second.member second.holds same
    have after := second.first token first.member first.holds fun eq => same eq.symm
    have left := inText.nonempty token first.member
    have right := inText.nonempty other second.member
    omega

end

theorem Expr.Normal.child {position : Position} {expr child : Expr}
    (normal : expr.Normal position) (member : child ∈ expr.children) :
    ∃ place, child.Normal place := by
  induction normal with
  | primary _ ih => exact ih member
  | access _ ih => exact ih member
  | operand _ ih => exact ih member
  | chained _ ih => exact ih member
  | ident => cases member
  | integer => cases member
  | member object =>
      cases List.mem_singleton.mp member
      exact ⟨_, object⟩
  | call callee args =>
      rcases Expr.mem_children_call.mp member with rfl | inside
      · exact ⟨_, callee⟩
      · exact ⟨_, args _ inside⟩
  | binary _ _ left _ right =>
      rcases List.mem_pair.mp member with rfl | rfl
      · exact ⟨_, left⟩
      · exact ⟨_, right⟩
  | pipe callee arg =>
      rcases Expr.mem_children_call.mp member with rfl | inside
      · exact ⟨_, callee⟩
      · cases List.mem_singleton.mp inside
        exact ⟨_, arg⟩
  | awaitPipe callee arg =>
      -- What is awaited is itself a call by pipe.
      cases List.mem_singleton.mp member
      exact ⟨_, .pipe callee arg⟩

theorem Expr.Normal.within {position : Position} {expr part : Expr}
    (normal : expr.Normal position) (within : part.Within expr) : ∃ place, part.Normal place := by
  induction within generalizing position with
  | refl => exact ⟨position, normal⟩
  | child member _ ih =>
      obtain ⟨place, inner⟩ := normal.child member
      exact ih inner

theorem Expr.Normal.exact {position : Position} {literal : IntLiteral}
    (normal : (Expr.integer literal).Normal position) : literal.Exact := by
  generalize same : Expr.integer literal = expr at normal
  induction normal with
  | integer exact =>
      cases same
      exact exact
  | primary _ ih => exact ih same
  | access _ ih => exact ih same
  | operand _ ih => exact ih same
  | chained _ ih => exact ih same
  | ident | member | call | binary | pipe | awaitPipe => cases same

theorem Stmt.Normal.exact {stmt : Stmt} (normal : stmt.Normal) {literal : IntLiteral}
    (within : (Expr.integer literal).Within stmt.expr) : literal.Exact := by
  have whole : stmt.expr.Normal .whole := by
    cases stmt with
    | declaration decl => exact normal.2
    | expression expr => exact normal
  obtain ⟨place, inner⟩ := whole.within within
  exact inner.exact

theorem firstFault?_compile (source text : String) :
    firstFault? source (compile source text).tree.traced =
      firstFault? source (compile source text).tree.tokens := by
  have placed := placed_compile source text
  exact firstFault?_eq_of_integers placed.inText.own
    (fun _ traced => ParseTree.Program.mem_tokens_of_mem_traced _ traced)
    (integers_flatMap_traced _ placed.grammatical)

theorem lower_compile_cases (source text : String) :
    ((compile source text).tree.statements = [] ∧
        (compile source text).lower =
          .error ⟨.emptyProgram, .emptyAt source text.utf8ByteSize⟩) ∨
      (∃ token, IsLeftmost (compile source text).tree.tokens Token.Oversized token ∧
        (compile source text).lower = .error ⟨.intOutOfRange token.text, token.span⟩) ∨
      ((compile source text).tree.statements ≠ [] ∧
        (∀ token ∈ (compile source text).tree.tokens, ¬ token.Oversized) ∧
        ∃ program, (compile source text).lower = .ok program) := by
  have placed := placed_compile source text
  cases first : firstFault? source (compile source text).tree.tokens with
  | some fault =>
      have lowered := ParseTree.Program.lower_of_fault _ placed.grammatical
        ((firstFault?_compile source text).trans first)
      obtain ⟨token, leftmost, rfl⟩ :=
        exists_leftmost_of_firstFault? placed.inText placed.spelled first
      exact .inr (.inl ⟨token, leftmost, lowered⟩)
  | none =>
      have lowered := ParseTree.Program.lower_of_sound _ placed.grammatical
        ((firstFault?_compile source text).trans first)
      have small := not_oversized_of_firstFault? placed.inText.own placed.spelled first
      by_cases empty : (compile source text).tree.statements = []
      · rw [if_pos empty, span_compile_of_empty empty] at lowered
        exact .inl ⟨empty, lowered⟩
      · rw [if_neg empty] at lowered
        exact .inr (.inr ⟨empty, small, lowered⟩)

theorem statements_ne_nil_of_mem_tokens {tree : ParseTree.Program} {token : Token}
    (member : token ∈ tree.tokens) : tree.statements ≠ [] := by
  intro empty
  rw [ParseTree.Program.tokens, empty] at member
  cases member

theorem lower_compile_eq_emptyProgram_iff (source text : String) :
    (compile source text).lower = .error ⟨.emptyProgram, .emptyAt source text.utf8ByteSize⟩ ↔
      (compile source text).tree.statements = [] := by
  obtain ⟨empty, lowered⟩ | ⟨token, leftmost, lowered⟩ | ⟨nonempty, -, program, lowered⟩ :=
    lower_compile_cases source text
  · exact ⟨fun _ => empty, fun _ => lowered⟩
  · simp [lowered, statements_ne_nil_of_mem_tokens leftmost.member]
  · simp [lowered, nonempty]

theorem lower_compile_eq_intOutOfRange_iff (source text : String) (literal : String)
    (span : Span) :
    (compile source text).lower = .error ⟨.intOutOfRange literal, span⟩ ↔
      ∃ token, IsLeftmost (compile source text).tree.tokens Token.Oversized token ∧
        token.text = literal ∧ token.span = span := by
  obtain ⟨empty, lowered⟩ | ⟨token, leftmost, lowered⟩ | ⟨-, small, program, lowered⟩ :=
    lower_compile_cases source text
  · rw [lowered]
    constructor
    · rintro ⟨⟩
    · rintro ⟨token, leftmost, -⟩
      exact absurd empty (statements_ne_nil_of_mem_tokens leftmost.member)
  · rw [lowered]
    constructor
    · rintro ⟨⟩
      exact ⟨token, leftmost, rfl, rfl⟩
    · rintro ⟨other, otherLeftmost, rfl, rfl⟩
      rw [leftmost.unique (placed_compile source text).inText otherLeftmost]
  · rw [lowered]
    constructor
    · rintro ⟨⟩
    · rintro ⟨token, leftmost, -⟩
      exact absurd leftmost.holds (small token leftmost.member)

theorem exists_lower_compile_iff (source text : String) :
    (∃ program, (compile source text).lower = .ok program) ↔
      (compile source text).tree.statements ≠ [] ∧
        ∀ token ∈ (compile source text).tree.tokens, ¬ token.Oversized := by
  obtain ⟨empty, lowered⟩ | ⟨token, leftmost, lowered⟩ | ⟨nonempty, small, lowered⟩ :=
    lower_compile_cases source text
  · simp [lowered, empty]
  · rw [lowered]
    constructor
    · rintro ⟨_, ⟨⟩⟩
    · rintro ⟨-, small⟩
      exact absurd leftmost.holds (small token leftmost.member)
  · exact ⟨fun _ => ⟨nonempty, small⟩, fun _ => lowered⟩

theorem lower_compile_outcome (source text : String) :
    ((compile source text).lower =
        .error ⟨.emptyProgram, .emptyAt source text.utf8ByteSize⟩ ↔
      (compile source text).tree.statements = []) ∧
    (∀ literal span, (compile source text).lower = .error ⟨.intOutOfRange literal, span⟩ ↔
      ∃ token, IsLeftmost (compile source text).tree.tokens Token.Oversized token ∧
        token.text = literal ∧ token.span = span) ∧
    ((∃ program, (compile source text).lower = .ok program) ↔
      (compile source text).tree.statements ≠ [] ∧
        ∀ token ∈ (compile source text).tree.tokens, ¬ token.Oversized) ∧
    (∀ fault, (compile source text).lower = .error fault →
      fault = ⟨.emptyProgram, .emptyAt source text.utf8ByteSize⟩ ∨
        ∃ literal, fault.error = .intOutOfRange literal) ∧
    ∀ program, (compile source text).lower = .ok program →
      ∀ stmt ∈ program.statements, ∀ literal, (Expr.integer literal).Within stmt.expr →
        literal.value.toNat = Text.decimalValue literal.raw.toList := by
  refine ⟨lower_compile_eq_emptyProgram_iff source text,
    lower_compile_eq_intOutOfRange_iff source text, exists_lower_compile_iff source text, ?_, ?_⟩
  · intro fault failed
    obtain ⟨-, lowered⟩ | ⟨token, -, lowered⟩ | ⟨-, -, program, lowered⟩ :=
      lower_compile_cases source text
    · cases lowered.symm.trans failed
      exact .inl rfl
    · cases lowered.symm.trans failed
      exact .inr ⟨token.text, rfl⟩
    · cases lowered.symm.trans failed
  · intro program lowered stmt member literal within
    exact (((normal_of_lower_compile lowered).all stmt member).exact within).value

end Pipewright
