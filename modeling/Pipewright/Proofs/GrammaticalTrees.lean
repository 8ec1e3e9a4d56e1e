import Pipewright.Proofs.WrittenTrees

set_option autoImplicit false

namespace Pipewright.ParseTree

open Grammar

theorem Primary.derives (primary : Primary) (grammatical : primary.Grammatical) :
    Derives (.rule .primaryExpr) [primary.token.kind] := by
  cases primary with
  | ident token =>
      have kind : token.kind = .ident := grammatical
      rw [Primary.token, kind]
      exact .rule (.altLeft (.rule (.kind .ident)))
  | integer token =>
      have kind : token.kind = .integer := grammatical
      rw [Primary.token, kind]
      exact .rule (.altRight (.rule (.kind .integer)))

theorem Suffix.derives (suffix : Suffix) (grammatical : suffix.Grammatical) :
    Derives (.alt (.rule .dotMember) (.rule .doubleColonMember))
      (suffix.tokens.map Token.kind) := by
  obtain ⟨access, mark, name, span⟩ := suffix
  obtain ⟨first, second, -⟩ := grammatical
  simp only [Suffix.tokens, List.map_cons, List.map_nil, first, second]
  cases access with
  | dot => exact .altLeft (.rule (.cons (.rule (.kind .ident))))
  | path => exact .altRight (.rule (.cons (.rule (.kind .ident))))

theorem Member.derives (member : Member) (grammatical : member.Grammatical) :
    Derives (.rule .memberExpr) (member.tokens.map Token.kind) := by
  obtain ⟨primary, suffix, span⟩ := member
  obtain ⟨first, rest, -⟩ := grammatical
  cases suffix with
  | none => exact .rule (.seq (primary.derives first) .absent)
  | some suffix =>
      exact .rule (.seq (primary.derives first) (.present (suffix.derives (rest suffix rfl))))

mutual

theorem Expression.derives (expr : Expression) (grammatical : expr.Grammatical) :
    Derives (.rule .expression) (expr.tokens.map Token.kind) := by
  obtain ⟨head, tail, span⟩ := expr
  obtain ⟨first, rest, -⟩ := grammatical
  rw [Expression.tokens, List.map_append]
  exact .rule (.rule (.seq (head.derives first) (derives_tail tail rest)))

theorem derives_tail (tail : List (Token × Call)) (grammatical : tailGrammatical tail) :
    Derives (.star (.seq .operator (.rule .callExpr))) ((tailTokens tail).map Token.kind) := by
  match tail with
  | [] => exact .starNil
  | (token, operand) :: rest =>
      obtain ⟨⟨op, kind⟩, first, others⟩ := grammatical
      rw [tailTokens, List.map_cons, List.map_append, kind]
      exact .starCons (.seq (.operator op) (operand.derives first)) (derives_tail rest others)

theorem Call.derives (call : Call) (grammatical : call.Grammatical) :
    Derives (.rule .callExpr) (call.tokens.map Token.kind) := by
  match call with
  | ⟨member, none, span⟩ =>
      have whole : Derives (.rule .callExpr) (member.tokens.map Token.kind ++ []) :=
        .rule (.seq (member.derives grammatical.1) .absent)
      simpa [Call.tokens] using whole
  | ⟨member, some args, span⟩ =>
      obtain ⟨callee, inner, -⟩ := grammatical
      rw [Call.tokens, List.map_append]
      exact .rule (.seq (member.derives callee) (.present (args.derives inner)))

theorem Arguments.derives (args : Arguments) (grammatical : args.Grammatical) :
    Derives (.rule .arguments) (args.tokens.map Token.kind) := by
  obtain ⟨opening, exprs, commas, closing, span⟩ := args
  obtain ⟨left, inner, marks, count, right, -⟩ := grammatical
  rw [Arguments.tokens, List.map_cons, List.map_append, List.map_singleton, left, right]
  match exprs with
  | [] =>
      obtain rfl : commas = [] := List.eq_nil_of_length_eq_zero count
      exact .rule (.cons (.seq .absent (.kind _)))
  | expr :: rest =>
      have listed := derives_separated (expr :: rest) commas inner marks (by simp [count])
      exact .rule (.cons (.seq (.present listed) (.kind _)))

theorem derives_separated (exprs : List Expression) (commas : List Token)
    (grammatical : allGrammatical exprs) (marks : ∀ comma ∈ commas, comma.kind = .punct .comma)
    (count : exprs.length = commas.length + 1) :
    Derives (.seq (.rule .expression) (.star (.seq (.punct .comma) (.rule .expression))))
      ((separated exprs commas).map Token.kind) := by
  match exprs, commas with
  | [expr], [] =>
      rw [separated, separated, List.map_append]
      exact .seq (expr.derives grammatical.1) .starNil
  | expr :: next :: rest, comma :: commas =>
      have first := expr.derives grammatical.1
      have later := derives_separated (next :: rest) commas grammatical.2
        (fun mark member => marks mark (List.mem_cons_of_mem _ member)) (by simpa using count)
      rw [separated, List.map_append, List.map_cons, marks comma List.mem_cons_self]
      -- The derivation of the later expressions is taken apart, to put a comma before the first.
      generalize (separated (next :: rest) commas).map Token.kind = word at later
      cases later with
      | seq second others => exact .seq first (.starCons (.cons second) others)

end

theorem LetDecl.derives (decl : LetDecl) (grammatical : decl.Grammatical) :
    Derives (.rule .letDecl) (decl.tokens.map Token.kind) := by
  obtain ⟨keyword, mutable, name, equal, value, span⟩ := decl
  obtain ⟨first, second, third, fourth, last, -⟩ := grammatical
  have rest : Derives (.seq (.kind .ident) (.seq (.punct .equal) (.rule .expression)))
      (.ident :: .punct .equal :: value.tokens.map Token.kind) := .cons (.cons (value.derives last))
  cases mutable with
  | none =>
      simp only [LetDecl.tokens, Option.toList_none, List.cons_append, List.nil_append,
        List.map_cons, first, third, fourth]
      exact .rule (.cons (.seq .absent rest))
  | some word =>
      simp only [LetDecl.tokens, Option.toList_some, List.cons_append, List.nil_append,
        List.map_cons, first, second word rfl, third, fourth]
      exact .rule (.cons (.seq (.present (.kind _)) rest))

theorem Statement.derives (statement : Statement) (grammatical : statement.Grammatical) :
    Derives (.rule .statement) (statement.tokens.map Token.kind) := by
  obtain ⟨clause, semi, span⟩ := statement
  obtain ⟨inner, mark, -⟩ := grammatical
  rw [Statement.tokens, List.map_append, List.map_singleton, mark]
  cases clause with
  | letDecl decl => exact .rule (.seq (.altLeft (decl.derives inner)) (.kind _))
  | expression expr => exact .rule (.seq (.altRight (.rule (expr.derives inner))) (.kind _))

def Built : Rule → List Token → Prop
  | .program, tokens => ∃ statements : List Statement, statements ≠ [] ∧
      (∀ statement ∈ statements, statement.Grammatical) ∧
      statements.flatMap Statement.tokens = tokens
  | .statement, tokens =>
      ∃ statement : Statement, statement.Grammatical ∧ statement.tokens = tokens
  | .letDecl, tokens => ∃ decl : LetDecl, decl.Grammatical ∧ decl.tokens = tokens
  | .exprStmt, tokens | .expression, tokens | .binaryExpr, tokens =>
      ∃ expr : Expression, expr.Grammatical ∧ expr.tokens = tokens
  | .callExpr, tokens => ∃ call : Call, call.Grammatical ∧ call.tokens = tokens
  | .arguments, tokens => ∃ args : Arguments, args.Grammatical ∧ args.tokens = tokens
  | .memberExpr, tokens => ∃ member : Member, member.Grammatical ∧ member.tokens = tokens
  | .dotMember, tokens | .doubleColonMember, tokens =>
      ∃ suffix : Suffix, suffix.Grammatical ∧ suffix.tokens = tokens
  | .primaryExpr, tokens => ∃ primary : Primary, primary.Grammatical ∧ [primary.token] = tokens
  | .identExpr, tokens => ∃ token : Token, token.kind = .ident ∧ [token] = tokens
  | .intLiteralExpr, tokens => ∃ token : Token, token.kind = .integer ∧ [token] = tokens

def BuiltAs : Phrase → List Token → Prop
  | .kind kind, tokens => ∃ token : Token, token.kind = kind ∧ [token] = tokens
  | .operator, tokens =>
      ∃ (token : Token) (op : Operator), token.kind = .operator op ∧ [token] = tokens
  | .rule rule, tokens => Built rule tokens
  | .seq first second, tokens =>
      ∃ front back, BuiltAs first front ∧ BuiltAs second back ∧ front ++ back = tokens
  | .alt left right, tokens => BuiltAs left tokens ∨ BuiltAs right tokens
  | .optional phrase, tokens => tokens = [] ∨ BuiltAs phrase tokens
  | .star phrase, tokens =>
      ∃ parts : List (List Token), (∀ part ∈ parts, BuiltAs phrase part) ∧ parts.flatten = tokens

theorem exists_tail (parts : List (List Token))
    (built : ∀ part ∈ parts, BuiltAs (.seq .operator (.rule .callExpr)) part) :
    ∃ tail, tailGrammatical tail ∧ tailTokens tail = parts.flatten := by
  induction parts with
  | nil => exact ⟨[], trivial, rfl⟩
  | cons part parts ih =>
      obtain ⟨first, others⟩ := List.forall_mem_cons.mp built
      obtain ⟨front, back, ⟨token, op, kind, rfl⟩, ⟨operand, grammatical, rfl⟩, rfl⟩ := first
      obtain ⟨tail, all, same⟩ := ih others
      exact ⟨(token, operand) :: tail, ⟨⟨op, kind⟩, grammatical, all⟩, by simp [tailTokens, same]⟩

theorem exists_separated (expr : Expression) (first : expr.Grammatical) (parts : List (List Token))
    (built : ∀ part ∈ parts, BuiltAs (.seq (.punct .comma) (.rule .expression)) part) :
    ∃ exprs commas, allGrammatical (expr :: exprs) ∧
      (∀ comma ∈ commas, comma.kind = .punct .comma) ∧ commas.length = exprs.length ∧
      separated (expr :: exprs) commas = expr.tokens ++ parts.flatten := by
  induction parts generalizing expr with
  | nil => exact ⟨[], [], ⟨first, trivial⟩, by simp, rfl, by simp [separated]⟩
  | cons part parts ih =>
      obtain ⟨second, others⟩ := List.forall_mem_cons.mp built
      obtain ⟨front, back, ⟨comma, kind, rfl⟩, ⟨next, grammatical, rfl⟩, rfl⟩ := second
      obtain ⟨exprs, commas, all, marks, count, same⟩ := ih next grammatical others
      refine ⟨next :: exprs, comma :: commas, ⟨first, all⟩, ?_, by simp [count], ?_⟩
      · exact List.forall_mem_cons.mpr ⟨kind, marks⟩
      · rw [separated, same]
        simp

theorem exists_statements (parts : List (List Token))
    (built : ∀ part ∈ parts, BuiltAs (.rule .statement) part) :
    ∃ statements : List Statement, (∀ statement ∈ statements, statement.Grammatical) ∧
      statements.flatMap Statement.tokens = parts.flatten := by
  induction parts with
  | nil => exact ⟨[], by simp, rfl⟩
  | cons part parts ih =>
      obtain ⟨⟨statement, grammatical, rfl⟩, others⟩ := List.forall_mem_cons.mp built
      obtain ⟨statements, all, same⟩ := ih others
      exact ⟨statement :: statements, List.forall_mem_cons.mpr ⟨grammatical, all⟩, by simp [same]⟩

theorem built_of_body (rule : Rule) (tokens : List Token) (body : BuiltAs rule.body tokens) :
    Built rule tokens := by
  cases rule with
  | program =>
      obtain ⟨_, _, ⟨statement, grammatical, rfl⟩, ⟨parts, built, rfl⟩, rfl⟩ := body
      obtain ⟨statements, all, same⟩ := exists_statements parts built
      exact ⟨statement :: statements, by simp, List.forall_mem_cons.mpr ⟨grammatical, all⟩,
        by simp [same]⟩
  | statement =>
      obtain ⟨_, _, clause, ⟨semi, mark, rfl⟩, rfl⟩ := body
      obtain ⟨decl, grammatical, rfl⟩ | ⟨expr, grammatical, rfl⟩ := clause
      · exact ⟨.make (.letDecl decl) semi, ⟨grammatical, mark, rfl⟩, rfl⟩
      · exact ⟨.make (.expression expr) semi, ⟨grammatical, mark, rfl⟩, rfl⟩
  | letDecl =>
      obtain ⟨_, _, ⟨keyword, first, rfl⟩, ⟨_, _, mutable, ⟨_, _, ⟨name, third, rfl⟩,
        ⟨_, _, ⟨equal, fourth, rfl⟩, ⟨value, grammatical, rfl⟩, rfl⟩, rfl⟩, rfl⟩, rfl⟩ := body
      obtain rfl | ⟨word, second, rfl⟩ := mutable
      · exact ⟨.make keyword none name equal value,
          ⟨first, by simp, third, fourth, grammatical, rfl⟩, rfl⟩
      · exact ⟨.make keyword (some word) name equal value,
          ⟨first, by simpa using second, third, fourth, grammatical, rfl⟩, rfl⟩
  | exprStmt | expression => exact body
  | binaryExpr =>
      obtain ⟨_, _, ⟨head, grammatical, rfl⟩, ⟨parts, built, rfl⟩, rfl⟩ := body
      obtain ⟨tail, all, same⟩ := exists_tail parts built
      exact ⟨.make head tail, .make grammatical all, by simp [same]⟩
  | callExpr =>
      obtain ⟨_, _, ⟨member, grammatical, rfl⟩, args, rfl⟩ := body
      obtain rfl | ⟨args, inner, rfl⟩ := args
      · exact ⟨.make member none, .make grammatical (by simp), by simp [Call.make, Call.tokens]⟩
      · exact ⟨.make member (some args), .make grammatical (by simpa using inner), rfl⟩
  | arguments =>
      obtain ⟨_, _, ⟨opening, left, rfl⟩, ⟨_, _, inner, ⟨closing, right, rfl⟩, rfl⟩, rfl⟩ := body
      obtain rfl | ⟨_, _, ⟨expr, grammatical, rfl⟩, ⟨parts, built, rfl⟩, rfl⟩ := inner
      · exact ⟨.make opening [] [] closing, ⟨left, trivial, by simp, rfl, right, rfl⟩, rfl⟩
      · obtain ⟨exprs, commas, all, marks, count, same⟩ :=
          exists_separated expr grammatical parts built
        exact ⟨.make opening (expr :: exprs) commas closing,
          ⟨left, all, marks, by simp [count], right, rfl⟩,
          by simp [Arguments.make, Arguments.tokens, same]⟩
  | memberExpr =>
      obtain ⟨_, _, ⟨primary, grammatical, rfl⟩, suffix, rfl⟩ := body
      obtain rfl | ⟨suffix, rest, rfl⟩ | ⟨suffix, rest, rfl⟩ := suffix
      · exact ⟨.make primary none, .make grammatical (by simp), rfl⟩
      · exact ⟨.make primary (some suffix), .make grammatical (by simpa using rest), rfl⟩
      · exact ⟨.make primary (some suffix), .make grammatical (by simpa using rest), rfl⟩
  | dotMember =>
      obtain ⟨_, _, ⟨mark, first, rfl⟩, ⟨name, second, rfl⟩, rfl⟩ := body
      exact ⟨.make .dot mark name, ⟨first, second, rfl⟩, rfl⟩
  | doubleColonMember =>
      obtain ⟨_, _, ⟨mark, first, rfl⟩, ⟨name, second, rfl⟩, rfl⟩ := body
      exact ⟨.make .path mark name, ⟨first, second, rfl⟩, rfl⟩
  | primaryExpr =>
      obtain ⟨token, kind, rfl⟩ | ⟨token, kind, rfl⟩ := body
      · exact ⟨.ident token, kind, rfl⟩
      · exact ⟨.integer token, kind, rfl⟩
  | identExpr | intLiteralExpr => exact body

theorem builtAs_of_derives {phrase : Phrase} {word : List Kind} (derived : Derives phrase word)
    (tokens : List Token) (spelled : tokens.map Token.kind = word) : BuiltAs phrase tokens := by
  -- Only kinds are derived, so the tokens are carried along and cut where the word is cut.
  induction derived generalizing tokens with
  | kind kind =>
      obtain ⟨token, rfl, rfl⟩ := List.map_eq_singleton_iff.mp spelled
      exact ⟨token, rfl, rfl⟩
  | operator op =>
      obtain ⟨token, rfl, same⟩ := List.map_eq_singleton_iff.mp spelled
      exact ⟨token, op, same, rfl⟩
  | rule body ih => exact built_of_body _ tokens (ih tokens spelled)
  | seq _ _ first second =>
      obtain ⟨front, back, rfl, left, right⟩ := List.map_eq_append_iff.mp spelled
      exact ⟨front, back, first front left, second back right, rfl⟩
  | altLeft _ ih => exact .inl (ih tokens spelled)
  | altRight _ ih => exact .inr (ih tokens spelled)
  | absent => exact .inl (List.map_eq_nil_iff.mp spelled)
  | present _ ih => exact .inr (ih tokens spelled)
  | starNil => exact ⟨[], by simp, (List.map_eq_nil_iff.mp spelled).symm⟩
  | starCons _ _ first rest =>
      obtain ⟨front, back, rfl, left, right⟩ := List.map_eq_append_iff.mp spelled
      obtain ⟨parts, all, rfl⟩ := rest back right
      exact ⟨front :: parts, List.forall_mem_cons.mpr ⟨first front left, all⟩, rfl⟩

theorem derives_statement_iff (tokens : List Token) :
    Derives (.rule .statement) (tokens.map Token.kind) ↔
      ∃ statement : Statement, statement.Grammatical ∧ statement.tokens = tokens := by
  constructor
  · intro derived
    exact builtAs_of_derives derived tokens rfl
  · rintro ⟨statement, grammatical, rfl⟩
    exact statement.derives grammatical

theorem derives_statements (statements : List Statement)
    (grammatical : ∀ statement ∈ statements, statement.Grammatical) :
    Derives (.star (.rule .statement))
      ((statements.flatMap Statement.tokens).map Token.kind) := by
  induction statements with
  | nil => exact .starNil
  | cons statement statements ih =>
      obtain ⟨first, others⟩ := List.forall_mem_cons.mp grammatical
      rw [List.flatMap_cons, List.map_append]
      exact .starCons (statement.derives first) (ih others)

theorem derives_program_iff (tokens : List Token) :
    Derives (.rule .program) (tokens.map Token.kind) ↔
      ∃ statements : List Statement, statements ≠ [] ∧
        (∀ statement ∈ statements, statement.Grammatical) ∧
        statements.flatMap Statement.tokens = tokens := by
  constructor
  · intro derived
    exact builtAs_of_derives derived tokens rfl
  · rintro ⟨statements, nonempty, grammatical, rfl⟩
    obtain ⟨statement, others, rfl⟩ := List.exists_cons_of_ne_nil nonempty
    obtain ⟨first, rest⟩ := List.forall_mem_cons.mp grammatical
    rw [List.flatMap_cons, List.map_append]
    exact .rule (.seq (statement.derives first) (derives_statements others rest))

end Pipewright.ParseTree
