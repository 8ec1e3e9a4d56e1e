import Pipewright.Proofs.PlacedPieces
import Pipewright.Proofs.PrintedPrograms
import Pipewright.Proofs.Writing

set_option autoImplicit false

namespace Pipewright

open ParseTree

/-- Names, literals and members of these, and calls of them: no operators and no `await`. -/
inductive Expr.Plain : Expr → Prop
  | access {expr : Expr} : expr.Normal .access → Plain expr
  | call {callee : Expr} {args : List Expr} {span : Span} :
      callee.Normal .access → (∀ arg ∈ args, Plain arg) → Plain (.call callee args span)

def Stmt.Plain : Stmt → Prop
  | .declaration decl => IsIdentifier decl.name.name ∧ decl.value.Plain
  | .expression expr => expr.Plain

structure Program.Plain (program : Program) : Prop where
  nonempty : program.statements ≠ []
  all : ∀ stmt ∈ program.statements, stmt.Plain

theorem Expr.Plain.spelled {expr : Expr} (plain : expr.Plain) : expr.Spelled := by
  induction plain with
  | access normal => exact normal.spelled
  | call callee _ args => exact .call callee.spelled args

theorem Stmt.Plain.spelled {stmt : Stmt} (plain : stmt.Plain) : stmt.Spelled := by
  cases stmt with
  | declaration decl => exact ⟨plain.1, Expr.Plain.spelled plain.2⟩
  | expression expr => exact Expr.Plain.spelled plain

def Shows (tokens : List Token) (row : List Piece) : Prop :=
  tokens.map Token.lexeme = row.filterMap Piece.lexeme?

section

variable {tokens others : List Token} {row more : List Piece}

theorem shows_nil : Shows [] [] := rfl

theorem Shows.append (shown : Shows tokens row) (next : Shows others more) :
    Shows (tokens ++ others) (row ++ more) := by
  rw [Shows, List.map_append, shown, next, List.filterMap_append]

theorem Shows.lexeme (kind : Kind) (text : String) (shown : Shows tokens row) :
    Shows (.ofLexeme (kind, text) :: tokens) (.lexeme kind text.toList :: row) := by
  rw [Shows, List.map_cons, shown]
  simp [Piece.lexeme?, Token.ofLexeme, Token.lexeme]

theorem Shows.piece (kind : Kind) {text : String} (spelled : kind.spelling? = some text)
    (shown : Shows tokens row) : Shows (.ofLexeme (kind, text) :: tokens) (kind.piece :: row) := by
  have chars : kind.chars = text.toList := by simp [Kind.chars, spelled]
  rw [Kind.piece, chars]
  exact shown.lexeme kind text

theorem Shows.blank (b : Char) (shown : Shows tokens row) : Shows tokens (.blank b :: row) :=
  shown

end

-- A tree keeps its commas in a list of their own, one less than the arguments, so the induction has
-- to look one argument ahead.
theorem shows_separated {exprs : List Expression} {args : List Expr}
    (shown : List.Forall₂ (fun parsed arg => Shows parsed.tokens arg.printed) exprs args) :
    Shows (separated exprs
        (List.replicate (exprs.length - 1) (.ofLexeme (.punct .comma, Punct.comma.spelling))))
      ([Kind.piece (.punct .comma), .blank ' '].intercalate (args.map Expr.printed)) := by
  induction shown with
  | nil => exact shows_nil
  | @cons parsed arg exprs args first rest ih =>
      cases rest with
      | nil => simpa [separated] using first
      | @cons next other exprs args _ _ =>
          have behind := (ih.blank ' ').piece (.punct .comma) rfl
          simpa [separated, List.replicate_succ, List.intercalate_cons_cons] using
            first.append behind

def Expr.Shown (expr : Expr) : Prop :=
  ∃ parsed : Expression, parsed.Writes expr.bare ∧ Shows parsed.tokens expr.printed

theorem Expr.Normal.shown_primary {expr : Expr} (normal : expr.Normal .primary) :
    ∃ primary : Primary, primary.Writes expr.bare ∧ Shows [primary.token] expr.printed := by
  cases normal with
  | ident named => exact ⟨_, Primary.writes_ident named, shows_nil.lexeme _ _⟩
  | integer exact => exact ⟨_, Primary.writes_integer exact, shows_nil.lexeme _ _⟩

theorem Expr.Normal.shown_access {expr : Expr} (normal : expr.Normal .access) :
    ∃ member : Member, member.Writes expr.bare ∧ Shows member.tokens expr.printed := by
  cases normal with
  | primary normal =>
      obtain ⟨primary, writes, shown⟩ := normal.shown_primary
      exact ⟨_, writes.member, shown⟩
  | @member access _ property _ object named =>
      obtain ⟨primary, writes, shown⟩ := object.shown_primary
      refine ⟨_, writes.suffixed access named, shown.append ?_⟩
      have name := shows_nil.lexeme .ident property.name
      cases access with
      | dot => exact name.piece _ rfl
      | path => exact name.piece _ rfl

theorem ParseTree.Call.Writes.expression {call : Call} {expr : Expr} (writes : call.Writes expr) :
    (Expression.make call []).Writes expr := by
  refine ⟨.make writes.grammatical trivial, ?_, ?_⟩
  · simpa [tailTokens] using writes.writable
  · rw [Expression.make_eq]
    exact Expression.lower_eq_ok_iff.mpr ⟨expr, [], writes.lowers, rfl, .leaf expr⟩

theorem ParseTree.Call.Writes.shown {call : Call} {expr : Expr} (writes : call.Writes expr.bare)
    (shown : Shows call.tokens expr.printed) : expr.Shown :=
  ⟨_, writes.expression, by simpa [tailTokens] using shown⟩

theorem Expr.shown_call {callee : Expr} {args : List Expr} {span : Span}
    (normal : callee.Normal .access) (all : ∀ arg ∈ args, arg.Shown) :
    (Expr.call callee args span).Shown := by
  obtain ⟨member, writes, shown⟩ := normal.shown_access
  obtain ⟨exprs, each⟩ := exists_forall₂_of_forall_exists all
  have written : List.Forall₂ Expression.Writes exprs (args.map Expr.bare) :=
    List.forall₂_map_right_iff.mpr (each.imp fun _ _ both => both.1)
  have inner := shows_separated (each.imp fun _ _ both => both.2)
  have closing := shows_nil.piece (.punct .rparen) rfl
  have whole := shown.append ((inner.append closing).piece (.punct .lparen) rfl)
  have call := writes.call written
  rw [← Expr.bares_eq_map] at call
  refine Call.Writes.shown call ?_
  simp only [Call.make, Call.tokens, Arguments.written, Arguments.make, Arguments.tokens,
    Expr.printed, Expr.printedAll_eq_map]
  exact whole

theorem Expr.Plain.shown {expr : Expr} (plain : expr.Plain) : expr.Shown := by
  induction plain with
  | access normal =>
      obtain ⟨member, writes, shown⟩ := normal.shown_access
      exact Call.Writes.shown writes.operand shown
  | call callee _ args => exact Expr.shown_call callee args

theorem shows_declaration {decl : Declaration} {value : Expression}
    (shown : Shows value.tokens decl.value.printed) :
    Shows (LetDecl.written decl value).tokens (Stmt.declaration decl).printedBody := by
  have equal := (shown.blank ' ').piece (.punct .equal) rfl
  have name := (equal.blank ' ').lexeme .ident decl.name.name
  obtain ⟨mutability, ident, expr, span⟩ := decl
  cases mutability with
  | mutable =>
      have word := (name.blank ' ').piece (.keyword .mutWord) rfl
      exact (word.blank ' ').piece (.keyword .letWord) rfl
  | immutable => exact (name.blank ' ').piece (.keyword .letWord) rfl

theorem Stmt.Plain.shown {stmt : Stmt} (plain : stmt.Plain) :
    ∃ statement : Statement, statement.Writes stmt.bare ∧ Shows statement.tokens stmt.printed := by
  have semi := (shows_nil.blank '\n').piece (.punct .semi) rfl
  cases stmt with
  | declaration decl =>
      obtain ⟨value, writes, shown⟩ := Expr.Plain.shown plain.2
      exact ⟨_, (LetDecl.writes_written decl plain.1 writes).statement,
        (shows_declaration shown).append semi⟩
  | expression expr =>
      obtain ⟨parsed, writes, shown⟩ := Expr.Plain.shown plain
      exact ⟨_, writes.statement, shown.append semi⟩

theorem shows_statements {statements : List Statement} {stmts : List Stmt}
    (shown : List.Forall₂ (fun statement stmt => Shows statement.tokens stmt.printed)
      statements stmts) :
    Shows (statements.flatMap Statement.tokens) (stmts.flatMap Stmt.printed) := by
  induction shown with
  | nil => exact shows_nil
  | cons first _ ih =>
      rw [List.flatMap_cons, List.flatMap_cons]
      exact first.append ih

theorem Piece.IsInner.error?_eq_none {piece : Piece} (inner : piece.IsInner) (source : String)
    (start : Nat) : piece.error? source start = none := by
  cases piece with
  | lexeme | blank => rfl
  | lineComment | blockComment | openComment | stray => exact inner.elim

theorem Stmt.Spelled.error?_printed {stmt : Stmt} (spelled : stmt.Spelled) (source : String)
    (start : Nat) : ∀ piece ∈ stmt.printed, piece.error? source start = none := by
  have clean {expr : Expr} (inner : expr.Spelled) :
      ∀ piece ∈ expr.printed, piece.error? source start = none :=
    fun piece member => (inner.isInner piece member).error?_eq_none source start
  cases stmt with
  | declaration decl =>
      obtain ⟨mutability, name, value, span⟩ := decl
      cases mutability <;>
        simpa [printed, printedBody, Mutability.printed, Kind.piece, Piece.error?, or_imp,
          forall_and] using clean spelled.2
  | expression expr =>
      simpa [printed, printedBody, Kind.piece, Piece.error?, or_imp, forall_and] using clean spelled

section

variable {program : Program}

theorem Program.errors_toString (spelled : ∀ stmt ∈ program.statements, stmt.Spelled)
    (source : String) : (tokenize source program.toString).errors = [] := by
  rw [tokenize_errors_eq, Program.pieces_toString spelled, errorsOf, List.filterMap_eq_nil_iff]
  intro place member
  obtain ⟨stmt, inside, here⟩ := List.mem_flatMap.mp (snd_mem_of_mem_placed member)
  exact (spelled stmt inside).error?_printed source place.1 place.2 here

theorem Program.lexemes_toString (spelled : ∀ stmt ∈ program.statements, stmt.Spelled)
    (source : String) :
    (tokenize source program.toString).tokens.map Token.lexeme =
      program.printed.filterMap Piece.lexeme? ++ [(.eof, "")] := by
  rw [tokenize_tokens, Program.pieces_toString spelled, List.map_append, map_lexeme_tokensOf]
  rfl

end

/-- A program without operators and `await` is given back by its text, up to its places. -/
theorem compile_toString_of_plain (source : String) {program : Program} (plain : program.Plain) :
    (compile source program.toString).hasErrors = false ∧
      ∃ found, (compile source program.toString).lower = .ok found ∧ found.bare = program.bare := by
  have spelled : ∀ stmt ∈ program.statements, stmt.Spelled :=
    fun stmt member => (plain.all stmt member).spelled
  obtain ⟨statements, each⟩ :=
    exists_forall₂_of_forall_exists fun stmt member => (plain.all stmt member).shown
  have written : List.Forall₂ Statement.Writes statements (program.statements.map Stmt.bare) :=
    List.forall₂_map_right_iff.mpr (each.imp fun _ _ both => both.1)
  have shown : Shows (statements.flatMap Statement.tokens) program.printed :=
    shows_statements (each.imp fun _ _ both => both.2)
  have lexemes := Program.lexemes_toString spelled source
  rw [← shown] at lexemes
  exact compile_of_written plain.nonempty written lexemes (Program.errors_toString spelled source)

-- `let mut a = 1.x(b::c(), 007);` and `await(a);`, where `await` is a name like others
def nestedCalls : Program :=
  let name (text : String) : Ident := ⟨text, .nowhere⟩
  let number (value : UInt64) (raw : String) : Expr := .integer ⟨value, raw, .nowhere⟩
  let inner : Expr := .call (.member .path (.ident (name "b")) (name "c") .nowhere) [] .nowhere
  let outer : Expr := .call (.member .dot (number 1 "1") (name "x") .nowhere)
    [inner, number 7 "007"] .nowhere
  ⟨[.declaration ⟨.mutable, name "a", outer, .nowhere⟩,
    .expression (.call (.ident (name "await")) [.ident (name "a")] .nowhere)], .nowhere⟩

theorem compile_toString_nestedCalls :
    nestedCalls.Plain ∧ nestedCalls.toString = "let mut a = 1.x(b::c(), 007);\nawait(a);\n" ∧
      (compile "main" nestedCalls.toString).hasErrors = false ∧
      ∃ found, (compile "main" nestedCalls.toString).lower = .ok found ∧
        found.bare = nestedCalls.bare := by
  have declared : Expr.Plain (.call
      (.member .dot (.integer ⟨1, "1", .nowhere⟩) ⟨"x", .nowhere⟩ .nowhere)
      [.call (.member .path (.ident ⟨"b", .nowhere⟩) ⟨"c", .nowhere⟩ .nowhere) [] .nowhere,
        .integer ⟨7, "007", .nowhere⟩] .nowhere) := by
    refine .call (.member (.integer ⟨by decide, by decide⟩) (by decide)) ?_
    rw [List.forall_mem_cons, List.forall_mem_singleton]
    constructor
    · exact .call (.member (.ident (by decide)) (by decide)) (by simp)
    · exact .access (.primary (.integer ⟨by decide, by decide⟩))
  have awaited : Expr.Plain
      (.call (.ident ⟨"await", .nowhere⟩) [.ident ⟨"a", .nowhere⟩] .nowhere) := by
    refine .call (.primary (.ident (by decide))) ?_
    rw [List.forall_mem_singleton]
    exact .access (.primary (.ident (by decide)))
  have valid : IsIdentifier "a" := by decide
  have plain : nestedCalls.Plain :=
    ⟨by simp [nestedCalls], List.forall_mem_cons.mpr
      ⟨⟨valid, declared⟩, List.forall_mem_singleton.mpr awaited⟩⟩
  exact ⟨plain, by decide +kernel, compile_toString_of_plain "main" plain⟩

-- An operator is printed in parentheses, and no expression starts with one.
example :
    (Expr.binary .add (.ident ⟨"a", .nowhere⟩) (.ident ⟨"b", .nowhere⟩) .nowhere).toString =
        "(a + b)" ∧
      (compile "main" "(a + b);\n").hasErrors = true := by
  decide +kernel

end Pipewright
