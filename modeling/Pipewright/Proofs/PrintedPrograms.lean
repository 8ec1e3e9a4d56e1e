import Pipewright.Proofs.Outcome
import Pipewright.Proofs.PrintedPieces

/-!
Printed programs show their trees. The pieces of a normal expression are read again from left to
right, with what is open at each place on a stack, and give the expression without its places. So
two normal programs that are printed alike differ in their places only.

Parentheses after an operand are those of its arguments, and others are those of an operator. A
blank behind `await` waits for what follows, unless the name is the left operand of an operator.
-/

set_option autoImplicit false

namespace Pipewright

/-- What is open: the parentheses of an operator before and behind it, a member whose property is to
follow, a call with the arguments before this place, or an `await`. -/
inductive Enclosure where
  | left
  | right (op : Operator) (lhs : Expr)
  | property (access : Access) (object : Expr)
  | args (callee : Expr) (before : List Expr)
  | awaited

/-- What is open, from the innermost on, and the expression that has been read last, if any. -/
structure Rereading where
  around : List Enclosure
  last : Option Expr

namespace Rereading

def settle : Rereading → Rereading
  | ⟨.awaited :: around, some expr⟩ => ⟨around, some (.await expr .nowhere)⟩
  | state => state

def name (name : Ident) : Rereading → Rereading
  | ⟨.property access object :: around, none⟩ =>
      ⟨around, some (.member access object name .nowhere)⟩
  | ⟨around, _⟩ => ⟨around, some (.ident name)⟩

def suffix (access : Access) : Rereading → Rereading
  | ⟨around, some object⟩ => ⟨.property access object :: around, none⟩
  | state => state

def operator (op : Operator) : Rereading → Rereading
  | ⟨.left :: around, some lhs⟩ => ⟨.right op lhs :: around, none⟩
  | state => state

def opening : Rereading → Rereading
  | ⟨around, some callee⟩ => ⟨.args callee [] :: around, none⟩
  | ⟨around, none⟩ => ⟨.left :: around, none⟩

def comma : Rereading → Rereading
  | ⟨.args callee before :: around, some arg⟩ => ⟨.args callee (before ++ [arg]) :: around, none⟩
  | state => state

def closing : Rereading → Rereading
  | ⟨.args callee before :: around, last⟩ =>
      ⟨around, some (.call callee (before ++ last.toList) .nowhere)⟩
  | ⟨.right op lhs :: around, some rhs⟩ => ⟨around, some (.binary op lhs rhs .nowhere)⟩
  | state => state

def space : Rereading → Rereading
  | ⟨.left :: around, last⟩ => ⟨.left :: around, last⟩
  | ⟨around, some _⟩ => ⟨.awaited :: around, none⟩
  | state => state

def step (state : Rereading) : Piece → Rereading
  | .lexeme .ident chars => state.name ⟨String.ofList chars, .nowhere⟩
  | .lexeme .integer chars =>
      ⟨state.around,
        some (.integer ⟨.ofNat (Text.decimalValue chars), String.ofList chars, .nowhere⟩)⟩
  | .lexeme (.operator op) _ => state.operator op
  | .lexeme (.punct .dot) _ => state.suffix .dot
  | .lexeme (.punct .path) _ => state.suffix .path
  | .lexeme (.punct .lparen) _ => state.opening
  | .lexeme (.punct .comma) _ => state.settle.comma
  | .lexeme (.punct .rparen) _ => state.settle.closing
  | .blank _ => state.space
  | _ => state

def steps (state : Rereading) (row : List Piece) : Rereading :=
  row.foldl step state

@[simp] theorem steps_nil (state : Rereading) : state.steps [] = state := rfl

@[simp] theorem steps_cons (state : Rereading) (piece : Piece) (row : List Piece) :
    state.steps (piece :: row) = (state.step piece).steps row := rfl

@[simp] theorem steps_append (state : Rereading) (front back : List Piece) :
    state.steps (front ++ back) = (state.steps front).steps back :=
  List.foldl_append

def TakesOperand : List Enclosure → Prop
  | .property _ _ :: _ => False
  | _ => True

def TakesWhole : List Enclosure → Prop
  | [] | .args _ _ :: _ => True
  | _ => False

theorem TakesWhole.operand {around : List Enclosure} (whole : TakesWhole around) :
    TakesOperand around := by
  cases around with
  | nil => trivial
  | cons inner => cases inner <;> trivial

theorem name_of_takesOperand {around : List Enclosure} (takes : TakesOperand around)
    (ident : Ident) :
    (⟨around, none⟩ : Rereading).name ident = ⟨around, some (.ident ident)⟩ := by
  cases around with
  | nil => rfl
  | cons inner =>
      cases inner with
      | property => exact takes.elim
      | left | right | args | awaited => rfl

theorem settle_of_takesWhole {around : List Enclosure} (takes : TakesWhole around) (expr : Expr) :
    (⟨around, some expr⟩ : Rereading).settle = ⟨around, some expr⟩ := by
  cases around with
  | nil => rfl
  | cons inner =>
      cases inner with
      | args => rfl
      | left | right | property | awaited => exact takes.elim

theorem space_of_takesWhole {around : List Enclosure} (takes : TakesWhole around) (expr : Expr) :
    (⟨around, some expr⟩ : Rereading).space = ⟨.awaited :: around, none⟩ := by
  cases around with
  | nil => rfl
  | cons inner =>
      cases inner with
      | args => rfl
      | left | right | property | awaited => exact takes.elim

end Rereading

namespace Expr

open Rereading

def RereadOperand (expr : Expr) : Prop :=
  ∀ around, TakesOperand around → steps ⟨around, none⟩ expr.printed = ⟨around, some expr.bare⟩

def RereadWhole (expr : Expr) : Prop :=
  ∀ around, TakesWhole around →
    (steps ⟨around, none⟩ expr.printed).settle = ⟨around, some expr.bare⟩

def Reread : Position → Expr → Prop
  | .primary, expr | .access, expr | .operand, expr | .chained, expr => expr.RereadOperand
  | .whole, expr => expr.RereadWhole

theorem RereadOperand.whole {expr : Expr} (operand : expr.RereadOperand) : expr.RereadWhole := by
  intro around takes
  rw [operand around takes.operand, settle_of_takesWhole takes]

theorem rereadOperand_integer {literal : IntLiteral} (exact : literal.Exact) :
    (integer literal).RereadOperand := by
  intro around takes
  simp [printed, step, bare, IntLiteral.bare, ← exact.value]

theorem RereadOperand.member {access : Access} {object : Expr} {property : Ident} {span : Span}
    (operand : object.RereadOperand) : (member access object property span).RereadOperand := by
  intro around takes
  rw [printed, steps_append, operand around takes]
  cases access <;>
    simp [Access.kind, Kind.piece, step, suffix, name, bare, Ident.bare]

theorem closing_arguments {args : List Expr} (all : ∀ arg ∈ args, arg.RereadWhole) (callee : Expr)
    (before : List Expr) (around : List Enclosure) :
    (steps ⟨.args callee before :: around, none⟩
      ([Kind.piece (.punct .comma), .blank ' '].intercalate (args.map printed))).settle.closing =
        ⟨around, some (.call callee (before ++ args.map bare) .nowhere)⟩ := by
  induction args generalizing before with
  | nil => simp [settle, closing]
  | cons arg args ih =>
      rw [List.forall_mem_cons] at all
      have first := all.1 (.args callee before :: around) trivial
      cases args with
      | nil => simp [first, closing]
      | cons next args =>
          have later := ih all.2 (before ++ [arg.bare])
          simp only [List.map_cons, List.intercalate_cons_cons, steps_append, steps_cons, steps_nil,
            Kind.piece, step, first, comma, space] at later ⊢
          simpa using later

theorem RereadOperand.call {callee : Expr} {args : List Expr} {span : Span}
    (operand : callee.RereadOperand) (all : ∀ arg ∈ args, arg.RereadWhole) :
    (call callee args span).RereadOperand := by
  intro around takes
  have inner := closing_arguments all callee.bare [] around
  rw [List.nil_append] at inner
  simp only [printed, printedAll_eq_map, steps_append, steps_cons, steps_nil, operand around takes,
    Kind.piece, step, opening, bare, bares_eq_map]
  exact inner

theorem RereadOperand.binary {op : Operator} {lhs rhs : Expr} {span : Span}
    (left : lhs.RereadOperand) (right : rhs.RereadOperand) :
    (binary op lhs rhs span).RereadOperand := by
  intro around takes
  have before := left (.left :: around) trivial
  have behind := right (.right op lhs.bare :: around) trivial
  simp only [printed, steps_append, steps_cons, steps_nil, Kind.piece, step, opening, before, space,
    operator, behind, settle, closing, bare]

theorem RereadOperand.await {expr : Expr} {span : Span} (operand : expr.RereadOperand) :
    (await expr span).RereadWhole := by
  intro around takes
  have inner := operand (.awaited :: around) trivial
  simp only [printed, steps_cons, step, name_of_takesOperand takes.operand,
    space_of_takesWhole takes, inner, settle, bare]

theorem Normal.reread {position : Position} {expr : Expr} (normal : expr.Normal position) :
    expr.Reread position := by
  induction normal with
  | ident =>
      intro around takes
      simp [printed, step, name_of_takesOperand takes, bare, Ident.bare]
  | integer exact => exact rereadOperand_integer exact
  | member _ _ object => exact RereadOperand.member object
  | call _ _ callee args => exact RereadOperand.call callee args
  | binary _ _ _ _ _ _ left right => exact RereadOperand.binary left right
  | primary _ ih | access _ ih | operand _ ih => exact ih
  | chained _ ih => exact RereadOperand.whole ih
  | pipe _ _ callee arg =>
      exact (RereadOperand.call callee (List.forall_mem_singleton.mpr arg)).whole
  | awaitPipe _ _ callee arg =>
      exact (RereadOperand.call callee (List.forall_mem_singleton.mpr arg)).await

theorem Normal.spelled {position : Position} {expr : Expr} (normal : expr.Normal position) :
    expr.Spelled := by
  induction normal with
  | ident valid => exact .ident valid
  | integer exact => exact .integer exact.digits
  | member _ valid object => exact .member object valid
  | call _ _ callee args => exact .call callee args
  | binary _ _ _ _ _ _ left right => exact .binary left right
  | primary _ ih | access _ ih | operand _ ih | chained _ ih => exact ih
  | pipe _ _ callee arg => exact .call callee (List.forall_mem_singleton.mpr arg)
  | awaitPipe _ _ callee arg => exact .await (.call callee (List.forall_mem_singleton.mpr arg))

theorem Normal.bare_eq_of_printed {expr other : Expr} (normal : expr.Normal .whole)
    (otherNormal : other.Normal .whole) (same : expr.printed = other.printed) :
    expr.bare = other.bare := by
  have first : expr.RereadWhole := normal.reread
  have second : other.RereadWhole := otherNormal.reread
  have read := first [] trivial
  rw [same, second [] trivial] at read
  simpa using read.symm

end Expr

def Piece.IsInner : Piece → Prop
  | .lexeme kind _ => kind ≠ .keyword .letWord ∧ kind ≠ .punct .semi
  | .blank _ => True
  | .lineComment _ | .blockComment _ | .openComment _ | .stray _ => False

theorem forall_mem_intercalate {α : Type} {p : α → Prop} {separator : List α} {rows : List (List α)}
    (between : ∀ x ∈ separator, p x) (all : ∀ row ∈ rows, ∀ x ∈ row, p x) :
    ∀ x ∈ separator.intercalate rows, p x := by
  induction rows with
  | nil => simp
  | cons row rows ih =>
      rw [List.forall_mem_cons] at all
      cases rows with
      | nil => simpa using all.1
      | cons next rows =>
          rw [List.intercalate_cons_cons, List.forall_mem_append, List.forall_mem_append]
          exact ⟨⟨all.1, between⟩, ih all.2⟩

theorem Expr.Spelled.isInner {expr : Expr} (spelled : expr.Spelled) :
    ∀ piece ∈ expr.printed, piece.IsInner := by
  have mark (punct : Punct) (other : punct ≠ .semi) : (Kind.piece (.punct punct)).IsInner := by
    simpa [Kind.piece, Piece.IsInner] using other
  have symbol (op : Operator) : (Kind.piece (.operator op)).IsInner := by
    simp [Kind.piece, Piece.IsInner]
  have word (chars : List Char) : (Piece.lexeme .ident chars).IsInner := by simp [Piece.IsInner]
  have space : (Piece.blank ' ').IsInner := trivial
  induction spelled with
  | ident | integer => simp [printed, Piece.IsInner]
  | call _ _ callee args =>
      have between : ∀ piece ∈ [Kind.piece (.punct .comma), .blank ' '], piece.IsInner := by
        simp [mark, space]
      have inner := forall_mem_intercalate between (List.forall_mem_map.mpr args)
      simp only [printed, printedAll_eq_map, List.forall_mem_append, List.forall_mem_cons]
      exact ⟨callee, mark .lparen (by decide), inner, mark .rparen (by decide), by simp⟩
  | @member access _ _ _ _ _ object =>
      have suffix : access.kind.piece.IsInner := by
        cases access
        · exact mark .dot (by decide)
        · exact mark .path (by decide)
      simp only [printed, List.forall_mem_append, List.forall_mem_cons]
      exact ⟨object, suffix, word _, by simp⟩
  | @binary op _ _ _ _ _ left right =>
      simp only [printed, List.forall_mem_append, List.forall_mem_cons]
      exact ⟨mark .lparen (by decide), left, space, symbol op, space, right,
        mark .rparen (by decide), by simp⟩
  | await _ inner =>
      simp only [printed, List.forall_mem_cons]
      exact ⟨word _, space, inner⟩

namespace Stmt

theorem Normal.spelled {stmt : Stmt} (normal : stmt.Normal) : stmt.Spelled := by
  cases stmt with
  | declaration decl => exact ⟨normal.1, Expr.Normal.spelled normal.2⟩
  | expression expr => exact Expr.Normal.spelled normal

theorem Spelled.semi_not_mem {stmt : Stmt} (spelled : stmt.Spelled) :
    Kind.piece (.punct .semi) ∉ stmt.printedBody := by
  have absent {expr : Expr} (inner : expr.Spelled) :
      Kind.piece (.punct .semi) ∉ expr.printed :=
    fun member => (inner.isInner _ member).2 rfl
  cases stmt with
  | declaration decl =>
      obtain ⟨mutability, name, value, span⟩ := decl
      cases mutability <;>
        simpa [printedBody, Mutability.printed, Kind.piece] using absent spelled.2
  | expression expr => exact absent spelled

theorem declaration_ne_expression {decl : Declaration} {expr : Expr} (spelled : expr.Spelled) :
    (declaration decl).printedBody ≠ (expression expr).printedBody := by
  intro same
  have member : Kind.piece (.keyword .letWord) ∈ (expression expr).printedBody := by
    rw [← same]
    exact List.mem_cons_self
  exact (spelled.isInner _ member).1 rfl

theorem printedBody_declaration {decl other : Declaration}
    (same : (declaration decl).printedBody = (declaration other).printedBody) :
    decl.mutability = other.mutability ∧ decl.name.name = other.name.name ∧
      decl.value.printed = other.value.printed := by
  obtain ⟨mutability, name, value, span⟩ := decl
  obtain ⟨otherMutability, otherName, otherValue, otherSpan⟩ := other
  cases mutability <;> cases otherMutability <;>
    simp_all [printedBody, Mutability.printed, Kind.piece, String.toList_inj]

theorem Normal.bare_eq_of_printedBody {stmt other : Stmt} (normal : stmt.Normal)
    (otherNormal : other.Normal) (same : stmt.printedBody = other.printedBody) :
    stmt.bare = other.bare := by
  cases stmt with
  | expression expr =>
      cases other with
      | expression other =>
          exact congrArg expression (Expr.Normal.bare_eq_of_printed normal otherNormal same)
      | declaration => exact absurd same.symm (declaration_ne_expression normal.spelled)
  | declaration decl =>
      cases other with
      | expression => exact absurd same (declaration_ne_expression otherNormal.spelled)
      | declaration other =>
          obtain ⟨mutability, name, value⟩ := printedBody_declaration same
          have values := Expr.Normal.bare_eq_of_printed normal.2 otherNormal.2 value
          simp [bare, Declaration.bare, Ident.bare, mutability, name, values]

end Stmt

theorem eq_of_append_cons {α : Type} {mark : α} {xs ys more others : List α} (left : mark ∉ xs)
    (right : mark ∉ ys) (same : xs ++ mark :: more = ys ++ mark :: others) :
    xs = ys ∧ more = others := by
  induction xs generalizing ys with
  | nil =>
      cases ys with
      | nil => simpa using same
      | cons y ys =>
          cases same
          simp at right
  | cons x xs ih =>
      rw [List.mem_cons, not_or] at left
      cases ys with
      | nil =>
          cases same
          simp at left
      | cons y ys =>
          rw [List.mem_cons, not_or] at right
          injection same with first rest
          obtain ⟨front, back⟩ := ih left.2 right.2 rest
          exact ⟨by rw [first, front], back⟩

theorem map_bare_eq_of_printed {stmts others : List Stmt} (normal : ∀ stmt ∈ stmts, stmt.Normal)
    (otherNormal : ∀ stmt ∈ others, stmt.Normal)
    (same : stmts.flatMap Stmt.printed = others.flatMap Stmt.printed) :
    stmts.map Stmt.bare = others.map Stmt.bare := by
  induction stmts generalizing others with
  | nil =>
      cases others with
      | nil => rfl
      | cons other others => simp [Stmt.printed] at same
  | cons stmt stmts ih =>
      cases others with
      | nil => simp [Stmt.printed] at same
      | cons other others =>
          rw [List.forall_mem_cons] at normal otherNormal
          simp only [List.flatMap_cons, Stmt.printed, List.append_assoc, List.cons_append,
            List.nil_append] at same
          obtain ⟨body, rest⟩ := eq_of_append_cons normal.1.spelled.semi_not_mem
            otherNormal.1.spelled.semi_not_mem same
          rw [List.map_cons, List.map_cons, normal.1.bare_eq_of_printedBody otherNormal.1 body,
            ih normal.2 otherNormal.2 (List.tail_eq_of_cons_eq rest)]

mutual

theorem Expr.toString_bare (expr : Expr) : expr.bare.toString = expr.toString := by
  match expr with
  | .ident name => rfl
  | .integer literal => rfl
  | .call callee args span =>
      simp only [Expr.bare, Expr.toString, callee.toString_bare, toStrings_bares args]
  | .member access object property span =>
      simp only [Expr.bare, Expr.toString, object.toString_bare, Ident.bare]
  | .binary op lhs rhs span =>
      simp only [Expr.bare, Expr.toString, lhs.toString_bare, rhs.toString_bare]
  | .await inner span => simp only [Expr.bare, Expr.toString, inner.toString_bare]

theorem toStrings_bares (exprs : List Expr) :
    Expr.toStrings (Expr.bares exprs) = Expr.toStrings exprs := by
  match exprs with
  | [] => rfl
  | expr :: rest =>
      rw [Expr.bares, Expr.toStrings, Expr.toStrings, expr.toString_bare, toStrings_bares rest]

end

theorem Stmt.toString_bare (stmt : Stmt) : stmt.bare.toString = stmt.toString := by
  cases stmt <;>
    simp [Stmt.bare, Declaration.bare, Stmt.toString, Declaration.toString, Expr.toString_bare,
      Ident.bare]

theorem Program.toString_bare (program : Program) : program.bare.toString = program.toString := by
  simp [Program.bare, Program.toString, Function.comp_def, Stmt.toString_bare]

theorem Program.Normal.toString_eq_iff {program other : Program} (normal : program.Normal)
    (otherNormal : other.Normal) :
    program.toString = other.toString ↔ program.bare = other.bare := by
  constructor
  · intro same
    have pieces := Program.pieces_toString fun stmt member => (normal.all stmt member).spelled
    rw [same, Program.pieces_toString fun stmt member => (otherNormal.all stmt member).spelled]
      at pieces
    rw [Program.bare, map_bare_eq_of_printed normal.all otherNormal.all pieces.symm, ← Program.bare]
  · intro same
    rw [← program.toString_bare, same, other.toString_bare]

/-- Two lowered programs are printed alike just if they differ in their places only. -/
theorem toString_eq_iff_of_lower_compile {source source' text text' : String}
    {program other : Program} (lowered : (compile source text).lower = .ok program)
    (otherLowered : (compile source' text').lower = .ok other) :
    program.toString = other.toString ↔ program.bare = other.bare :=
  (normal_of_lower_compile lowered).toString_eq_iff (normal_of_lower_compile otherLowered)

-- A name that is spelled like the word for waiting is not taken for it.
theorem toString_eq_iff_await :
    ∃ program other, (compile "left" "x + 1 ||> await; f(await, y) |> g * h;").lower = .ok program ∧
      (compile "right" "await(await(x + 1)); f(await, y) |> g * h;").lower = .ok other ∧
      (program.toString = other.toString ↔ program.bare = other.bare) := by
  obtain ⟨program, lowered⟩ :=
    (exists_lower_compile_iff "left" "x + 1 ||> await; f(await, y) |> g * h;").mpr
      ⟨List.isEmpty_eq_false_iff.mp (by decide +kernel), by decide +kernel⟩
  obtain ⟨other, otherLowered⟩ :=
    (exists_lower_compile_iff "right" "await(await(x + 1)); f(await, y) |> g * h;").mpr
      ⟨List.isEmpty_eq_false_iff.mp (by decide +kernel), by decide +kernel⟩
  exact ⟨program, other, lowered, otherLowered,
    toString_eq_iff_of_lower_compile lowered otherLowered⟩

-- A call of what is awaited, which no text stands for, is printed like a call that is awaited.
example (callee arg : Expr) (inner outer : Span) :
    (Expr.call (.await callee inner) [arg] outer).toString =
      (Expr.await (.call callee [arg] inner) outer).toString := by
  simp [Expr.toString, String.append_assoc]

end Pipewright
