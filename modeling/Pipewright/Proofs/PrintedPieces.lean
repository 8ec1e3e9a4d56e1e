import Pipewright.Program.Printer
import Pipewright.Proofs.Spelling
import Pipewright.Proofs.WrittenTrees

set_option autoImplicit false

namespace Pipewright

open Text

def Kind.piece (kind : Kind) : Piece :=
  .lexeme kind kind.chars

namespace Expr

mutual

def printed : Expr → List Piece
  | .ident name => [.lexeme .ident name.name.toList]
  | .integer literal => [.lexeme .integer literal.raw.toList]
  | .call callee args _ =>
      callee.printed ++ Kind.piece (.punct .lparen) ::
        ([Kind.piece (.punct .comma), .blank ' '].intercalate (printedAll args) ++
          [Kind.piece (.punct .rparen)])
  | .member access object property _ =>
      object.printed ++ [access.kind.piece, .lexeme .ident property.name.toList]
  | .binary op lhs rhs _ =>
      Kind.piece (.punct .lparen) ::
        (lhs.printed ++ .blank ' ' :: Kind.piece (.operator op) :: .blank ' ' ::
          (rhs.printed ++ [Kind.piece (.punct .rparen)]))
  | .await expr _ => .lexeme .ident "await".toList :: .blank ' ' :: expr.printed

def printedAll : List Expr → List (List Piece)
  | [] => []
  | expr :: rest => expr.printed :: printedAll rest

end

@[simp] theorem printedAll_eq_map (exprs : List Expr) : printedAll exprs = exprs.map printed := by
  induction exprs with
  | nil => rfl
  | cons expr rest ih => simp [printedAll, ih]

inductive Spelled : Expr → Prop
  | ident {name : Ident} : IsIdentifier name.name → Spelled (.ident name)
  | integer {literal : IntLiteral} :
      isDecimal literal.raw.toList = true → Spelled (.integer literal)
  | call {callee : Expr} {args : List Expr} {span : Span} :
      Spelled callee → (∀ arg ∈ args, Spelled arg) → Spelled (.call callee args span)
  | member {access : Access} {object : Expr} {property : Ident} {span : Span} :
      Spelled object → IsIdentifier property.name → Spelled (.member access object property span)
  | binary {op : Operator} {lhs rhs : Expr} {span : Span} :
      Spelled lhs → Spelled rhs → Spelled (.binary op lhs rhs span)
  | await {expr : Expr} {span : Span} : Spelled expr → Spelled (.await expr span)

end Expr

def Mutability.printed : Mutability → List Piece
  | .mutable => [Kind.piece (.keyword .mutWord), .blank ' ']
  | .immutable => []

def Stmt.printedBody : Stmt → List Piece
  | .declaration decl =>
      Kind.piece (.keyword .letWord) :: .blank ' ' ::
        (decl.mutability.printed ++ .lexeme .ident decl.name.name.toList :: .blank ' ' ::
          Kind.piece (.punct .equal) :: .blank ' ' :: decl.value.printed)
  | .expression expr => expr.printed

def Stmt.printed (stmt : Stmt) : List Piece :=
  stmt.printedBody ++ [Kind.piece (.punct .semi), .blank '\n']

def Program.printed (program : Program) : List Piece :=
  program.statements.flatMap Stmt.printed

def Stmt.Spelled : Stmt → Prop
  | .declaration decl => IsIdentifier decl.name.name ∧ decl.value.Spelled
  | .expression expr => expr.Spelled

def Cuts (text : List Char) (row : List Piece) : Prop :=
  ∀ rest, pieces (text ++ rest) = row ++ pieces rest

def CutsWord (text : List Char) (row : List Piece) : Prop :=
  ∀ rest, (∀ c ∈ rest.head?, isWordChar c = false) → pieces (text ++ rest) = row ++ pieces rest

section

variable {text more : List Char} {row others : List Piece}

theorem Cuts.word (cuts : Cuts text row) : CutsWord text row :=
  fun rest _ => cuts rest

theorem Cuts.append (cuts : Cuts text row) (next : CutsWord more others) :
    CutsWord (text ++ more) (row ++ others) := by
  intro rest stops
  rw [List.append_assoc, cuts, next rest stops, List.append_assoc]

theorem CutsWord.append (cuts : CutsWord text row) (next : CutsWord more others)
    (ends : ∃ c ∈ more.head?, isWordChar c = false) : CutsWord (text ++ more) (row ++ others) := by
  obtain ⟨c, head, noLetter⟩ := ends
  obtain ⟨cs, rfl⟩ := List.head?_eq_some_iff.mp head
  intro rest stops
  rw [List.append_assoc, cuts _ (by simpa using noLetter), next rest stops, List.append_assoc]

end

theorem cutsWord_nil : CutsWord [] [] :=
  fun _ _ => rfl

theorem cuts_blank {b : Char} (blank : isBlank b = true) : Cuts [b] [.blank b] :=
  pieces_blank blank

theorem cuts_space : Cuts [' '] [.blank ' '] :=
  cuts_blank (by decide)

theorem cutsWord_identifier {name : String} (valid : IsIdentifier name) :
    CutsWord name.toList [.lexeme .ident name.toList] :=
  fun _ stops => pieces_identifier valid stops

theorem cuts_mark (mark : Punct) (whole : mark ∉ [.colon, .equal, .excl]) :
    Cuts (Kind.punct mark).chars [Kind.piece (.punct mark)] := by
  intro rest
  apply pieces_of_ofSymbol?
  · rintro (⟨c, head, blank⟩ | ⟨_, line⟩ | ⟨_, block⟩)
    · revert blank
      cases mark <;> cases head <;> decide
    · cases mark <;> cases line
    · cases mark <;> cases block
  · cases mark with
    | colon | equal | excl => simp at whole
    | _ => rfl

theorem cuts_access (access : Access) : Cuts access.spelling.toList [access.kind.piece] := by
  cases access
  · exact cuts_mark .dot (by decide)
  · exact cuts_mark .path (by decide)

theorem cuts_spelling {kind : Kind} {text : String} (spelled : kind.spelling? = some text) :
    Cuts (text.toList ++ [' ']) [kind.piece, .blank ' '] := by
  intro rest
  have space : isBlank ' ' = true := by decide
  rw [List.append_assoc, List.singleton_append,
    pieces_of_spells (Kind.spells_of_spelling? spelled) space, pieces_blank space, Kind.piece,
    Kind.chars, spelled]
  rfl

namespace Expr

theorem cutsWord_arguments {args : List Expr}
    (all : ∀ arg ∈ args, CutsWord arg.toString.toList arg.printed) :
    CutsWord ([',', ' '].intercalate (args.map fun arg => arg.toString.toList))
      ([Kind.piece (.punct .comma), .blank ' '].intercalate (args.map printed)) := by
  induction args with
  | nil => simpa using cutsWord_nil
  | cons arg args ih =>
      rw [List.forall_mem_cons] at all
      cases args with
      | nil => simpa using all.1
      | cons next args =>
          have comma : Cuts [','] [Kind.piece (.punct .comma)] := cuts_mark .comma (by decide)
          have behind := comma.append (cuts_space.append (ih all.2))
          simpa [List.intercalate_cons_cons] using all.1.append behind ⟨',', rfl, by decide⟩

theorem Spelled.cutsWord {expr : Expr} (spelled : expr.Spelled) :
    CutsWord expr.toString.toList expr.printed := by
  have opening : Cuts ['('] [Kind.piece (.punct .lparen)] := cuts_mark .lparen (by decide)
  have closing : Cuts [')'] [Kind.piece (.punct .rparen)] := cuts_mark .rparen (by decide)
  induction spelled with
  | ident valid => exact cutsWord_identifier valid
  | integer digits => exact fun _ stops => pieces_integer digits stops
  | call _ _ callee args =>
      have inner := (cutsWord_arguments args).append closing.word ⟨')', rfl, by decide⟩
      have whole := callee.append (opening.append inner) ⟨'(', rfl, by decide⟩
      simpa [Expr.toString, printed, String.toList_intercalate, Function.comp_def] using whole
  | @member access _ property _ _ valid object =>
      have suffix := (cuts_access access).append (cutsWord_identifier valid)
      have stops : ∃ c ∈ (access.spelling.toList ++ property.name.toList).head?,
          isWordChar c = false := by
        cases access
        · exact ⟨'.', rfl, by decide⟩
        · exact ⟨':', rfl, by decide⟩
      simpa [Expr.toString, printed] using object.append suffix stops
  | @binary op _ _ _ _ _ left right =>
      have symbol : Cuts (op.spelling.toList ++ [' ']) [Kind.piece (.operator op), .blank ' '] :=
        cuts_spelling rfl
      have inner := right.append closing.word ⟨')', rfl, by decide⟩
      have behind := cuts_space.append (symbol.append inner)
      have whole := opening.append (left.append behind ⟨' ', rfl, by decide⟩)
      simpa [Expr.toString, printed] using whole
  | await _ inner =>
      have valid : IsIdentifier "await" := by decide
      have word := cutsWord_identifier valid
      have whole := word.append (cuts_space.append inner) ⟨' ', rfl, by decide⟩
      simpa [Expr.toString, printed] using whole

end Expr

theorem Declaration.cutsWord {decl : Declaration} (valid : IsIdentifier decl.name.name)
    (spelled : decl.value.Spelled) :
    CutsWord decl.toString.toList (Stmt.declaration decl).printedBody := by
  have word (keyword : Keyword) :
      Cuts (keyword.spelling.toList ++ [' ']) [Kind.piece (.keyword keyword), .blank ' '] :=
    cuts_spelling rfl
  have equal : Cuts (Punct.equal.spelling.toList ++ [' '])
      [Kind.piece (.punct .equal), .blank ' '] := cuts_spelling rfl
  have value := cuts_space.append (equal.append spelled.cutsWord)
  have named := (cutsWord_identifier valid).append value ⟨' ', rfl, by decide⟩
  obtain ⟨mutability, name, expr, span⟩ := decl
  cases mutability with
  | mutable =>
      have whole := (word .letWord).append ((word .mutWord).append named)
      simpa [Declaration.toString, Stmt.printedBody, Mutability.printed, Keyword.spelling,
        Punct.spelling] using whole
  | immutable =>
      have whole := (word .letWord).append named
      simpa [Declaration.toString, Stmt.printedBody, Mutability.printed, Keyword.spelling,
        Punct.spelling] using whole

theorem Stmt.Spelled.exists_cutsWord {stmt : Stmt} (spelled : stmt.Spelled) :
    ∃ text, CutsWord text stmt.printedBody ∧
      (stmt.toString ++ "\n").toList = text ++ [';', '\n'] := by
  cases stmt with
  | declaration decl =>
      exact ⟨_, Declaration.cutsWord spelled.1 spelled.2, by simp [Stmt.toString]⟩
  | expression expr => exact ⟨_, Expr.Spelled.cutsWord spelled, by simp [Stmt.toString]⟩

theorem Stmt.Spelled.cuts {stmt : Stmt} (spelled : stmt.Spelled) :
    Cuts (stmt.toString ++ "\n").toList stmt.printed := by
  obtain ⟨text, cuts, same⟩ := spelled.exists_cutsWord
  intro rest
  have semi : pieces (';' :: '\n' :: rest) = Kind.piece (.punct .semi) :: pieces ('\n' :: rest) :=
    cuts_mark .semi (by decide) ('\n' :: rest)
  have stops : ∀ c ∈ (';' :: '\n' :: rest).head?, isWordChar c = false := by
    rintro _ ⟨⟩
    decide
  rw [same, List.append_assoc, List.cons_append, List.singleton_append, cuts _ stops, semi,
    pieces_blank (by decide), Stmt.printed, List.append_assoc]
  rfl

theorem Program.pieces_toString {program : Program}
    (spelled : ∀ stmt ∈ program.statements, stmt.Spelled) :
    pieces program.toString.toList = program.printed := by
  rw [Program.toString, Program.printed, String.toList_join, List.flatMap_map]
  generalize program.statements = stmts at spelled
  induction stmts with
  | nil => rw [List.flatMap_nil, List.flatMap_nil, pieces]
  | cons stmt stmts ih =>
      rw [List.forall_mem_cons] at spelled
      rw [List.flatMap_cons, List.flatMap_cons, spelled.1.cuts, ih spelled.2]

end Pipewright
