import Pipewright.Proofs.Outcome

set_option autoImplicit false

namespace Pipewright

open ParseTree

namespace ParseTree

-- The tokens need not be all of the text: they may be cut off anywhere on both sides.
def Statement.ReadFrom (source text : String) (statement : Statement) : Prop :=
  ∃ row, row <:+: (tokenize source text).tokens ∧ statement ∈ (parse row).program.statements

def Statement.marker? (statement : Statement) : Option Token :=
  match statement.clause with
  | .letDecl decl => some decl.name
  | .expression _ => statement.tokens.head?

structure Statement.LowersFrom (origin source : String) (statement : Statement) : Prop where
  foreign : origin ≠ source → ∃ token, statement.marker? = some token ∧
    statement.lower source =
      .error (LowerError.ofConflict ⟨.emptyAt source token.span.start, token.span⟩)
  own : origin = source → ∀ fault, statement.lower source = .error fault →
    ∃ token, IsLeftmost statement.tokens Token.Oversized token ∧
      fault = ⟨.intOutOfRange token.text, token.span⟩

structure Statement.Placed (source : String) (statement : Statement) : Prop where
  grammatical : statement.Grammatical
  spelled : ∀ token ∈ statement.tokens, token.kind.Spells token.text
  inText : InText source statement.tokens

section

variable {source text : String} {statement : Statement}

theorem Statement.ReadFrom.placed (read : statement.ReadFrom source text) :
    statement.Placed source := by
  obtain ⟨row, within, member⟩ := read
  have placed := placed_parse within.sublist
  have tokens := Program.tokens_sublist member
  exact ⟨placed.grammatical statement member,
    fun token inside => placed.spelled token (tokens.subset inside), placed.inText.sublist tokens⟩

theorem Statement.exists_traced (statement : Statement) :
    ∃ token rest, statement.marker? = some token ∧ statement.traced = token :: rest := by
  obtain ⟨clause, semi, span⟩ := statement
  cases clause with
  | letDecl decl => exact ⟨decl.name, _, rfl, rfl⟩
  | expression expr =>
      obtain ⟨rest, first⟩ := expr.exists_tokens
      obtain ⟨others, traced⟩ := expr.exists_traced
      refine ⟨expr.leading, others, ?_, traced⟩
      simp [Statement.marker?, Statement.tokens, Clause.tokens, first]

theorem Statement.lower_of_foreign (grammatical : statement.Grammatical)
    (foreign : ∀ token ∈ statement.tokens, token.span.source ≠ source) :
    ∃ token, statement.marker? = some token ∧ statement.lower source =
      .error (LowerError.ofConflict ⟨.emptyAt source token.span.start, token.span⟩) := by
  obtain ⟨token, rest, marker, traced⟩ := statement.exists_traced
  have other : token.span.source ≠ source :=
    foreign token (statement.mem_tokens_of_mem_traced (by simp [traced]))
  refine ⟨token, marker, (statement.decided grammatical).eq_error ?_⟩
  simp [traced, firstFault?, Token.fault?, other]

theorem Statement.Placed.firstFault?_traced (placed : statement.Placed source) :
    firstFault? source statement.traced = firstFault? source statement.tokens :=
  firstFault?_eq_of_integers placed.inText.own
    (fun _ traced => statement.mem_tokens_of_mem_traced traced)
    (statement.integers_traced placed.grammatical)

theorem Statement.Placed.exists_leftmost (placed : statement.Placed source)
    {fault : Located LowerError} (fails : statement.lower source = .error fault) :
    ∃ token, IsLeftmost statement.tokens Token.Oversized token ∧
      fault = ⟨.intOutOfRange token.text, token.span⟩ := by
  have found := (statement.decided placed.grammatical).firstFault?_eq_some fails
  rw [placed.firstFault?_traced] at found
  exact exists_leftmost_of_firstFault? placed.inText placed.spelled found

theorem Statement.ReadFrom.lowersFrom {origin : String} (read : statement.ReadFrom origin text) :
    statement.LowersFrom origin source := by
  have placed := read.placed
  constructor
  · intro other
    apply Statement.lower_of_foreign placed.grammatical
    intro token member
    rw [placed.inText.own token member]
    exact other
  · rintro rfl fault fails
    exact placed.exists_leftmost fails

end

section

variable {source : String} {program : Program}

theorem Program.lower_of_first {front back : List Statement} {statement : Statement}
    {fault : Located LowerError}
    (whole : program.statements = front ++ statement :: back)
    (earlier : ∀ other ∈ front, ∃ stmt, other.lower source = .ok stmt)
    (fails : statement.lower source = .error fault) : program.lower source = .error fault := by
  rw [Program.lower, whole, mapM_eq_error earlier fails]
  rfl

theorem Program.lower_of_empty (empty : program.statements = []) :
    program.lower source = .error ⟨.emptyProgram, program.span⟩ := by
  rw [Program.lower, empty]
  rfl

theorem Program.lower_of_all
    (grammatical : ∀ statement ∈ program.statements, statement.Grammatical)
    (nonempty : program.statements ≠ [])
    (all : ∀ statement ∈ program.statements, ∃ stmt, statement.lower source = .ok stmt) :
    ∃ lowered, program.lower source = .ok lowered ∧
      program.statements.map (Statement.lower source) = lowered.statements.map .ok ∧
      Span.IsHull (program.statements.map Statement.span) lowered.span := by
  obtain ⟨statements, mapped, results⟩ := exists_mapM all
  -- A statement that can be lowered has only traced tokens of this text, its first included.
  have own : ∀ span ∈ program.statements.map Statement.span, span.source = source := by
    rw [List.forall_mem_map]
    intro statement member
    obtain ⟨stmt, succeeds⟩ := all statement member
    have sound := (statement.decided (grammatical statement member)).firstFault?_eq_none succeeds
    exact (grammatical statement member).source (source_of_firstFault? sound)
  obtain ⟨hull, merged⟩ := Span.exists_mergeAll (by simpa using nonempty) own
  exact ⟨⟨statements, hull⟩, Program.lower_eq_ok_iff.mpr ⟨mapped, merged⟩, results,
    Span.isHull_of_mergeAll merged⟩

theorem Program.lower_ne_notOperator
    (grammatical : ∀ statement ∈ program.statements, statement.Grammatical) (token : Token)
    (span : Span) : program.lower source ≠ .error ⟨.notOperator token, span⟩ := by
  cases first : firstFault? source program.traced with
  | some fault =>
      obtain ⟨other, -, found⟩ := List.exists_of_findSome?_eq_some first
      rw [program.lower_of_fault grammatical first]
      intro same
      cases same
      exact ne_notOperator_of_fault? found rfl
  | none =>
      have lowered := program.lower_of_sound grammatical first
      split at lowered
      · simp [lowered]
      · obtain ⟨result, succeeds⟩ := lowered
        simp [succeeds]

end

end ParseTree

def Edit.compiled? : Edit → Option (String × String)
  | .recompile source text | .append source text => some (source, text)
  | .remove _ | .swap _ _ | .clearErrors | .reparse _ _ => none

def edited (source text : String) (edits : List Edit) : Compilation :=
  edits.foldl Compilation.edit (compile source text)

structure Compilation.MadeOf (texts : List (String × String)) (compilation : Compilation) :
    Prop where
  tokens : ∃ text, (compilation.source, text) ∈ texts ∧
    compilation.tokens = (tokenize compilation.source text).tokens
  statements : ∀ statement ∈ compilation.tree.statements,
    ∃ origin ∈ texts, statement.ReadFrom origin.1 origin.2

theorem exchange_perm {α : Type} (xs : List α) (i j : Nat) : (exchange xs i j).Perm xs := by
  rw [exchange]
  split
  · next x y first second =>
      obtain ⟨before, rfl⟩ := List.getElem?_eq_some_iff.mp first
      obtain ⟨behind, rfl⟩ := List.getElem?_eq_some_iff.mp second
      exact List.set_set_perm before behind
  · exact List.Perm.refl xs

namespace Compilation.MadeOf

variable {texts : List (String × String)} {compilation : Compilation}

theorem compile {source text : String} (member : (source, text) ∈ texts) :
    (compile source text).MadeOf texts where
  tokens := ⟨text, member, rfl⟩
  statements _ inside := ⟨(source, text), member, _, List.infix_refl _, inside⟩

theorem edit (made : compilation.MadeOf texts) (edit : Edit)
    (known : ∀ origin ∈ edit.compiled?, origin ∈ texts) :
    (compilation.edit edit).MadeOf texts := by
  cases edit with
  | recompile source text => exact compile (known _ rfl)
  | append source text =>
      have other : (Pipewright.compile source text).MadeOf texts := compile (known _ rfl)
      exact ⟨made.tokens, List.forall_mem_append.mpr ⟨made.statements, other.statements⟩⟩
  | remove index =>
      exact ⟨made.tokens, fun statement member =>
        made.statements statement (List.mem_of_mem_eraseIdx member)⟩
  | swap i j =>
      exact ⟨made.tokens, fun statement member =>
        made.statements statement ((exchange_perm _ i j).mem_iff.mp member)⟩
  | clearErrors => exact ⟨made.tokens, made.statements⟩
  | reparse start stop =>
      obtain ⟨text, member, same⟩ := made.tokens
      have slice : (compilation.tokens.take stop).drop start <:+: compilation.tokens :=
        (List.drop_suffix _ _).isInfix.trans (List.take_prefix _ _).isInfix
      rw [same] at slice
      refine ⟨made.tokens, fun statement inside => ⟨_, member, _, slice, ?_⟩⟩
      rwa [← same]

theorem edits (made : compilation.MadeOf texts) (edits : List Edit)
    (known : ∀ origin ∈ edits.filterMap Edit.compiled?, origin ∈ texts) :
    (edits.foldl Compilation.edit compilation).MadeOf texts := by
  induction edits generalizing compilation with
  | nil => exact made
  | cons first rest ih =>
      have here : ∀ origin ∈ first.compiled?, origin ∈ texts := fun origin found =>
        known origin (List.mem_filterMap.mpr ⟨first, List.mem_cons_self, found⟩)
      refine ih (made.edit first here) fun origin later => known origin ?_
      obtain ⟨other, member, found⟩ := List.mem_filterMap.mp later
      exact List.mem_filterMap.mpr ⟨other, List.mem_cons_of_mem _ member, found⟩

theorem grammatical (made : compilation.MadeOf texts) :
    ∀ statement ∈ compilation.tree.statements, statement.Grammatical := by
  intro statement member
  obtain ⟨origin, -, read⟩ := made.statements statement member
  exact read.placed.grammatical

end Compilation.MadeOf

/-- The first statement that fails decides. If there is none, the results of the statements are put
together in their order, and the span of the program is the hull of their spans. -/
structure Compilation.LowersInOrder (compilation : Compilation) : Prop where
  first : ∀ front statement back fault,
    compilation.tree.statements = front ++ statement :: back →
    (∀ earlier ∈ front, ∃ stmt, earlier.lower compilation.source = .ok stmt) →
    statement.lower compilation.source = .error fault → compilation.lower = .error fault
  empty : compilation.tree.statements = [] →
    compilation.lower = .error ⟨.emptyProgram, compilation.tree.span⟩
  all : compilation.tree.statements ≠ [] →
    (∀ statement ∈ compilation.tree.statements,
      ∃ stmt, statement.lower compilation.source = .ok stmt) →
    ∃ program script, compilation.lower = .ok program ∧ compilation.toJavaScript = .ok script ∧
      compilation.tree.statements.map
          (fun statement => Stmt.toJavaScript <$> statement.lower compilation.source) =
        script.body.map .ok ∧
      Span.IsHull (compilation.tree.statements.map Statement.span) program.span ∧
      ∀ i j, ∃ swapped, (compilation.edit (.swap i j)).lower = .ok swapped ∧
        swapped.span = program.span

theorem Compilation.lowersInOrder {compilation : Compilation}
    (grammatical : ∀ statement ∈ compilation.tree.statements, statement.Grammatical) :
    compilation.LowersInOrder := by
  refine ⟨fun _ _ _ _ => Program.lower_of_first, Program.lower_of_empty, ?_⟩
  intro nonempty all
  obtain ⟨program, lowered, results, hull⟩ := Program.lower_of_all grammatical nonempty all
  refine ⟨program, program.toJavaScript, lowered, ?_, ?_, hull, ?_⟩
  · rw [Compilation.toJavaScript, Compilation.lower, lowered]
    rfl
  · calc compilation.tree.statements.map
          (fun statement => Stmt.toJavaScript <$> statement.lower compilation.source)
      _ = (compilation.tree.statements.map (Statement.lower compilation.source)).map
            (Stmt.toJavaScript <$> ·) := by rw [List.map_map]; rfl
      _ = (program.statements.map Except.ok).map (Stmt.toJavaScript <$> ·) := by rw [results]
      _ = program.toJavaScript.body.map .ok := by
          rw [Program.toJavaScript, List.map_map, List.map_map]
          rfl
  · intro i j
    have same (statement : Statement) :
        statement ∈ (compilation.edit (.swap i j)).tree.statements ↔
          statement ∈ compilation.tree.statements := (exchange_perm _ i j).mem_iff
    have some : (compilation.edit (.swap i j)).tree.statements ≠ [] := by
      have length := (exchange_perm compilation.tree.statements i j).length_eq
      rw [ne_eq, ← List.length_eq_zero_iff] at nonempty ⊢
      exact length ▸ nonempty
    obtain ⟨swapped, succeeds, -, around⟩ := Program.lower_of_all
      (fun statement member => grammatical statement ((same statement).mp member)) some
      (fun statement member => all statement ((same statement).mp member))
    refine ⟨swapped, succeeds, around.eq hull fun span => ?_⟩
    exact ((exchange_perm compilation.tree.statements i j).map Statement.span).mem_iff

/-- Edits only ever bring in statements that were read from compiled texts. Lowering takes them in
their order, and what it says of each depends on whether it is from the text at hand. -/
theorem lower_edited (source text : String) (edits : List Edit) :
    (∀ statement ∈ (edited source text edits).tree.statements,
      ∃ origin ∈ (source, text) :: edits.filterMap Edit.compiled?,
        statement.ReadFrom origin.1 origin.2) ∧
    (∀ statement ∈ (edited source text edits).tree.statements, ∀ origin written,
      statement.ReadFrom origin written →
        statement.LowersFrom origin (edited source text edits).source) ∧
    (edited source text edits).LowersInOrder ∧
    ∀ token span, (edited source text edits).lower ≠ .error ⟨.notOperator token, span⟩ := by
  have made : (edited source text edits).MadeOf
      ((source, text) :: edits.filterMap Edit.compiled?) :=
    (Compilation.MadeOf.compile List.mem_cons_self).edits edits
      fun origin found => List.mem_cons_of_mem _ found
  refine ⟨made.statements, ?_, Compilation.lowersInOrder made.grammatical,
    Program.lower_ne_notOperator made.grammatical⟩
  intro statement _ origin written read
  exact read.lowersFrom

-- Once the statement of the other source comes first, it fails before the integer does.
example :
    (edited "main" "18446744073709551616;" [.append "lib" "let y = 9;"]).lower.map Program.span =
      .error ⟨.intOutOfRange "18446744073709551616", .ofRange "main" 0 20⟩ ∧
    (edited "main" "18446744073709551616;"
        [.append "lib" "let y = 9;", .swap 0 1]).lower.map Program.span =
      .error ⟨.spanConflict ⟨.emptyAt "main" 4, .ofRange "lib" 4 5⟩, .ofRange "lib" 4 5⟩ := by
  decide +kernel

end Pipewright
