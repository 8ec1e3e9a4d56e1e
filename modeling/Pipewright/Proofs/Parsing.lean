import Mathlib.Data.List.TakeWhile
import Pipewright.Proofs.Recovery

set_option autoImplicit false

namespace Pipewright.ParseTree

open Grammar

def readable (tokens : List Token) : List Token :=
  (tokens.filter fun token => token.kind ≠ .invalid).takeWhile fun token => token.kind ≠ .eof

def endToken (eof : Token) (tokens : List Token) : Token :=
  (tokens.find? fun token => token.kind = .eof).getD eof

theorem kind_ne_of_mem_readable {tokens : List Token} :
    ∀ token ∈ readable tokens, token.kind ≠ .eof := by
  intro token member
  simpa using List.mem_takeWhile_imp member

theorem kind_endToken {eof : Token} (kind : eof.kind = .eof) (tokens : List Token) :
    (endToken eof tokens).kind = .eof := by
  unfold endToken
  cases found : tokens.find? fun token => token.kind = .eof with
  | none => exact kind
  | some token => simpa using List.find?_some found

theorem head?_getD_eq_endToken (eof : Token) {body : List Token}
    (none : body.takeWhile (fun token => token.kind ≠ .eof) = []) :
    body.head?.getD eof = endToken eof body := by
  cases body with
  | nil => rfl
  | cons token rest =>
      have kind : token.kind = .eof := by
        by_contra other
        simp [other] at none
      simp [endToken, kind]

theorem readings_takeWhile (eof : Token) (state : Option State) (tokens : List Token) :
    readings eof state tokens =
      readings (endToken eof tokens) state
        (tokens.takeWhile fun token => token.kind ≠ .eof) := by
  induction tokens generalizing state with
  | nil => rfl
  | cons token tokens ih =>
      by_cases kind : token.kind = .eof
      · simp [readings, endToken, kind]
      · have later : endToken eof (token :: tokens) = endToken eof tokens := by
          simp [endToken, kind]
        rw [later, List.takeWhile_cons_of_pos (by simp [kind])]
        simp only [readings, if_neg kind, ih]

theorem takeWhile_splitEof (tokens : List Token) :
    (splitEof tokens).2.kind = .eof ∧
      (splitEof tokens).1.takeWhile (fun token => token.kind ≠ .eof) =
        tokens.takeWhile fun token => token.kind ≠ .eof := by
  unfold splitEof
  split
  · next last =>
      rw [List.getLast?_eq_none_iff.mp last]
      exact ⟨rfl, rfl⟩
  · next last ends =>
      split
      · next kind =>
          obtain ⟨front, rfl⟩ := List.getLast?_eq_some_iff.mp ends
          refine ⟨kind, ?_⟩
          rw [List.dropLast_concat, List.takeWhile_append]
          -- The token that was split off is an end of input, so it is not taken in any case.
          split
          · next all =>
              have taken := List.takeWhile_prefix (l := front) fun token => token.kind ≠ .eof
              simpa [kind] using taken.eq_of_length all
          · rfl
      · exact ⟨rfl, rfl⟩

theorem Recovers.nonempty {eof : Token} {tokens : List Token} {read : Readings}
    (recovers : Recovers eof (cut tokens) read) (nonempty : tokens ≠ []) :
    ¬(read.statements = [] ∧ read.errors = []) := by
  rintro ⟨noStatements, noErrors⟩
  have statements := recovers.statements
  have errors := recovers.errors
  rw [noStatements, List.map_nil, eq_comm, List.filter_eq_nil_iff] at statements
  rw [noErrors, List.forall₂_nil_left_iff, Cut.faults_eq_nil] at errors
  have chunks : (cut tokens).chunks = [] := by
    rw [List.eq_nil_iff_forall_not_mem]
    intro chunk member
    exact statements chunk member (by simpa using errors.1 chunk member)
  have whole := (cut_divides tokens).tokens
  rw [chunks, errors.2] at whole
  exact nonempty whole.symm

-- The token that the program takes its span from, if it is empty, need not be the one where reading
-- ends: an end of input may also stand in the middle.
theorem parse_eq (tokens : List Token) :
    ∃ last eof : Token, last.kind = .eof ∧ parse tokens =
      ⟨.make (readings last (some .start) (readable tokens)).statements eof,
        if readable tokens = [] then [ParseError.refuse .statement last]
        else (readings last (some .start) (readable tokens)).errors⟩ := by
  generalize kept : (tokens.filter fun token => token.kind ≠ .invalid) = valid
  obtain ⟨kind, same⟩ := takeWhile_splitEof valid
  generalize split : splitEof valid = parts at kind same
  obtain ⟨body, eof⟩ := parts
  have here : body.takeWhile (fun token => token.kind ≠ .eof) = readable tokens := by
    rw [same, readable, kept]
  have reads := readings_takeWhile eof (some .start) body
  rw [here] at reads
  refine ⟨endToken eof body, eof, kind_endToken kind body, ?_⟩
  simp only [parse, kept, split, reads]
  -- With nothing to read there is neither a statement nor an error, and one is added.
  by_cases empty : readable tokens = []
  · rw [empty] at here
    simp [empty, readings, atEnd, head?_getD_eq_endToken eof here]
  · have recovers := readings_recovers (endToken eof body) (readable tokens) kind_ne_of_mem_readable
    have found := recovers.nonempty empty
    rw [← List.isEmpty_iff, ← List.isEmpty_iff, ← Bool.and_eq_true] at found
    simp [empty, found]

@[simp] theorem Program.statements_make (statements : List Statement) (eof : Token) :
    (Program.make statements eof).statements = statements := by
  unfold Program.make
  split <;> rfl

theorem Program.Grammatical.make {statements : List Statement} (eof : Token)
    (nonempty : statements ≠ []) (all : ∀ statement ∈ statements, statement.Grammatical) :
    (Program.make statements eof).Grammatical := by
  have begins := List.head?_eq_some_head nonempty
  have ends := List.getLast?_eq_some_getLast nonempty
  refine ⟨by rwa [Program.statements_make], _, _, by rwa [Program.statements_make],
    by rwa [Program.statements_make], ?_⟩
  simp only [Program.make, begins, ends]

theorem grammatical_parse {tokens : List Token}
    (nonempty : (parse tokens).program.statements ≠ []) :
    (parse tokens).program.Grammatical := by
  obtain ⟨last, eof, -, same⟩ := parse_eq tokens
  have recovers := readings_recovers last (readable tokens) kind_ne_of_mem_readable
  rw [same, Program.statements_make] at nonempty
  rw [same]
  exact .make eof nonempty recovers.grammatical

theorem grammatical_of_mem_parse (tokens : List Token) :
    ∀ statement ∈ (parse tokens).program.statements, statement.Grammatical := by
  intro statement member
  exact (grammatical_parse (List.ne_nil_of_mem member)).1 statement member

theorem faults_cut_eq_nil_iff (eof : Token) {tokens : List Token} (nonempty : tokens ≠ []) :
    (cut tokens).faults eof = [] ↔ Derives (.rule .program) (tokens.map Token.kind) := by
  rw [derives_program_iff, Cut.faults_eq_nil]
  constructor
  · rintro ⟨accepted, empty⟩
    obtain ⟨statements, grammatical, same⟩ := exists_statements (cut tokens).chunks
      fun chunk member => (derives_statement_iff chunk).mp (accepted chunk member)
    have whole := (cut_divides tokens).tokens
    rw [empty, List.append_nil, ← same] at whole
    refine ⟨statements, ?_, grammatical, whole⟩
    rintro rfl
    exact nonempty whole.symm
  · rintro ⟨statements, -, grammatical, rfl⟩
    rw [cut_flatMap statements grammatical]
    refine ⟨?_, rfl⟩
    intro chunk member
    obtain ⟨statement, inside, rfl⟩ := List.mem_map.mp member
    exact statement.derives (grammatical statement inside)

theorem not_derives_program_nil : ¬Derives (.rule .program) [] := by
  intro derived
  obtain ⟨statements, nonempty, -, empty⟩ := (derives_program_iff []).mp derived
  obtain ⟨statement, others, rfl⟩ := List.exists_cons_of_ne_nil nonempty
  simp [Statement.tokens] at empty

theorem statements_parse (tokens : List Token) :
    (parse tokens).program.statements.map Statement.tokens =
      (cut (readable tokens)).chunks.filter fun chunk => IsStatement chunk := by
  obtain ⟨last, eof, -, same⟩ := parse_eq tokens
  rw [same, Program.statements_make]
  exact (readings_recovers last (readable tokens) kind_ne_of_mem_readable).statements

theorem errors_parse_eq_nil_iff (tokens : List Token) :
    (parse tokens).errors = [] ↔ Derives (.rule .program) ((readable tokens).map Token.kind) := by
  obtain ⟨last, eof, -, same⟩ := parse_eq tokens
  have recovers := readings_recovers last (readable tokens) kind_ne_of_mem_readable
  rw [same]
  by_cases empty : readable tokens = []
  · simp [empty, not_derives_program_nil]
  · rw [if_neg empty, ← faults_cut_eq_nil_iff last empty, ← List.length_eq_zero_iff,
      recovers.halts.length_eq, List.length_eq_zero_iff]

theorem ne_nil_of_derives {tokens : List Token}
    (derives : Derives (.rule .program) (tokens.map Token.kind)) : tokens ≠ [] := by
  rintro rfl
  exact not_derives_program_nil derives

theorem tokens_parse_of_derives {tokens : List Token}
    (derives : Derives (.rule .program) ((readable tokens).map Token.kind)) :
    (parse tokens).program.tokens = readable tokens := by
  have faults := (faults_cut_eq_nil_iff (.eofAt "" 0) (ne_nil_of_derives derives)).mpr derives
  obtain ⟨accepted, empty⟩ := Cut.faults_eq_nil.mp faults
  have whole := (cut_divides (readable tokens)).tokens
  rw [empty, List.append_nil] at whole
  rw [Program.tokens, List.flatMap_def, statements_parse, List.filter_eq_self.mpr, whole]
  simpa using accepted

/-- The statements are the chunks that the grammar derives, in their order. Each other chunk gives
one error, found in it, and so does a remainder; without any token a statement is missing. -/
theorem parse_follows_grammar (tokens : List Token) :
    (cut (readable tokens)).Divides (readable tokens) ∧
      (parse tokens).program.statements.map Statement.tokens =
        (cut (readable tokens)).chunks.filter (fun chunk => IsStatement chunk) ∧
      (∀ statement ∈ (parse tokens).program.statements, statement.Grammatical) ∧
      (∃ eof : Token, eof.kind = .eof ∧
        if readable tokens = [] then
          (parse tokens).errors = [ParseError.refuse .statement eof]
        else List.Forall₂ FoundIn (parse tokens).errors ((cut (readable tokens)).faults eof)) ∧
      ((parse tokens).errors = [] ↔
        Derives (.rule .program) ((readable tokens).map Token.kind)) := by
  obtain ⟨last, eof, kind, same⟩ := parse_eq tokens
  have recovers := readings_recovers last (readable tokens) kind_ne_of_mem_readable
  rw [same, Program.statements_make]
  refine ⟨cut_divides _, recovers.statements, recovers.grammatical, ⟨last, kind, ?_⟩, ?_⟩
  · by_cases empty : readable tokens = []
    · simp only [if_pos empty]
    · simpa only [if_neg empty] using recovers.errors
  · by_cases empty : readable tokens = []
    · simp [empty, not_derives_program_nil]
    · rw [if_neg empty, ← faults_cut_eq_nil_iff last empty, ← List.length_eq_zero_iff,
        recovers.errors.length_eq, List.length_eq_zero_iff]

theorem readings_flatMap (eof : Token) (statements : List Statement)
    (grammatical : ∀ statement ∈ statements, statement.Grammatical) :
    readings eof (some .start) (statements.flatMap Statement.tokens) = ⟨statements, []⟩ := by
  induction statements with
  | nil => rfl
  | cons statement statements ih =>
      obtain ⟨first, others⟩ := List.forall_mem_cons.mp grammatical
      rw [List.flatMap_cons, readings_finish (statement.finish?_tokens first), ih others]
      rfl

theorem Program.Grammatical.kind_ne_invalid {program : Program}
    (grammatical : program.Grammatical) :
    ∀ token ∈ program.tokens, token.kind ≠ .invalid := by
  intro token member
  obtain ⟨statement, inside, here⟩ := List.mem_flatMap.mp member
  have finishes := statement.finish?_tokens (grammatical.1 statement inside)
  exact (finish?_kind_ne finishes token here).2

theorem parse_tokens_append_eof (program : Program) (grammatical : program.Grammatical)
    (eof : Token) (ends : eof.kind = .eof) :
    parse (program.tokens ++ [eof]) = ⟨program, []⟩ := by
  have valid : (program.tokens ++ [eof]).filter (fun token => token.kind ≠ .invalid) =
      program.tokens ++ [eof] := by
    rw [List.filter_eq_self]
    intro token member
    obtain inside | rfl := List.mem_append.mp member |>.imp id List.mem_singleton.mp
    · simpa using grammatical.kind_ne_invalid token inside
    · simp [ends]
  have parts : splitEof (program.tokens ++ [eof]) = (program.tokens, eof) := by
    simp [splitEof, ends]
  have reads := readings_flatMap eof program.statements grammatical.1
  rw [← Program.tokens] at reads
  obtain ⟨-, first, last, begins, stops, span⟩ := grammatical
  have nonempty : program.statements.isEmpty = false := by
    cases listed : program.statements with
    | nil => simp [listed] at begins
    | cons => rfl
  have whole : Program.make program.statements eof = program := by
    obtain ⟨statements, _⟩ := program
    simp only at begins stops span
    simp [Program.make, begins, stops, span]
  simp only [parse, valid, parts, reads, nonempty, Bool.false_and, whole]
  rfl

-- `let mut x = a.b(1, c) + d; y::z();`
def sampleProgram : Program :=
  let word (kind : Kind) (text : String) (start : Nat) : Token :=
    ⟨kind, text, .ofRange "main" start (start + text.length)⟩
  let operand (start : Nat) (text : String) : Call :=
    .make (.make (.ident (word .ident text start)) none) none
  let one : Call := .make (.make (.integer (word .integer "1" 16)) none) none
  let args : Arguments := .make (word (.punct .lparen) "(" 15)
    [.make one [], .make (operand 19 "c") []] [word (.punct .comma) "," 17]
    (word (.punct .rparen) ")" 20)
  let callee : Member := .make (.ident (word .ident "a" 12))
    (some (.make .dot (word (.punct .dot) "." 13) (word .ident "b" 14)))
  let sum : Expression := .make (.make callee (some args))
    [(word (.operator .add) "+" 22, operand 24 "d")]
  let path : Member := .make (.ident (word .ident "y" 27))
    (some (.make .path (word (.punct .path) "::" 28) (word .ident "z" 30)))
  let none : Arguments := .make (word (.punct .lparen) "(" 31) [] []
    (word (.punct .rparen) ")" 32)
  let decl : LetDecl := .make (word (.keyword .letWord) "let" 0)
    (some (word (.keyword .mutWord) "mut" 4)) (word .ident "x" 8) (word (.punct .equal) "=" 10) sum
  .make
    [.make (.letDecl decl) (word (.punct .semi) ";" 25),
     .make (.expression (.make (.make path (some none)) [])) (word (.punct .semi) ";" 33)]
    (.eofAt "main" 34)

theorem parse_sampleProgram :
    sampleProgram.Grammatical ∧
      sampleProgram.tokens.map Token.text = ["let", "mut", "x", "=", "a", ".", "b", "(", "1", ",",
        "c", ")", "+", "d", ";", "y", "::", "z", "(", ")", ";"] ∧
      parse (sampleProgram.tokens ++ [.eofAt "main" 34]) = ⟨sampleProgram, []⟩ := by
  have grammatical : sampleProgram.Grammatical := by
    simp [sampleProgram, Program.Grammatical, Program.make, Statement.make, Statement.Grammatical,
      Clause.Grammatical, Clause.span, LetDecl.make, LetDecl.Grammatical, Expression.make,
      Expression.Grammatical, tailGrammatical, Call.make, Call.Grammatical, Arguments.make,
      Arguments.Grammatical, allGrammatical, Member.make, Member.Grammatical, Suffix.make,
      Suffix.Grammatical, Access.kind, Primary.Grammatical]
  exact ⟨grammatical, rfl, parse_tokens_append_eof sampleProgram grammatical _ rfl⟩

end Pipewright.ParseTree
