import Pipewright.CommandLine.Run
import Pipewright.Proofs.Outcome

set_option autoImplicit false

namespace Pipewright

open ParseTree Grammar

theorem Compilation.diagnostics_eq_nil_iff (compilation : Compilation) (text : String) :
    compilation.diagnostics text = [] ↔
      compilation.lexErrors = [] ∧ compilation.parseErrors = [] := by
  rw [Compilation.diagnostics, ← List.length_eq_zero_iff, List.length_map, List.length_mergeSort,
    List.length_eq_zero_iff]
  simp

def Lexed.kinds (lexed : Lexed) : List Kind :=
  (lexed.tokens.takeWhile fun token => token.kind ≠ .eof).map Token.kind

def Lexed.chunks (lexed : Lexed) : List (List Token) :=
  (cut (readable lexed.tokens)).chunks

section

variable {source text : String}

theorem readable_of_errors_eq_nil (clean : (tokenize source text).errors = []) :
    readable (tokenize source text).tokens =
      (tokenize source text).tokens.takeWhile fun token => token.kind ≠ .eof := by
  rw [readable, List.filter_eq_self.mpr]
  simpa using kind_ne_invalid_of_errors_eq_nil clean

theorem map_kind_readable (clean : (tokenize source text).errors = []) :
    (readable (tokenize source text).tokens).map Token.kind = (tokenize source text).kinds := by
  rw [readable_of_errors_eq_nil clean, Lexed.kinds]

theorem diagnostics_compile_eq_nil_iff :
    (compile source text).diagnostics text = [] ↔
      (tokenize source text).errors = [] ∧
        Derives (.rule .program) (tokenize source text).kinds := by
  rw [Compilation.diagnostics_eq_nil_iff]
  refine and_congr_right fun clean => ?_
  rw [← map_kind_readable clean]
  exact errors_parse_eq_nil_iff _

theorem exists_lower_compile_of_derives (clean : (tokenize source text).errors = [])
    (derives : Derives (.rule .program) (tokenize source text).kinds) :
    (∃ program, (compile source text).lower = .ok program) ↔
      ∀ token ∈ (tokenize source text).tokens, ¬token.Oversized := by
  obtain ⟨front, whole, all⟩ := exists_tokens_tokenize source text
  rw [← map_kind_readable clean] at derives
  -- All tokens but the end of input, which is no integer, are in the tree.
  have tree : (compile source text).tree.tokens = front := by
    rw [compile, tokens_parse_of_derives derives, readable_of_errors_eq_nil clean, whole,
      takeWhile_concat_eofAt fun token member => (all token member).1]
  have statements : (compile source text).tree.statements ≠ [] := by
    obtain ⟨token, member⟩ := List.exists_mem_of_ne_nil _ (ne_nil_of_derives derives)
    rw [← tokens_parse_of_derives derives] at member
    exact statements_ne_nil_of_mem_tokens member
  rw [exists_lower_compile_iff, tree, whole, List.forall_mem_append]
  simp [statements, Token.Oversized, Token.eofAt]

theorem exists_lower_compile_iff_chunks :
    (∃ program, (compile source text).lower = .ok program) ↔
      (∃ chunk ∈ (tokenize source text).chunks, IsStatement chunk) ∧
        ∀ chunk ∈ (tokenize source text).chunks, IsStatement chunk →
          ∀ token ∈ chunk, ¬token.Oversized := by
  have statements : (compile source text).tree.statements.map Statement.tokens =
      (tokenize source text).chunks.filter fun chunk => IsStatement chunk :=
    statements_parse (tokenize source text).tokens
  have listed : (compile source text).tree.statements ≠ [] ↔
      (tokenize source text).chunks.filter (fun chunk => IsStatement chunk) ≠ [] := by
    rw [← statements, ne_eq, ne_eq, List.map_eq_nil_iff]
  rw [exists_lower_compile_iff, listed, ParseTree.Program.tokens, List.flatMap_def, statements]
  constructor
  · rintro ⟨nonempty, small⟩
    obtain ⟨chunk, member⟩ := List.exists_mem_of_ne_nil _ nonempty
    refine ⟨⟨chunk, by simpa using member⟩, fun chunk member accepted token inside => ?_⟩
    exact small token (List.mem_flatten.mpr ⟨chunk, by simp [member, accepted], inside⟩)
  · rintro ⟨⟨chunk, member, accepted⟩, small⟩
    refine ⟨List.ne_nil_of_mem (a := chunk) (by simp [member, accepted]), fun token inside => ?_⟩
    obtain ⟨chunk, kept, here⟩ := List.mem_flatten.mp inside
    obtain ⟨member, accepted⟩ := List.mem_filter.mp kept
    exact small chunk member (of_decide_eq_true accepted) token here

end

namespace CommandLine

/-- Nothing is wrong with the text, as far as the output needs it. -/
structure Invocation.Flawless (invocation : Invocation) (text : String) : Prop where
  lexes : (tokenize invocation.file text).errors = []
  derives : Derives (.rule .program) (tokenize invocation.file text).kinds
  small : invocation.emit = .ast ∨ invocation.emit = .estree →
    ∀ token ∈ (tokenize invocation.file text).tokens, ¬token.Oversized

/-- What is left of the text without its faults is enough for the output. -/
def Invocation.Salvageable (invocation : Invocation) (text : String) : Prop :=
  invocation.emit = .tokens ∨ invocation.emit = .cst ∨
    (∃ chunk ∈ (tokenize invocation.file text).chunks, IsStatement chunk) ∧
      ∀ chunk ∈ (tokenize invocation.file text).chunks, IsStatement chunk →
        ∀ token ∈ chunk, ¬token.Oversized

theorem decode_toUTF8 (text : String) : decode text.toUTF8 = .ok text := by
  have valid : text.toUTF8.IsValidUTF8 := text.isValidUTF8
  rw [decode, String.fromUTF8?, dif_pos valid]
  rfl

theorem Invocation.exists_output_iff (invocation : Invocation) (compilation : Compilation) :
    (∃ output, invocation.output compilation = .ok output) ↔
      (invocation.emit = .ast ∨ invocation.emit = .estree →
        ∃ program, compilation.lower = .ok program) := by
  obtain ⟨file, emit, compact, keepGoing⟩ := invocation
  cases lowered : compilation.lower <;> cases emit <;>
    simp [Invocation.output, Compilation.toJavaScript, lowered, bind, Except.bind]

theorem join_ne_empty {notes : List String} (nonempty : notes ≠ []) :
    String.join (notes.map (· ++ "\n\n")) ≠ "" := by
  obtain ⟨note, rest, rfl⟩ := List.exists_cons_of_ne_nil nonempty
  simp [String.join_cons]

def Invocation.Succeeds (invocation : Invocation) (text : String) : Prop :=
  (invocation.keepGoing ∨ (compile invocation.file text).diagnostics text = []) ∧
    ∃ output, invocation.output (compile invocation.file text) = .ok output

theorem Invocation.run_cases (invocation : Invocation) (text : String) :
    (invocation.Succeeds text ∧ (invocation.run text).exitCode = 0) ∨
      (¬invocation.Succeeds text ∧ (invocation.run text).exitCode = 1 ∧
        (invocation.run text).stdout = "" ∧ (invocation.run text).stderr ≠ "") := by
  simp only [Invocation.run, Invocation.Succeeds]
  split
  · next stops =>
      rw [Bool.and_eq_true, Bool.not_eq_true', Bool.not_eq_true',
        List.isEmpty_eq_false_iff] at stops
      exact .inr ⟨by simp [stops], rfl, rfl, join_ne_empty stops.1⟩
  · next goes =>
      have goesOn :
          invocation.keepGoing ∨ (compile invocation.file text).diagnostics text = [] := by
        by_contra
        simp_all
      split
      · next output written => exact .inl ⟨⟨goesOn, output, written⟩, rfl⟩
      · next error failed => exact .inr ⟨by simp [failed], rfl, rfl, by simp⟩

theorem Invocation.succeeds_iff (invocation : Invocation) (text : String) :
    invocation.Succeeds text ↔
      if invocation.keepGoing then invocation.Salvageable text else invocation.Flawless text := by
  rw [Invocation.Succeeds, invocation.exists_output_iff]
  split
  · next keeps =>
      rw [exists_lower_compile_iff_chunks, Invocation.Salvageable]
      cases invocation.emit <;> simp [keeps]
  · next stops =>
      rw [diagnostics_compile_eq_nil_iff]
      constructor
      · rintro ⟨right, lowers⟩
        obtain ⟨clean, derives⟩ := right.resolve_left stops
        have small := exists_lower_compile_of_derives clean derives
        exact ⟨clean, derives, fun needed => small.mp (lowers needed)⟩
      · rintro ⟨clean, derives, small⟩
        have lowers := exists_lower_compile_of_derives clean derives
        exact ⟨.inr ⟨clean, derives⟩, fun needed => lowers.mpr (small needed)⟩

theorem Invocation.exitCode_runOn (invocation : Invocation)
    (content : Except ReadError ByteArray) :
    (invocation.runOn content).exitCode = 0 ∨ (invocation.runOn content).exitCode = 1 := by
  rw [Invocation.runOn]
  split
  · next text _ =>
      rcases invocation.run_cases text with ⟨-, zero⟩ | ⟨-, one, -⟩
      · exact .inl zero
      · exact .inr one
  · exact .inr rfl

theorem exitCode_perform_eq_two_iff {files : String → Except ReadError ByteArray}
    {arguments : List String} :
    (perform (m := Id) files arguments).exitCode = 2 ↔
      ∃ error, Invocation.ofArguments arguments = .error (.usage error) := by
  cases asked : Invocation.ofArguments arguments with
  | error stop =>
      have stops : perform (m := Id) files arguments = stop.outcome := by
        rw [perform, asked]
        rfl
      cases stop <;> simp [stops, Stop.outcome]
  | ok invocation =>
      have runs :
          perform (m := Id) files arguments = invocation.runOn (files invocation.file) := by
        rw [perform, asked]
        rfl
      rcases invocation.exitCode_runOn (files invocation.file) with code | code <;>
        simp [runs, code]

/-- The code zero is for texts that are right, or right enough to keep going. With any other text
the code is one, and there are errors but no output. -/
theorem perform_exitCode {files : String → Except ReadError ByteArray} {arguments : List String}
    {invocation : Invocation} {text : String}
    (asked : Invocation.ofArguments arguments = .ok invocation)
    (content : files invocation.file = .ok text.toUTF8) :
    ((perform (m := Id) files arguments).exitCode = 0 ↔
      if invocation.keepGoing then invocation.Salvageable text else invocation.Flawless text) ∧
    ((perform (m := Id) files arguments).exitCode = 0 ∨
      (perform (m := Id) files arguments).exitCode = 1 ∧
        (perform (m := Id) files arguments).stdout = "" ∧
        (perform (m := Id) files arguments).stderr ≠ "") := by
  have runs : perform (m := Id) files arguments = invocation.run text := by
    have read : invocation.runOn (files invocation.file) = invocation.run text := by
      rw [content, Invocation.runOn, Except.bind, decode_toUTF8]
    rw [perform, asked]
    exact read
  rw [runs, ← invocation.succeeds_iff text]
  rcases invocation.run_cases text with ⟨succeeds, zero⟩ | ⟨fails, one, rest⟩
  · exact ⟨by simp [zero, succeeds], .inl zero⟩
  · exact ⟨by simp [one, fails], .inr ⟨one, rest⟩⟩

-- The second statement lacks an operand, so the first is all that is left.
theorem perform_exitCode_keepGoing :
    let files (path : String) : Except ReadError ByteArray :=
      if path = "a.dw" then .ok "f(1); 2 +;".toUTF8 else .error .notFound
    let arguments := ["--keep-going", "a.dw", "--emit=ast"]
    Invocation.ofArguments arguments = .ok ⟨"a.dw", .ast, false, true⟩ ∧
      (compile "a.dw" "f(1); 2 +;").parseErrors.length = 1 ∧
      (perform (m := Id) files arguments).exitCode = 0 := by
  intro files arguments
  have asked : Invocation.ofArguments arguments = .ok ⟨"a.dw", .ast, false, true⟩ := by
    decide +kernel
  have salvageable : Invocation.Salvageable ⟨"a.dw", .ast, false, true⟩ "f(1); 2 +;" :=
    .inr (.inr (by decide +kernel))
  exact ⟨asked, by decide +kernel, (perform_exitCode asked (if_pos rfl)).1.mpr salvageable⟩

end CommandLine

end Pipewright
