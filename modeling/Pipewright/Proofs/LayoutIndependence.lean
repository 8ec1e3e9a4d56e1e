import Pipewright.Proofs.BarePrograms
import Pipewright.Proofs.Compiling

set_option autoImplicit false

namespace Pipewright

open ParseTree

def Token.ofLexeme (lexeme : Kind × String) : Token :=
  ⟨lexeme.1, lexeme.2, .nowhere⟩

theorem map_bare_eq_map_ofLexeme (tokens : List Token) :
    tokens.map Token.bare = (tokens.map Token.lexeme).map Token.ofLexeme := by
  rw [List.map_map]
  rfl

theorem ParseTree.parse_valid (tokens : List Token) : parse (valid tokens) = parse tokens := by
  simp only [parse, valid, List.filter_filter, Bool.and_self]

theorem bare_compile (source text : String) :
    parse (((valid (tokenize source text).tokens).map Token.lexeme).map Token.ofLexeme) =
      ⟨(compile source text).tree.bare, (compile source text).parseErrors.map bareError⟩ := by
  rw [← map_bare_eq_map_ofLexeme, parse_bare, parse_valid]
  rfl

theorem strip_lower_compile (source text : String) :
    (compile source text).lower.strip Program.bare = (compile source text).tree.bare.lower "" := by
  have placed := placed_compile source text
  symm
  apply ParseTree.Program.lower_bare _ placed.grammatical
  intro token traced
  exact placed.inText.own token (ParseTree.Program.mem_tokens_of_mem_traced _ traced)

section

variable {left right : Lowered Program}

theorem mapError_map_bare_eq_of_strip_eq
    (same : left.strip Program.bare = right.strip Program.bare) :
    (left.map Program.bare).mapError Located.error =
      (right.map Program.bare).mapError Located.error := by
  cases left with
  | error fault =>
      cases right with
      | error other =>
          injection same with same
          injection same with error
          exact congrArg Except.error error
      | ok program => cases same
  | ok program =>
      cases right with
      | error fault => cases same
      | ok other =>
          injection same with bare
          exact congrArg Except.ok bare

theorem mapError_toJavaScript_eq_of_strip_eq
    (same : left.strip Program.bare = right.strip Program.bare) :
    (Program.toJavaScript <$> left).mapError Located.error =
      (Program.toJavaScript <$> right).mapError Located.error := by
  have agree := mapError_map_bare_eq_of_strip_eq same
  have through : ∀ result : Lowered Program,
      (Program.toJavaScript <$> result).mapError Located.error =
        Program.toJavaScript <$> (result.map Program.bare).mapError Located.error := by
    intro result
    cases result with
    | error fault => rfl
    | ok program => exact congrArg Except.ok program.toJavaScript_bare.symm
  rw [through, through, agree]

end

def refusal (located : Located ParseError) : Expected × Kind × String :=
  (located.error.expected, located.error.found.lexeme)

theorem map_refusal_bareError (errors : List (Located ParseError)) :
    (errors.map bareError).map refusal = errors.map refusal := by
  rw [List.map_map]
  rfl

theorem compile_eq_of_lexemes_eq {source source' text text' : String}
    (same : (valid (tokenize source text).tokens).map Token.lexeme =
      (valid (tokenize source' text').tokens).map Token.lexeme) :
    (compile source text).toJavaScript.mapError Located.error =
        (compile source' text').toJavaScript.mapError Located.error ∧
      ((compile source text).lower.map Program.bare).mapError Located.error =
        ((compile source' text').lower.map Program.bare).mapError Located.error ∧
      (compile source text).parseErrors.map refusal =
        (compile source' text').parseErrors.map refusal := by
  have parsed := bare_compile source text
  rw [same, bare_compile source' text'] at parsed
  injection parsed with trees errors
  have lowered : (compile source text).lower.strip Program.bare =
      (compile source' text').lower.strip Program.bare := by
    rw [strip_lower_compile, strip_lower_compile, trees]
  refine ⟨mapError_toJavaScript_eq_of_strip_eq lowered,
    mapError_map_bare_eq_of_strip_eq lowered, ?_⟩
  rw [← map_refusal_bareError, ← errors, map_refusal_bareError]

-- The two texts differ in blanks, in a comment and in a stray character, and neither is complete.
theorem compile_eq_of_layouts :
    (valid (tokenize "left" "f(x, 1) |> g; /* odd */ h + ;").tokens).map Token.lexeme =
        (valid (tokenize "right" "f ( x,1 )|>g§;\nh+;// even").tokens).map Token.lexeme ∧
      (compile "left" "f(x, 1) |> g; /* odd */ h + ;").toJavaScript.mapError Located.error =
        (compile "right" "f ( x,1 )|>g§;\nh+;// even").toJavaScript.mapError Located.error ∧
      ((compile "left" "f(x, 1) |> g; /* odd */ h + ;").lower.map Program.bare).mapError
          Located.error =
        ((compile "right" "f ( x,1 )|>g§;\nh+;// even").lower.map Program.bare).mapError
          Located.error ∧
      (compile "left" "f(x, 1) |> g; /* odd */ h + ;").parseErrors.map refusal =
        (compile "right" "f ( x,1 )|>g§;\nh+;// even").parseErrors.map refusal := by
  have same : (valid (tokenize "left" "f(x, 1) |> g; /* odd */ h + ;").tokens).map Token.lexeme =
      (valid (tokenize "right" "f ( x,1 )|>g§;\nh+;// even").tokens).map Token.lexeme := by
    decide +kernel
  exact ⟨same, compile_eq_of_lexemes_eq same⟩

end Pipewright
