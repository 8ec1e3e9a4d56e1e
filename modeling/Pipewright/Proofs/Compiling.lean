import Mathlib.Data.List.Flatten
import Pipewright.Compilation
import Pipewright.Proofs.Parsing
import Pipewright.Proofs.Spelling

set_option autoImplicit false

namespace Pipewright

open ParseTree

theorem layout_tokenize (source text : String) :
    Layout source 0 text.toList (tokenize source text).tokens := by
  simpa [tokenize] using layout_pieces source 0 text.toList

theorem exists_tokens_tokenize (source text : String) :
    ∃ front, (tokenize source text).tokens = front ++ [.eofAt source text.utf8ByteSize] ∧
      ∀ token ∈ front, token.kind ≠ .eof ∧ token.span.source = source ∧
        token.span.start < token.span.stop := by
  have layout := layout_tokenize source text
  obtain ⟨front, whole, all⟩ := layout.tokens_eq
  refine ⟨front, by simpa using whole, ?_⟩
  intro token member
  obtain ⟨known, some, own⟩ := all token member
  refine ⟨known, own, ?_⟩
  obtain ⟨before, after, -, span⟩ := layout.exists_append token (by simp [whole, member])
  have bytes : Text.byteSize token.text.toList ≠ 0 := by simpa [Text.byteSize_eq_zero] using some
  rw [span, Span.start_ofRange, Span.stop_ofRange]
  omega

theorem takeWhile_concat_eofAt {front : List Token} (inner : ∀ token ∈ front, token.kind ≠ .eof)
    (source : String) (stop : Nat) :
    (front ++ [Token.eofAt source stop]).takeWhile (fun token => token.kind ≠ .eof) = front := by
  rw [List.takeWhile_append_of_pos fun token member => decide_eq_true (inner token member)]
  simp [Token.eofAt]

namespace ParseTree

def valid (tokens : List Token) : List Token :=
  tokens.filter fun token => token.kind ≠ .invalid

theorem parse_concat (front : List Token) {eof : Token} (ends : eof.kind = .eof) :
    (parse (front ++ [eof])).program =
        .make (readings eof (some .start) (valid front)).statements eof ∧
      (parse (front ++ [eof])).errors =
        (readings eof (some .start) (valid front)).errors ++
          if (readings eof (some .start) (valid front)).statements.isEmpty &&
            (readings eof (some .start) (valid front)).errors.isEmpty then
            [ParseError.refuse .statement ((valid front).head?.getD eof)]
          else [] := by
  have kept : (front ++ [eof]).filter (fun token => token.kind ≠ .invalid) =
      valid front ++ [eof] := by
    simp [valid, ends]
  have parts : splitEof (valid front ++ [eof]) = (valid front, eof) := by
    simp [splitEof, ends]
  simp only [parse, kept, parts, and_self]

theorem Recovers.tokens_sublist {eof : Token} {tokens : List Token} {read : Readings}
    (recovers : Recovers eof (cut tokens) read) :
    (read.statements.flatMap Statement.tokens).Sublist tokens := by
  rw [List.flatMap_def, recovers.statements]
  have chunks : ((cut tokens).chunks.filter fun chunk => IsStatement chunk).flatten.Sublist
      (cut tokens).chunks.flatten := List.filter_sublist.flatten
  conv => rhs; rw [← (cut_divides tokens).tokens]
  exact chunks.trans (List.sublist_append_left _ _)

/-- The tokens come from one text, take some room there and stand in the order of that text. -/
structure InText (source : String) (tokens : List Token) : Prop where
  own : ∀ token ∈ tokens, token.span.source = source
  nonempty : ∀ token ∈ tokens, token.span.start < token.span.stop
  ordered : tokens.Pairwise fun left right => left.span.stop ≤ right.span.start

theorem InText.sublist {source : String} {tokens part : List Token}
    (inText : InText source tokens) (within : part.Sublist tokens) : InText source part where
  own token member := inText.own token (within.subset member)
  nonempty token member := inText.nonempty token (within.subset member)
  ordered := inText.ordered.sublist within

theorem Program.tokens_sublist {tree : Program} {statement : Statement}
    (member : statement ∈ tree.statements) : statement.tokens.Sublist tree.tokens := by
  rw [Program.tokens, List.flatMap_def]
  exact List.sublist_flatten_of_mem (List.mem_map_of_mem member)

structure Program.Placed (source : String) (tree : Program) : Prop where
  grammatical : ∀ statement ∈ tree.statements, statement.Grammatical
  spelled : ∀ token ∈ tree.tokens, token.kind.Spells token.text
  inText : InText source tree.tokens

end ParseTree

theorem tokens_parse_sublist (row : List Token) : (parse row).program.tokens.Sublist row := by
  obtain ⟨last, eof, -, same⟩ := parse_eq row
  have recovers := readings_recovers last (readable row) kind_ne_of_mem_readable
  rw [same, ParseTree.Program.tokens, Program.statements_make]
  exact recovers.tokens_sublist.trans ((List.takeWhile_sublist _).trans List.filter_sublist)

theorem placed_parse {source text : String} {row : List Token}
    (within : row.Sublist (tokenize source text).tokens) :
    (parse row).program.Placed source := by
  obtain ⟨front, whole, all⟩ := exists_tokens_tokenize source text
  have grammatical := grammatical_of_mem_parse row
  have lexed := (tokens_parse_sublist row).trans within
  have kinds : ∀ token ∈ (parse row).program.tokens, token.kind ≠ .eof ∧ token.kind ≠ .invalid := by
    intro token member
    obtain ⟨statement, inside, here⟩ := List.mem_flatMap.mp member
    exact finish?_kind_ne (statement.finish?_tokens (grammatical statement inside)) token here
  have inFront : ∀ token ∈ (parse row).program.tokens, token ∈ front := by
    intro token member
    have listed := lexed.subset member
    rw [whole] at listed
    rcases List.mem_append.mp listed with early | final
    · exact early
    · cases List.mem_singleton.mp final
      exact absurd rfl (kinds _ member).1
  refine ⟨grammatical, ?_, ?_, ?_, ?_⟩
  · intro token member
    exact spells_of_mem_tokenize (lexed.subset member) (kinds token member).1 (kinds token member).2
  · exact fun token member => (all token (inFront token member)).2.1
  · exact fun token member => (all token (inFront token member)).2.2
  · exact (layout_tokenize source text).pairwise.sublist lexed

theorem placed_compile (source text : String) : (compile source text).tree.Placed source :=
  placed_parse (List.Sublist.refl _)

theorem span_compile_of_empty {source text : String}
    (empty : (compile source text).tree.statements = []) :
    (compile source text).tree.span = .emptyAt source text.utf8ByteSize := by
  obtain ⟨front, whole, -⟩ := exists_tokens_tokenize source text
  rw [compile, whole, (parse_concat front rfl).1] at empty ⊢
  rw [Program.statements_make] at empty
  rw [empty]
  rfl

end Pipewright
