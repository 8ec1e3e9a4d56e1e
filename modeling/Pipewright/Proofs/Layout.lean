import Pipewright.Proofs.Comments
import Pipewright.Token.Lexer

set_option autoImplicit false

namespace Pipewright

open Text

inductive Trivia : List Char → List Char → Prop
  | blank {c : Char} {rest : List Char} : isBlank c → Trivia [c] rest
  | line {body rest : List Char} :
      '\n' ∉ body → (∀ c ∈ rest.head?, c = '\n') → Trivia ('/' :: '/' :: body) rest
  | block {body rest : List Char} : Closes body → Trivia ('/' :: '*' :: body) rest

inductive Gap (after : List Char) : List Char → Prop
  | nil : Gap after []
  | cons {chars rest : List Char} :
      Trivia chars (rest ++ after) → Gap after rest → Gap after (chars ++ rest)

inductive Unclosed : List Char → Prop
  | intro {inner : List Char} :
      (∀ body, Closes body → ¬ body <+: inner) → Unclosed ('/' :: '*' :: inner)

def StartsTrivia (text : List Char) : Prop :=
  (∃ c ∈ text.head?, isBlank c) ∨ ['/', '/'] <+: text ∨ ['/', '*'] <+: text

/-- The text, which starts at `offset`, has the tokens in this order, and else only gaps. Each gap
reaches as far as it can. Only the last one may end in an open comment. -/
inductive Layout (source : String) : Nat → List Char → List Token → Prop
  | eof {offset : Nat} {gap tail : List Char} :
      Gap tail gap → tail = [] ∨ Unclosed tail →
        Layout source offset (gap ++ tail) [.eofAt source (offset + byteSize (gap ++ tail))]
  | token {offset : Nat} {gap chars rest : List Char} {kind : Kind} {tokens : List Token} :
      Gap (chars ++ rest) gap → ¬ StartsTrivia (chars ++ rest) → kind ≠ .eof → chars ≠ [] →
      Layout source (offset + byteSize gap + byteSize chars) rest tokens →
        Layout source offset (gap ++ (chars ++ rest))
          (⟨kind, String.ofList chars, .ofRange source (offset + byteSize gap)
              (offset + byteSize gap + byteSize chars)⟩ :: tokens)

theorem not_mem_takeWhile_ne (text : List Char) : '\n' ∉ text.takeWhile (· != '\n') := by
  intro member
  have taken := List.all_eq_true.mp List.all_takeWhile '\n' member
  simp at taken

theorem head?_dropWhile_ne (text : List Char) :
    ∀ c ∈ (text.dropWhile (· != '\n')).head?, c = '\n' := by
  intro c head
  have stopped := List.head?_dropWhile_not (· != '\n') text
  rw [Option.mem_def.mp head] at stopped
  simpa using stopped

theorem kind_ne_eof_of_ofWord? {word : String} {kind : Kind}
    (found : Kind.ofWord? word = some kind) : kind ≠ .eof := by
  have all : ∀ kind ∈ Kind.reserved, kind ≠ .eof := by decide
  exact all kind (List.mem_of_find?_eq_some found)

theorem kind_ne_eof_of_ofSymbol? {text : List Char} {kind : Kind}
    (found : Kind.ofSymbol? text = some kind) : kind ≠ .eof := by
  have all : ∀ kind ∈ Kind.symbols, kind ≠ .eof := by decide
  exact all kind (List.mem_of_find?_eq_some found)

namespace Piece

def Fits (piece : Piece) (rest : List Char) : Prop :=
  match piece with
  | .blank _ | .lineComment _ | .blockComment _ => Trivia piece.chars rest
  | .openComment chars => Unclosed chars ∧ rest = []
  | .lexeme kind chars => kind ≠ .eof ∧ ¬ StartsTrivia (chars ++ rest)
  | .stray c => ¬ StartsTrivia (c :: rest)

theorem fits_comment (inner : List Char) : (comment inner).1.Fits (comment inner).2 := by
  rw [comment]
  split
  · next rest found =>
      obtain ⟨body, closes, rfl⟩ := afterComment?_eq_some_iff.mp found
      simpa [Fits, chars] using Trivia.block closes
  · next notFound =>
      refine ⟨.intro ?_, rfl⟩
      rintro body closes ⟨rest, rfl⟩
      rw [closes.afterComment?_append] at notFound
      cases notFound

theorem fits_symbol {c : Char} {cs : List Char} (plain : ¬ StartsTrivia (c :: cs)) :
    (symbol c cs).1.Fits (symbol c cs).2 := by
  rw [← chars_symbol c cs] at plain
  revert plain
  rw [symbol]
  split
  · next kind found => exact fun plain => ⟨kind_ne_eof_of_ofSymbol? found, plain⟩
  · exact id

theorem fits_word {text : List Char} (plain : ¬ StartsTrivia text) :
    (run isWordChar word text).1.Fits (run isWordChar word text).2 := by
  refine ⟨?_, by simpa [run] using plain⟩
  cases found : Kind.ofWord? (String.ofList (text.takeWhile isWordChar)) with
  | none => simp
  | some kind => exact kind_ne_eof_of_ofWord? found

theorem fits_lexemeOrStray {c : Char} {cs : List Char} (plain : ¬ StartsTrivia (c :: cs)) :
    (lexemeOrStray c cs).1.Fits (lexemeOrStray c cs).2 := by
  rw [lexemeOrStray]
  split
  · exact ⟨by simp, by simpa [run] using plain⟩
  · split
    · exact fits_word plain
    · exact fits_symbol plain

theorem fits_first (c : Char) (cs : List Char) : (first c cs).1.Fits (first c cs).2 := by
  unfold first
  split
  · next rest =>
      have line : Trivia ('/' :: '/' :: rest.takeWhile (· != '\n')) (rest.dropWhile (· != '\n')) :=
        .line (not_mem_takeWhile_ne rest) (head?_dropWhile_ne rest)
      simpa [run, Fits, chars] using line
  · exact fits_comment _
  · next notLine notBlock =>
      split
      · next blank => exact .blank blank
      · next notBlank =>
          -- Neither a blank nor a comment was found, which is what a token needs to start here.
          refine fits_lexemeOrStray ?_
          rintro (⟨d, head, blank⟩ | ⟨rest, same⟩ | ⟨rest, same⟩)
          · cases head
            exact notBlank blank
          · cases same
            exact notLine rest rfl rfl
          · cases same
            exact notBlock rest rfl rfl

end Piece

theorem Layout.cons_trivia {source : String} {offset : Nat} {chars rest : List Char}
    {tokens : List Token} (trivia : Trivia chars rest)
    (layout : Layout source (offset + byteSize chars) rest tokens) :
    Layout source offset (chars ++ rest) tokens := by
  -- Whatever comes next, the gap before it starts earlier.
  cases layout with
  | @eof _ gap tail closed unclosed =>
      have longer : Layout source offset ((chars ++ gap) ++ tail) _ :=
        .eof (.cons trivia closed) unclosed
      simpa [Nat.add_assoc] using longer
  | @token _ gap inner rest kind tokens closed plain known some layout =>
      have longer : Layout source offset ((chars ++ gap) ++ (inner ++ rest)) _ :=
        .token (.cons trivia closed) plain known some (by simpa [Nat.add_assoc] using layout)
      simpa [Nat.add_assoc] using longer

theorem Layout.eq_eofAt {source : String} {offset : Nat} {tokens : List Token}
    (layout : Layout source offset [] tokens) : tokens = [.eofAt source offset] := by
  generalize same : ([] : List Char) = text at layout
  cases layout with
  | eof => simp [← same]
  | token _ _ _ some => simp_all

theorem Layout.cons_piece {source : String} {offset : Nat} {piece : Piece} {rest : List Char}
    {tokens : List Token} (fits : piece.Fits rest) (some : piece.chars ≠ [])
    (layout : Layout source (offset + byteSize piece.chars) rest tokens) :
    Layout source offset (piece.chars ++ rest)
      ((piece.token? source offset).toList ++ tokens) := by
  cases piece with
  | blank c => exact layout.cons_trivia fits
  | lineComment chars => exact layout.cons_trivia fits
  | blockComment chars => exact layout.cons_trivia fits
  | openComment chars =>
      -- The comment takes all that is left, so only the end of input is behind it.
      obtain ⟨unclosed, rfl⟩ := fits
      have ended : Layout source offset ([] ++ chars) _ := .eof .nil (.inr unclosed)
      rw [layout.eq_eofAt, List.append_nil]
      exact ended
  | lexeme kind chars => exact .token .nil fits.2 fits.1 some layout
  | stray c =>
      have plain : ¬ StartsTrivia ([c] ++ rest) := fits
      have known : Kind.invalid ≠ .eof := by simp
      have token : Layout source offset ([] ++ ([c] ++ rest)) _ :=
        .token .nil plain known some layout
      simpa [Piece.token?, Piece.span, Piece.chars] using token

theorem layout_pieces (source : String) (offset : Nat) (text : List Char) :
    Layout source offset text
      ((placed offset (pieces text)).filterMap (fun (start, piece) => piece.token? source start) ++
        [.eofAt source (offset + byteSize text)]) := by
  fun_induction pieces text generalizing offset with
  | case1 => exact .eof .nil (.inl rfl)
  | case2 c cs ih =>
      have layout := (ih (offset + byteSize (Piece.first c cs).1.chars)).cons_piece
        (Piece.fits_first c cs) (Piece.chars_first_ne_nil c cs)
      rw [Piece.chars_first, Nat.add_assoc, ← byteSize_append, Piece.chars_first] at layout
      cases token : (Piece.first c cs).1.token? source offset with
      | none => simpa [placed, token] using layout
      | some token => simpa [placed, token] using layout

/-- The bytes of the text at the span of the token are those of the token, and the span starts and
stops between two characters. -/
structure Token.StandsIn (token : Token) (text : String) : Prop where
  bytes : text.toUTF8.extract token.span.start token.span.stop = token.text.toUTF8
  start : String.Pos.Raw.IsValid text ⟨token.span.start⟩
  stop : String.Pos.Raw.IsValid text ⟨token.span.stop⟩

theorem Token.StandsIn.of_append {token : Token} {before after : String}
    (start : token.span.start = before.utf8ByteSize)
    (stop : token.span.stop = before.utf8ByteSize + token.text.utf8ByteSize) :
    token.StandsIn (before ++ token.text ++ after) where
  bytes := by
    rw [start, stop]
    simp only [String.toUTF8_eq_toByteArray, String.append_assoc, String.toByteArray_append]
    calc (before.toByteArray ++ (token.text.toByteArray ++ after.toByteArray)).extract
          (before.utf8ByteSize + 0) (before.utf8ByteSize + token.text.utf8ByteSize)
      _ = (token.text.toByteArray ++ after.toByteArray).extract 0 token.text.utf8ByteSize :=
          ByteArray.extract_append_size_add' String.size_toByteArray.symm
      _ = token.text.toByteArray :=
          ByteArray.extract_append_eq_left String.size_toByteArray.symm
  start := by
    rw [start, String.append_assoc]
    exact String.Pos.Raw.isValid_iff_exists_append.mpr ⟨_, _, rfl, rfl⟩
  stop := by
    rw [stop, ← String.utf8ByteSize_append]
    exact String.Pos.Raw.isValid_iff_exists_append.mpr ⟨_, _, rfl, rfl⟩

theorem Layout.tokens_eq {source : String} {offset : Nat} {text : List Char} {tokens : List Token}
    (layout : Layout source offset text tokens) :
    ∃ front, tokens = front ++ [.eofAt source (offset + byteSize text)] ∧
      ∀ token ∈ front, token.kind ≠ .eof ∧ token.text ≠ "" ∧ token.span.source = source := by
  induction layout with
  | eof => exact ⟨[], rfl, by simp⟩
  | @token offset gap chars rest kind tokens _ _ known some _ ih =>
      obtain ⟨front, rfl, all⟩ := ih
      have last : offset + byteSize gap + byteSize chars + byteSize rest =
          offset + byteSize (gap ++ (chars ++ rest)) := by simp [Nat.add_assoc]
      rw [last]
      refine ⟨_ :: front, rfl, List.forall_mem_cons.mpr ⟨?_, all⟩⟩
      exact ⟨known, by simpa using some, rfl⟩

theorem Layout.exists_append {source : String} {offset : Nat} {text : List Char}
    {tokens : List Token} (layout : Layout source offset text tokens) :
    ∀ token ∈ tokens, ∃ before after, text = before ++ (token.text.toList ++ after) ∧
      token.span = .ofRange source (offset + byteSize before)
        (offset + byteSize before + byteSize token.text.toList) := by
  induction layout with
  | @eof offset gap tail =>
      intro token member
      obtain rfl := List.mem_singleton.mp member
      exact ⟨gap ++ tail, [], by simp [Token.eofAt], by simp [Token.eofAt, Span.emptyAt]⟩
  | @token offset gap chars rest kind tokens _ _ _ _ _ ih =>
      refine List.forall_mem_cons.mpr ⟨⟨gap, rest, by simp, by simp⟩, ?_⟩
      intro token member
      obtain ⟨before, after, rfl, span⟩ := ih token member
      exact ⟨gap ++ chars ++ before, after, by simp, by simp [span, Nat.add_assoc]⟩

theorem Layout.standsIn {source text : String} {tokens : List Token}
    (layout : Layout source 0 text.toList tokens) : ∀ token ∈ tokens, token.StandsIn text := by
  intro token member
  obtain ⟨before, after, whole, span⟩ := layout.exists_append token member
  have cut : text = String.ofList before ++ token.text ++ String.ofList after := by
    apply String.toList_injective
    simpa using whole
  rw [cut]
  exact .of_append (by simp [span, byteSize_eq_utf8ByteSize])
    (by simp [span, byteSize_eq_utf8ByteSize])

theorem Layout.le_start {source : String} {offset : Nat} {text : List Char} {tokens : List Token}
    (layout : Layout source offset text tokens) :
    ∀ token ∈ tokens, offset ≤ token.span.start := by
  intro token member
  obtain ⟨before, _, _, span⟩ := layout.exists_append token member
  simp [span]

theorem Layout.pairwise {source : String} {offset : Nat} {text : List Char} {tokens : List Token}
    (layout : Layout source offset text tokens) :
    tokens.Pairwise fun left right => left.span.stop ≤ right.span.start := by
  induction layout with
  | eof => simp
  | token _ _ _ _ layout ih =>
      refine List.pairwise_cons.mpr ⟨?_, ih⟩
      intro token member
      simpa using layout.le_start token member

def gaps (text : List Char) : Nat → List Token → List (List Char)
  | _, [] => []
  | offset, token :: rest =>
      slice text offset token.span.start :: gaps text token.span.stop rest

theorem Layout.flatten_gaps {source : String} {offset : Nat} {before text : List Char}
    {tokens : List Token} (layout : Layout source offset text tokens)
    (start : offset = byteSize before) :
    (List.zipWith (fun gap token => gap ++ token.text.toList)
      (gaps (before ++ text) offset tokens) tokens).flatten = text := by
  -- The text is cut by offsets from its start, so what stands before is carried along.
  induction layout generalizing before with
  | @eof _ gap tail =>
      subst start
      have last := slice_append before (gap ++ tail) []
      rw [List.append_nil] at last
      simpa [gaps, Token.eofAt, Span.emptyAt] using last
  | @token _ gap chars rest kind tokens _ _ _ _ _ ih =>
      subst start
      have first := slice_append before gap (chars ++ rest)
      have others := @ih (before ++ gap ++ chars) (by simp [Nat.add_assoc])
      simp only [List.append_assoc] at others
      simp [gaps, first, others]

/-- A text is its tokens and gaps of blanks and comments between them, and nothing else. -/
theorem tokenize_lossless (source text : String) :
    ∃ tokens,
      (tokenize source text).tokens = tokens ++ [⟨.eof, "", ⟨text.utf8ByteSize, 0, source⟩⟩] ∧
      (∀ token ∈ tokens, token.kind ≠ .eof ∧ token.text ≠ "" ∧ token.span.source = source ∧
        token.StandsIn text) ∧
      (tokenize source text).tokens.Pairwise (fun left right => left.span.stop ≤ right.span.start) ∧
      Layout source 0 text.toList (tokenize source text).tokens ∧
      (List.zipWith (fun gap token => gap ++ token.text.toList)
        (gaps text.toList 0 (tokenize source text).tokens)
        (tokenize source text).tokens).flatten = text.toList := by
  have layout : Layout source 0 text.toList (tokenize source text).tokens := by
    simpa [tokenize] using layout_pieces source 0 text.toList
  obtain ⟨tokens, whole, all⟩ := layout.tokens_eq
  refine ⟨tokens, ?_, ?_, layout.pairwise, layout, layout.flatten_gaps byteSize_nil.symm⟩
  · simpa [Token.eofAt, Span.emptyAt, Span.ofRange] using whole
  · intro token member
    obtain ⟨known, some, inSource⟩ := all token member
    have stands := layout.standsIn token (by simp [whole, member])
    exact ⟨known, some, inSource, stands⟩

end Pipewright
