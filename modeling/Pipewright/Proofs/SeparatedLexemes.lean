import Pipewright.Proofs.LexicalErrors
import Pipewright.Proofs.MaximalMunch

set_option autoImplicit false

namespace Pipewright

open Text

structure IsStray (c : Char) : Prop where
  solid : isBlank c = false
  noWord : ¬StartsWord [c]
  noNumber : ¬StartsNumber [c]
  noSymbol : ∀ (kind : Kind) (spelling : String), kind.Symbolizes spelling →
    spelling.toList.head? ≠ some c

inductive IsLexeme : Kind → String → Prop
  | identifier {name : String} : IsIdentifier name → IsLexeme .ident name
  | integer {digits : String} : isDecimal digits.toList = true → IsLexeme .integer digits
  | reserved {kind : Kind} {word : String} : kind.Reserves word → IsLexeme kind word
  | symbol {kind : Kind} {spelling : String} : kind.Symbolizes spelling → IsLexeme kind spelling
  | stray {c : Char} : IsStray c → IsLexeme .invalid c.toString

/-- Blanks, closed block comments, and line comments with the line break behind them. -/
inductive Filler : List Char → Prop
  | nil : Filler []
  | blank {c : Char} {rest : List Char} : isBlank c = true → Filler rest → Filler (c :: rest)
  | block {body rest : List Char} :
      Closes body → Filler rest → Filler ('/' :: '*' :: (body ++ rest))
  | line {body rest : List Char} :
      '\n' ∉ body → Filler rest → Filler ('/' :: '/' :: (body ++ '\n' :: rest))

inductive Separator : List Char → Prop
  | intro {c : Char} {rest : List Char} : isBlank c = true → Filler rest → Separator (c :: rest)

structure Entry where
  kind : Kind
  text : String
  separator : List Char
  isLexeme : IsLexeme kind text
  separates : Separator separator

namespace Entry

def chars (entry : Entry) : List Char :=
  entry.text.toList ++ entry.separator

def lexeme (entry : Entry) : Kind × String :=
  (entry.kind, entry.text)

end Entry

theorem Filler.gap {chars : List Char} (filler : Filler chars) (after : List Char) :
    Gap after chars := by
  induction filler with
  | nil => exact .nil
  | blank blank _ ih => exact .cons (.blank blank) ih
  | block closes _ ih => exact .cons (.block closes) ih
  | @line body rest oneLine _ ih =>
      have lineBreak : Gap after (['\n'] ++ rest) := .cons (.blank (by decide)) ih
      have comment : Gap after ('/' :: '/' :: body ++ (['\n'] ++ rest)) :=
        .cons (.line oneLine (by simp)) lineBreak
      exact comment

theorem Separator.gap {chars : List Char} (separator : Separator chars) (after : List Char) :
    Gap after chars := by
  cases separator with
  | intro blank filler => exact .cons (.blank blank) (filler.gap after)

namespace IsStray

variable {c : Char}

theorem isWordChar_eq_false (stray : IsStray c) : isWordChar c = false := by
  have noDigit : c.isDigit = false := by simpa using stray.noNumber
  simpa [noDigit] using stray.noWord

theorem ofSymbol?_eq_none (stray : IsStray c) (rest : List Char) :
    Kind.ofSymbol? (c :: rest) = none := by
  rw [Kind.ofSymbol?, List.find?_eq_none]
  intro kind member leads
  obtain ⟨first, others, same⟩ :=
    List.exists_cons_of_ne_nil (Kind.chars_ne_nil_of_mem_symbols kind member)
  have differs := stray.noSymbol kind _ (Kind.symbolizes_of_mem_symbols member)
  simp only [same, String.toList_ofList, List.head?_cons, ne_eq, Option.some.injEq] at differs
  rw [same] at leads
  simp [differs] at leads

theorem not_startsTrivia (stray : IsStray c) (rest : List Char) : ¬StartsTrivia (c :: rest) := by
  have slash : c ≠ '/' := by
    rintro rfl
    exact stray.noSymbol _ _ (.operator .div) rfl
  rintro (⟨d, head, blank⟩ | ⟨_, same⟩ | ⟨_, same⟩)
  · cases head
    simp [stray.solid] at blank
  · cases same
    exact slash rfl
  · cases same
    exact slash rfl

theorem pieces_cons (stray : IsStray c) (rest : List Char) :
    pieces (c :: rest) = .stray c :: pieces rest := by
  have noLetter := stray.isWordChar_eq_false
  rw [pieces_of_not_startsTrivia (stray.not_startsTrivia rest), Piece.lexemeOrStray,
    if_neg (by simp [isDigit_eq_false noLetter]), if_neg (by simp [noLetter]), Piece.symbol,
    stray.ofSymbol?_eq_none]

end IsStray

namespace IsLexeme

variable {kind : Kind} {text : String}

theorem spells_or_stray (lexeme : IsLexeme kind text) :
    kind.Spells text ∨ ∃ c, IsStray c ∧ kind = .invalid ∧ text = c.toString := by
  cases lexeme with
  | identifier valid => exact .inl valid
  | integer digits => exact .inl digits
  | reserved reserves => cases reserves <;> exact .inl rfl
  | symbol symbolizes => cases symbolizes <;> exact .inl rfl
  | @stray c stray => exact .inr ⟨c, stray, rfl, rfl⟩

theorem pieces_append (lexeme : IsLexeme kind text) {b : Char} (blank : isBlank b = true)
    (rest : List Char) :
    ∃ piece : Piece, piece.IsClosed ∧ piece.lexeme? = some (kind, text) ∧
      pieces (text.toList ++ b :: rest) = piece :: pieces (b :: rest) := by
  rcases lexeme.spells_or_stray with spells | ⟨c, stray, rfl, rfl⟩
  · refine ⟨.lexeme kind text.toList, by simp [Piece.IsClosed], by simp [Piece.lexeme?], ?_⟩
    exact pieces_of_spells spells blank rest
  · refine ⟨.stray c, by simp [Piece.IsClosed], rfl, ?_⟩
    simpa using stray.pieces_cons (b :: rest)

end IsLexeme

theorem Entry.pieces_append (entry : Entry) (rest : List Char) :
    ∃ row : List Piece, (∀ piece ∈ row, piece.IsClosed) ∧
      row.filterMap Piece.lexeme? = [entry.lexeme] ∧
      pieces (entry.chars ++ rest) = row ++ pieces rest := by
  obtain ⟨kind, text, separator, isLexeme, separates⟩ := entry
  obtain ⟨skipped, all, cut⟩ := (separates.gap rest).pieces_append
  cases separates with
  | @intro b filler blank _ =>
      obtain ⟨piece, closed, lexeme, first⟩ := isLexeme.pieces_append blank (filler ++ rest)
      refine ⟨piece :: skipped, ?_, ?_, ?_⟩
      · exact List.forall_mem_cons.mpr ⟨closed, fun piece member => (all piece member).isClosed⟩
      · rw [List.filterMap_cons_some lexeme, List.filterMap_eq_nil_iff.mpr]
        · rfl
        · exact fun piece member => (all piece member).lexeme?_eq_none
      · rw [List.cons_append] at cut
        simp [Entry.chars, first, cut]

theorem pieces_entries (entries : List Entry) :
    (∀ piece ∈ pieces (entries.flatMap Entry.chars), piece.IsClosed) ∧
      (pieces (entries.flatMap Entry.chars)).filterMap Piece.lexeme? =
        entries.map Entry.lexeme := by
  induction entries with
  | nil => simp [pieces]
  | cons entry entries ih =>
      obtain ⟨row, closed, lexemes, cut⟩ := entry.pieces_append (entries.flatMap Entry.chars)
      rw [List.flatMap_cons, cut, List.forall_mem_append, List.filterMap_append, lexemes, ih.2]
      exact ⟨⟨closed, ih.1⟩, rfl⟩

/-- Lexemes that are written with a separator behind each are the tokens of the text. The unknown
characters among them, and nothing else, are reported. -/
theorem tokenize_separated (source : String) (entries : List Entry) :
    ∃ tokens,
      (tokenize source (String.ofList (entries.flatMap Entry.chars))).tokens =
        tokens ++ [.eofAt source (byteSize (entries.flatMap Entry.chars))] ∧
      tokens.map Token.lexeme = entries.map Entry.lexeme ∧
      List.Forall₂ Token.ReportedBy (tokens.filter (·.kind = .invalid))
        (tokenize source (String.ofList (entries.flatMap Entry.chars))).errors := by
  obtain ⟨closed, lexemes⟩ := pieces_entries entries
  rw [tokenize_tokens, tokenize_errors_eq, ← byteSize_toList, String.toList_ofList]
  refine ⟨_, rfl, ?_, reportedBy_of_closed (spelled_pieces _) closed⟩
  rw [map_lexeme_tokensOf, lexemes]

-- A slash before a comment, and marks that are commented out, do not start comments.
theorem tokenize_separated_slash :
    ∃ tokens,
      (tokenize "main" "/\n/*/*@*/*/@ //*\nlets ").tokens = tokens ++ [.eofAt "main" 22] ∧
      tokens.map Token.lexeme = [(.operator .div, "/"), (.invalid, "@"), (.ident, "lets")] ∧
      List.Forall₂ Token.ReportedBy (tokens.filter (·.kind = .invalid))
        (tokenize "main" "/\n/*/*@*/*/@ //*\nlets ").errors := by
  have stray : IsStray '@' := by
    refine ⟨by decide, by simp [isWordChar], by simp, ?_⟩
    rintro _ _ (op | mark)
    · cases op <;> decide
    · cases mark <;> decide
  have name : IsIdentifier "lets" :=
    ⟨⟨'l', rfl, by decide⟩, List.all_eq_true.mp (by decide), by decide⟩
  have comment : Closes ['/', '*', '@', '*', '/', '*', '/'] :=
    .comment (.char (by simp [StartsMark]) .mark) .mark
  obtain ⟨entries, text, lexemes⟩ : ∃ entries : List Entry,
      entries.flatMap Entry.chars = "/\n/*/*@*/*/@ //*\nlets ".toList ∧
      entries.map Entry.lexeme = [(.operator .div, "/"), (.invalid, "@"), (.ident, "lets")] :=
    ⟨[⟨.operator .div, "/", ['\n', '/', '*', '/', '*', '@', '*', '/', '*', '/'],
        .symbol (.operator .div), .intro (by decide) (.block comment .nil)⟩,
      ⟨.invalid, "@", [' ', '/', '/', '*', '\n'], .stray stray,
        .intro (by decide) (.line (by decide : '\n' ∉ ['*']) .nil)⟩,
      ⟨.ident, "lets", [' '], .identifier name, .intro (by decide) .nil⟩],
      by simp [Entry.chars], rfl⟩
  have separated := tokenize_separated "main" entries
  rwa [text, lexemes, String.ofList_toList, byteSize_toList] at separated

end Pipewright
