import Mathlib.Data.List.Find
import Pipewright.Proofs.Layout
import Pipewright.Text.Decimal

set_option autoImplicit false

namespace Pipewright

open Text

structure IsIdentifier (name : String) : Prop where
  first : ∃ c ∈ name.toList.head?, c.isDigit = false
  chars : ∀ c ∈ name.toList, isWordChar c = true
  free : Kind.ofWord? name = none

theorem isIdentifier_iff (name : String) :
    IsIdentifier name ↔ (name.toList.head?.any fun c => !c.isDigit) = true ∧
      name.toList.all isWordChar = true ∧ Kind.ofWord? name = none := by
  simp only [Option.any_eq_true, List.all_eq_true, Bool.not_eq_true']
  constructor
  · intro valid
    exact ⟨valid.first, valid.chars, valid.free⟩
  · rintro ⟨first, chars, free⟩
    exact ⟨first, chars, free⟩

instance (name : String) : Decidable (IsIdentifier name) :=
  decidable_of_iff' _ (isIdentifier_iff name)

def Kind.Spells : Kind → String → Prop
  | .ident, text => IsIdentifier text
  | .integer, text => isDecimal text.toList = true
  | .keyword word, text => text = word.spelling
  | .operator op, text => text = op.spelling
  | .punct mark, text => text = mark.spelling
  | .eof, _ | .invalid, _ => False

theorem Kind.Spells.ne_invalid {kind : Kind} {text : String} (spells : kind.Spells text) :
    kind ≠ .invalid := by
  rintro rfl
  exact spells

theorem Kind.spells_of_spelling? {kind : Kind} {text : String}
    (spelled : kind.spelling? = some text) : kind.Spells text := by
  cases kind <;> simp_all [Kind.spelling?, Kind.Spells]

theorem Kind.spelling?_of_mem_symbols {kind : Kind} (member : kind ∈ symbols) :
    kind.spelling? = some (String.ofList kind.chars) := by
  have all : ∀ kind ∈ symbols, kind.spelling?.isSome = true := by decide
  obtain ⟨text, spelled⟩ := Option.isSome_iff_exists.mp (all kind member)
  simp [Kind.chars, spelled]

namespace Piece

def Spelled : Piece → Prop
  | .lexeme kind chars => kind.Spells (String.ofList chars)
  | .blank _ | .lineComment _ | .blockComment _ | .openComment _ | .stray _ => True

theorem spelled_comment (inner : List Char) : (comment inner).1.Spelled := by
  unfold comment
  split <;> trivial

theorem spelled_symbol (c : Char) (cs : List Char) : (symbol c cs).1.Spelled := by
  unfold symbol
  split
  · next kind found =>
      have member := List.mem_of_find?_eq_some found
      exact Kind.spells_of_spelling? (Kind.spelling?_of_mem_symbols member)
  · trivial

theorem spelled_word {c : Char} {cs : List Char} (letter : isWordChar c = true)
    (noDigit : c.isDigit = false) : (run isWordChar word (c :: cs)).1.Spelled := by
  cases found : Kind.ofWord? (String.ofList ((c :: cs).takeWhile isWordChar)) with
  | some kind =>
      have spelled := List.find?_some found
      simp only [decide_eq_true_eq] at spelled
      simpa [run, word, Spelled, found] using Kind.spells_of_spelling? spelled
  | none =>
      simp only [run, word, Spelled, found, Option.getD_none]
      refine ⟨⟨c, by simp [letter], noDigit⟩, ?_, found⟩
      intro d member
      rw [String.toList_ofList] at member
      exact List.all_eq_true.mp List.all_takeWhile d member

theorem spelled_lexemeOrStray (c : Char) (cs : List Char) : (lexemeOrStray c cs).1.Spelled := by
  unfold lexemeOrStray
  split
  · next digit => simp [run, Spelled, Kind.Spells, isDecimal, digit]
  · next noDigit =>
      split
      · next letter => exact spelled_word letter (by simpa using noDigit)
      · exact spelled_symbol c cs

theorem spelled_first (c : Char) (cs : List Char) : (first c cs).1.Spelled := by
  unfold first
  split
  · trivial
  · exact spelled_comment _
  · split
    · trivial
    · exact spelled_lexemeOrStray c cs

end Piece

theorem spelled_pieces (text : List Char) : ∀ piece ∈ pieces text, piece.Spelled := by
  fun_induction pieces text with
  | case1 => simp
  | case2 c cs ih => exact List.forall_mem_cons.mpr ⟨Piece.spelled_first c cs, ih⟩

theorem map_snd_placed (offset : Nat) (pieces : List Piece) :
    (placed offset pieces).map Prod.snd = pieces := by
  induction pieces generalizing offset with
  | nil => rfl
  | cons piece pieces ih => simp [placed, ih]

theorem snd_mem_of_mem_placed {offset : Nat} {pieces : List Piece} {place : Nat × Piece}
    (member : place ∈ placed offset pieces) : place.2 ∈ pieces := by
  rw [← map_snd_placed offset pieces]
  exact List.mem_map_of_mem member

theorem spells_of_mem_tokenize {source text : String} {token : Token}
    (member : token ∈ (tokenize source text).tokens) (known : token.kind ≠ .eof)
    (valid : token.kind ≠ .invalid) : token.kind.Spells token.text := by
  rcases List.mem_append.mp member with found | last
  · obtain ⟨⟨start, piece⟩, inside, made⟩ := List.mem_filterMap.mp found
    have spelled := spelled_pieces text.toList piece (snd_mem_of_mem_placed inside)
    cases piece <;> simp only [Piece.token?, Option.some.injEq, reduceCtorEq] at made
    · subst made
      exact spelled
    · subst made
      contradiction
  · simp_all [Token.eofAt]

theorem kind_ne_invalid_of_errors_eq_nil {source text : String}
    (clean : (tokenize source text).errors = []) :
    ∀ token ∈ (tokenize source text).tokens, token.kind ≠ .invalid := by
  intro token member
  rcases List.mem_append.mp member with found | last
  · obtain ⟨⟨start, piece⟩, inside, made⟩ := List.mem_filterMap.mp found
    have spelled := spelled_pieces text.toList piece (snd_mem_of_mem_placed inside)
    have right : piece.error? source start = none := List.filterMap_eq_nil_iff.mp clean _ inside
    cases piece with
    | lexeme kind chars =>
        cases made
        exact Kind.Spells.ne_invalid spelled
    | stray c => cases right
    | blank | lineComment | blockComment | openComment => cases made
  · simp_all [Token.eofAt]

theorem prefix_append_cons {α : Type} {d : α} {xs ys zs : List α} (absent : d ∉ xs) :
    xs <+: ys ++ d :: zs ↔ xs <+: ys := by
  induction xs generalizing ys with
  | nil => simp
  | cons x xs ih =>
      simp only [List.mem_cons, not_or] at absent
      cases ys with
      | nil => simp [Ne.symm absent.1]
      | cons y ys => simp [ih absent.2]

theorem isBlank_eq_false {c : Char} (above : 33 ≤ c.toNat) (below : c.toNat ≤ 126) :
    isBlank c = false :=
  blank.has_eq_false 33 126 c (by decide) above below

theorem isBlank_eq_false_of_isWordChar {c : Char} (letter : isWordChar c = true) :
    isBlank c = false := by
  change (((decide (c.val ≥ 'A'.val ∧ c.val ≤ 'Z'.val) ||
    (decide (c.val ≥ 'a'.val) && decide (c.val ≤ 'z'.val))) ||
    (decide (c.val ≥ '0'.val) && decide (c.val ≤ '9'.val))) || c == '_') = true at letter
  simp only [Bool.or_eq_true, Bool.and_eq_true, decide_eq_true_eq, beq_iff_eq, ge_iff_le,
    UInt32.le_iff_toNat_le] at letter
  change (((65 ≤ c.toNat ∧ c.toNat ≤ 90) ∨ (97 ≤ c.toNat ∧ c.toNat ≤ 122)) ∨
    (48 ≤ c.toNat ∧ c.toNat ≤ 57)) ∨ c = '_' at letter
  rcases letter with ((upper | lower) | digit) | rfl
  · exact isBlank_eq_false (by omega) (by omega)
  · exact isBlank_eq_false (by omega) (by omega)
  · exact isBlank_eq_false (by omega) (by omega)
  · decide

theorem isWordChar_of_isDigit {c : Char} (digit : c.isDigit = true) : isWordChar c = true := by
  simp [isWordChar, Char.isAlphanum, digit]

theorem Kind.chars_of_mem_symbols {kind : Kind} (member : kind ∈ symbols) :
    ∀ c ∈ kind.chars, isBlank c = false ∧ isWordChar c = false := by
  -- There are few characters here, but a quantifier would be decided over all characters.
  have all : (symbols.all fun kind =>
      kind.chars.all fun c => !isBlank c && !isWordChar c) = true := by
    decide
  simp only [List.all_eq_true, Bool.and_eq_true, Bool.not_eq_true'] at all
  exact all kind member

theorem ofSymbol?_append_blank (text : List Char) {b : Char} (blank : isBlank b = true)
    (rest : List Char) : Kind.ofSymbol? (text ++ b :: rest) = Kind.ofSymbol? text := by
  -- No symbol has a blank in it, so what stands behind the blank makes no symbol fit.
  apply List.find?_congr
  intro other inside
  have absent : b ∉ other.chars := by
    intro here
    simp [(Kind.chars_of_mem_symbols inside b here).1] at blank
  rw [Bool.eq_iff_iff, List.isPrefixOf_iff_prefix, List.isPrefixOf_iff_prefix]
  exact prefix_append_cons absent

theorem ofSymbol?_append {kind : Kind} (member : kind ∈ Kind.symbols) {b : Char}
    (blank : isBlank b = true) (rest : List Char) :
    Kind.ofSymbol? (kind.chars ++ b :: rest) = some kind := by
  have alone : ∀ kind ∈ Kind.symbols, Kind.ofSymbol? kind.chars = some kind := by decide
  rw [ofSymbol?_append_blank kind.chars blank, alone kind member]

theorem isWordChar_eq_false {c : Char} (blank : isBlank c = true) : isWordChar c = false := by
  by_contra letter
  simp [isBlank_eq_false_of_isWordChar (by simpa using letter)] at blank

theorem isDigit_eq_false {c : Char} (noLetter : isWordChar c = false) : c.isDigit = false := by
  simp only [isWordChar, Char.isAlphanum, Bool.or_eq_false_iff] at noLetter
  exact noLetter.1.2

theorem not_startsTrivia_of_isWordChar {c : Char} {cs : List Char} (letter : isWordChar c = true) :
    ¬ StartsTrivia (c :: cs) := by
  rintro (⟨d, head, blank⟩ | ⟨rest, marks⟩ | ⟨rest, marks⟩)
  · cases head
    simp [isWordChar_eq_false blank] at letter
  · cases marks
    revert letter
    decide
  · cases marks
    revert letter
    decide

theorem not_startsTrivia_of_mem_symbols {kind : Kind} (member : kind ∈ Kind.symbols) {b : Char}
    (blank : isBlank b = true) (rest : List Char) : ¬ StartsTrivia (kind.chars ++ b :: rest) := by
  have marks : ∀ kind ∈ Kind.symbols,
      ¬ ['/', '/'].isPrefixOf kind.chars ∧ ¬ ['/', '*'].isPrefixOf kind.chars := by decide
  have slash : b ≠ '/' := by rintro rfl; revert blank; decide
  have star : b ≠ '*' := by rintro rfl; revert blank; decide
  simp only [List.isPrefixOf_iff_prefix] at marks
  rintro (⟨d, head, starts⟩ | line | block)
  · obtain ⟨c, cs, same⟩ :=
      List.exists_cons_of_ne_nil (Kind.chars_ne_nil_of_mem_symbols kind member)
    have solid := (Kind.chars_of_mem_symbols member c (by simp [same])).1
    rw [same] at head
    cases head
    simp [solid] at starts
  · exact (marks kind member).1 ((prefix_append_cons (by simp [slash])).mp line)
  · exact (marks kind member).2 ((prefix_append_cons (by simp [slash, star])).mp block)

theorem Piece.first_of_not_startsTrivia {c : Char} {cs : List Char}
    (plain : ¬ StartsTrivia (c :: cs)) : Piece.first c cs = Piece.lexemeOrStray c cs := by
  unfold Piece.first
  split
  · exact absurd (.inr (.inl ⟨_, rfl⟩)) plain
  · exact absurd (.inr (.inr ⟨_, rfl⟩)) plain
  · split
    · next blank => exact absurd (.inl ⟨c, rfl, blank⟩) plain
    · rfl

theorem pieces_of_not_startsTrivia {c : Char} {cs : List Char} (plain : ¬ StartsTrivia (c :: cs)) :
    pieces (c :: cs) =
      (Piece.lexemeOrStray c cs).1 :: pieces (Piece.lexemeOrStray c cs).2 := by
  rw [pieces, Piece.first_of_not_startsTrivia plain]

theorem run_append {p : Char → Bool} {make : List Char → Piece} {chars rest : List Char}
    (all : ∀ c ∈ chars, p c = true) (stops : ∀ c ∈ rest.head?, p c = false) :
    Piece.run p make (chars ++ rest) = (make chars, rest) := by
  have stopped : rest.takeWhile p = [] ∧ rest.dropWhile p = rest := by
    cases rest with
    | nil => simp
    | cons c cs => simp [stops c rfl]
  simp [Piece.run, List.takeWhile_append_of_pos all, List.dropWhile_append_of_pos all, stopped]

theorem pieces_word {chars rest : List Char} (first : ∃ c ∈ chars.head?, c.isDigit = false)
    (all : ∀ c ∈ chars, isWordChar c = true) (stops : ∀ c ∈ rest.head?, isWordChar c = false) :
    pieces (chars ++ rest) = Piece.word chars :: pieces rest := by
  obtain ⟨c, head, noDigit⟩ := first
  obtain ⟨cs, rfl⟩ := List.head?_eq_some_iff.mp head
  have letter := all c List.mem_cons_self
  rw [List.cons_append, pieces_of_not_startsTrivia (not_startsTrivia_of_isWordChar letter),
    Piece.lexemeOrStray, if_neg (by simp [noDigit]), if_pos letter, ← List.cons_append,
    run_append all stops]

theorem pieces_integer {chars rest : List Char} (digits : isDecimal chars = true)
    (stops : ∀ c ∈ rest.head?, isWordChar c = false) :
    pieces (chars ++ rest) = .lexeme .integer chars :: pieces rest := by
  simp only [isDecimal, Bool.and_eq_true, Bool.not_eq_true', List.isEmpty_eq_false_iff,
    List.all_eq_true] at digits
  obtain ⟨c, cs, rfl⟩ := List.exists_cons_of_ne_nil digits.1
  have digit := digits.2 c List.mem_cons_self
  have letter := isWordChar_of_isDigit digit
  rw [List.cons_append, pieces_of_not_startsTrivia (not_startsTrivia_of_isWordChar letter),
    Piece.lexemeOrStray, if_pos digit, ← List.cons_append,
    run_append digits.2 fun c head => isDigit_eq_false (stops c head)]

theorem pieces_identifier {name : String} (valid : IsIdentifier name) {rest : List Char}
    (stops : ∀ c ∈ rest.head?, isWordChar c = false) :
    pieces (name.toList ++ rest) = .lexeme .ident name.toList :: pieces rest := by
  rw [pieces_word valid.first valid.chars stops, Piece.word, String.ofList_toList, valid.free]
  rfl

theorem pieces_of_ofSymbol? {kind : Kind} {rest : List Char}
    (plain : ¬ StartsTrivia (kind.chars ++ rest))
    (longest : Kind.ofSymbol? (kind.chars ++ rest) = some kind) :
    pieces (kind.chars ++ rest) = .lexeme kind kind.chars :: pieces rest := by
  have member := List.mem_of_find?_eq_some longest
  have whole : (kind.chars ++ rest).drop kind.chars.length = rest := by simp
  obtain ⟨c, cs, same⟩ := List.exists_cons_of_ne_nil (Kind.chars_ne_nil_of_mem_symbols kind member)
  have noLetter := (Kind.chars_of_mem_symbols member c (by simp [same])).2
  simp only [same, List.cons_append] at plain longest whole ⊢
  rw [pieces_of_not_startsTrivia plain, Piece.lexemeOrStray,
    if_neg (by simp [isDigit_eq_false noLetter]), if_neg (by simp [noLetter]), Piece.symbol,
    longest]
  simp only [same, whole]

theorem pieces_symbol {kind : Kind} (member : kind ∈ Kind.symbols) {rest : List Char} {b : Char}
    (blank : isBlank b = true) :
    pieces (kind.chars ++ b :: rest) = .lexeme kind kind.chars :: pieces (b :: rest) :=
  pieces_of_ofSymbol? (not_startsTrivia_of_mem_symbols member blank rest)
    (ofSymbol?_append member blank rest)

theorem pieces_of_spells {kind : Kind} {text : String} (spells : kind.Spells text) {b : Char}
    (blank : isBlank b = true) (rest : List Char) :
    pieces (text.toList ++ b :: rest) = .lexeme kind text.toList :: pieces (b :: rest) := by
  have stops : ∀ c ∈ (b :: rest).head?, isWordChar c = false := by
    simp [isWordChar_eq_false blank]
  cases kind with
  | ident => exact pieces_identifier spells stops
  | integer => exact pieces_integer spells stops
  | keyword word =>
      obtain rfl : text = word.spelling := spells
      cases word <;> exact pieces_word ⟨_, rfl, by decide⟩ (List.all_eq_true.mp (by decide)) stops
  | operator op =>
      obtain rfl : text = op.spelling := spells
      by_cases word : op = .is
      · subst word
        exact pieces_word ⟨_, rfl, by decide⟩ (List.all_eq_true.mp (by decide)) stops
      · have member : Kind.operator op ∈ Kind.symbols := by revert word; cases op <;> decide
        exact pieces_symbol member blank
  | punct mark =>
      obtain rfl : text = mark.spelling := spells
      have member : Kind.punct mark ∈ Kind.symbols := by cases mark <;> decide
      exact pieces_symbol member blank
  | eof | invalid => exact spells.elim

theorem Piece.first_of_isBlank {b : Char} (blank : isBlank b = true) (rest : List Char) :
    Piece.first b rest = (.blank b, rest) := by
  have slash : b ≠ '/' := by rintro rfl; revert blank; decide
  unfold Piece.first
  split
  · contradiction
  · contradiction
  · rw [if_pos blank]

theorem pieces_blank {b : Char} (blank : isBlank b = true) (rest : List Char) :
    pieces (b :: rest) = .blank b :: pieces rest := by
  rw [pieces, Piece.first_of_isBlank blank]

def Token.lexeme (token : Token) : Kind × String :=
  (token.kind, token.text)

def Piece.lexeme? : Piece → Option (Kind × String)
  | .lexeme kind chars => some (kind, String.ofList chars)
  | .stray c => some (.invalid, c.toString)
  | .blank _ | .lineComment _ | .blockComment _ | .openComment _ => none

theorem map_lexeme_token? (source : String) (start : Nat) (piece : Piece) :
    (piece.token? source start).map Token.lexeme = piece.lexeme? := by
  cases piece <;> rfl

theorem map_lexeme_placed (source : String) (offset : Nat) (pieces : List Piece) :
    ((placed offset pieces).filterMap fun (start, piece) => piece.token? source start).map
      Token.lexeme = pieces.filterMap Piece.lexeme? := by
  calc ((placed offset pieces).filterMap fun (start, piece) => piece.token? source start).map
        Token.lexeme
    _ = (placed offset pieces).filterMap fun place => place.2.lexeme? := by
        simp only [List.map_filterMap, map_lexeme_token?]
    _ = ((placed offset pieces).map Prod.snd).filterMap Piece.lexeme? := by
        rw [List.filterMap_map]
        rfl
    _ = pieces.filterMap Piece.lexeme? := by rw [map_snd_placed]

def spaced (lexemes : List (Kind × String)) : List Char :=
  lexemes.flatMap fun lexeme => lexeme.2.toList ++ [' ']

def spacedPieces (lexemes : List (Kind × String)) : List Piece :=
  lexemes.flatMap fun lexeme => [.lexeme lexeme.1 lexeme.2.toList, .blank ' ']

theorem pieces_spaced (lexemes : List (Kind × String))
    (spelled : ∀ lexeme ∈ lexemes, lexeme.1.Spells lexeme.2) :
    pieces (spaced lexemes) = spacedPieces lexemes := by
  induction lexemes with
  | nil => rw [spaced, List.flatMap_nil, pieces, spacedPieces, List.flatMap_nil]
  | cons lexeme lexemes ih =>
      rw [List.forall_mem_cons] at spelled
      have space : isBlank ' ' = true := by decide
      have first := pieces_of_spells spelled.1 space (spaced lexemes)
      rw [pieces_blank space, ih spelled.2] at first
      simpa [spaced, spacedPieces] using first

theorem filterMap_spacedPieces (lexemes : List (Kind × String)) :
    (spacedPieces lexemes).filterMap Piece.lexeme? = lexemes := by
  induction lexemes with
  | nil => rfl
  | cons lexeme lexemes ih =>
      rw [spacedPieces] at ih
      simp [spacedPieces, List.filterMap_cons, Piece.lexeme?, ih]

theorem error?_spacedPieces (lexemes : List (Kind × String)) (source : String) (start : Nat) :
    ∀ piece ∈ spacedPieces lexemes, piece.error? source start = none := by
  intro piece member
  obtain ⟨lexeme, -, here⟩ := List.mem_flatMap.mp member
  simp only [List.mem_cons, List.not_mem_nil, or_false] at here
  rcases here with rfl | rfl <;> rfl

theorem tokenize_spaced (source : String) (lexemes : List (Kind × String))
    (spelled : ∀ lexeme ∈ lexemes, lexeme.1.Spells lexeme.2) :
    ∃ tokens, tokens.map Token.lexeme = lexemes ∧
      (tokenize source (String.ofList (spaced lexemes))).tokens =
        tokens ++ [.eofAt source (byteSize (spaced lexemes))] ∧
      (tokenize source (String.ofList (spaced lexemes))).errors = [] := by
  simp only [tokenize, String.toList_ofList, pieces_spaced lexemes spelled]
  refine ⟨_, ?_, rfl, ?_⟩
  · rw [map_lexeme_placed, filterMap_spacedPieces]
  · rw [List.filterMap_eq_nil_iff]
    intro place member
    exact error?_spacedPieces lexemes source place.1 place.2 (snd_mem_of_mem_placed member)

end Pipewright
