import Pipewright.Proofs.Spelling

set_option autoImplicit false

namespace Pipewright

open Text

structure IsLongest (p : List Char → Prop) (text part : List Char) : Prop where
  leads : part <+: text
  holds : p part
  longest : ∀ other, other <+: text → p other → other.length ≤ part.length

inductive Kind.Reserves : Kind → String → Prop where
  | keyword (word : Keyword) : Reserves (.keyword word) word.spelling
  | is : Reserves (.operator .is) Operator.is.spelling

inductive Kind.Symbolizes : Kind → String → Prop where
  | operator (op : Operator) : Symbolizes (.operator op) op.spelling
  | punct (mark : Punct) : Symbolizes (.punct mark) mark.spelling

def StartsWord (text : List Char) : Prop :=
  ∃ c ∈ text.head?, c.isAlpha = true ∨ c = '_'

def StartsNumber (text : List Char) : Prop :=
  ∃ c ∈ text.head?, c.isDigit = true

def StartsSymbol (text : List Char) : Prop :=
  ∃ part, part <+: text ∧ ∃ kind : Kind, kind.Symbolizes (String.ofList part)

/-- A token of this kind and with this text may be read where `rest` starts. The first character of
`rest`, and else the symbols that `rest` starts with, decide which sort of token it is. -/
structure Munches (rest : List Char) (kind : Kind) (text : String) : Prop where
  plain : ¬StartsTrivia rest
  word : StartsWord rest →
    IsLongest (fun part => ∀ c ∈ part, isWordChar c = true) rest text.toList ∧
      (∀ reserved : Kind, reserved.Reserves text → kind = reserved) ∧
      ((∀ reserved : Kind, ¬reserved.Reserves text) → kind = .ident)
  number : StartsNumber rest →
    IsLongest (fun part => ∀ c ∈ part, c.isDigit = true) rest text.toList ∧ kind = .integer
  symbol : ¬StartsWord rest → ¬StartsNumber rest → StartsSymbol rest →
    IsLongest (fun part => ∃ kind : Kind, kind.Symbolizes (String.ofList part)) rest text.toList ∧
      ∀ symbol : Kind, symbol.Symbolizes text ↔ kind = symbol
  stray : ¬StartsWord rest → ¬StartsNumber rest → ¬StartsSymbol rest →
    kind = .invalid ∧ ∃ c, rest.head? = some c ∧ text = c.toString
  spelled : ∀ spelling, kind.spelling? = some spelling → text = spelling

theorem isLongest_takeWhile (p : Char → Bool) (text : List Char) :
    IsLongest (fun part => ∀ c ∈ part, p c = true) text (text.takeWhile p) := by
  refine ⟨List.takeWhile_prefix p, List.all_eq_true.mp List.all_takeWhile, ?_⟩
  rintro other ⟨rest, rfl⟩ all
  rw [List.takeWhile_append_of_pos all, List.length_append]
  omega

theorem isAlpha_eq_false {c : Char} (digit : c.isDigit = true) : c.isAlpha = false := by
  by_contra letter
  simp only [Bool.not_eq_false] at letter
  change (decide (c.val ≥ '0'.val) && decide (c.val ≤ '9'.val)) = true at digit
  change (decide (c.val ≥ 'A'.val ∧ c.val ≤ 'Z'.val) ||
    (decide (c.val ≥ 'a'.val) && decide (c.val ≤ 'z'.val))) = true at letter
  simp only [Bool.or_eq_true, Bool.and_eq_true, decide_eq_true_eq, ge_iff_le,
    UInt32.le_iff_toNat_le] at digit letter
  change 48 ≤ c.toNat ∧ c.toNat ≤ 57 at digit
  change (65 ≤ c.toNat ∧ c.toNat ≤ 90) ∨ (97 ≤ c.toNat ∧ c.toNat ≤ 122) at letter
  omega

@[simp] theorem startsWord_cons {c : Char} {cs : List Char} :
    StartsWord (c :: cs) ↔ isWordChar c = true ∧ c.isDigit = false := by
  simp only [StartsWord, List.head?_cons, Option.mem_some_iff, exists_eq_left', isWordChar,
    Char.isAlphanum, Bool.or_eq_true, beq_iff_eq]
  cases digit : c.isDigit with
  | true =>
      have underscore : c ≠ '_' := by
        rintro rfl
        revert digit
        decide
      simp [isAlpha_eq_false digit, underscore]
  | false => simp

@[simp] theorem startsNumber_cons {c : Char} {cs : List Char} :
    StartsNumber (c :: cs) ↔ c.isDigit = true := by
  simp [StartsNumber]

namespace Kind

theorem ofWord?_eq_some_iff {word : String} {kind : Kind} :
    ofWord? word = some kind ↔ kind.Reserves word := by
  constructor
  · intro found
    have spelled := List.find?_some found
    have member := List.mem_of_find?_eq_some found
    simp only [decide_eq_true_eq] at spelled
    simp only [reserved, List.mem_cons, List.not_mem_nil, or_false] at member
    rcases member with rfl | rfl | rfl | rfl <;> cases spelled
    · exact .keyword .letWord
    · exact .keyword .mutWord
    · exact .keyword .lazyWord
    · exact .is
  · rintro (word | _)
    · cases word <;> decide
    · decide

theorem Symbolizes.chars {kind : Kind} {text : String} (symbolizes : kind.Symbolizes text) :
    kind.chars = text.toList := by
  cases symbolizes <;> rfl

theorem Symbolizes.mem_symbols {kind : Kind} {part text : List Char}
    (symbolizes : kind.Symbolizes (String.ofList part)) (leads : part <+: text)
    (noWord : ¬StartsWord text) : kind ∈ symbols ∧ kind.chars = part := by
  have same : kind.chars = part := by simpa using symbolizes.chars
  refine ⟨?_, same⟩
  generalize String.ofList part = spelling at symbolizes
  cases symbolizes with
  | punct mark => cases mark <;> decide
  | operator op =>
      by_cases word : op = .is
      · -- The one operator spelled with letters is a word, and none starts here.
        subst word
        rw [← same] at leads
        obtain ⟨rest, rfl⟩ := leads
        refine absurd ?_ noWord
        exact startsWord_cons.mpr (by decide)
      · revert word
        cases op <;> decide

theorem symbolizes_of_mem_symbols {kind : Kind} (member : kind ∈ symbols) :
    kind.Symbolizes (String.ofList kind.chars) := by
  cases kind with
  | operator op => simpa [chars, spelling?] using Symbolizes.operator op
  | punct mark => simpa [chars, spelling?] using Symbolizes.punct mark
  | keyword word => exact absurd member (by cases word <;> decide)
  | ident | integer | eof | invalid => exact absurd member (by decide)

theorem isLongest_of_ofSymbol? {text : List Char} {kind : Kind} (noWord : ¬StartsWord text)
    (found : ofSymbol? text = some kind) :
    IsLongest (fun part => ∃ kind : Kind, kind.Symbolizes (String.ofList part)) text
      kind.chars := by
  obtain ⟨fits, earlier, later, whole, before⟩ := List.find?_eq_some_iff_append.mp found
  refine ⟨List.isPrefixOf_iff_prefix.mp fits, ⟨kind, ?_⟩, ?_⟩
  · exact symbolizes_of_mem_symbols (List.mem_of_find?_eq_some found)
  · rintro other leads ⟨symbol, symbolizes⟩
    obtain ⟨member, rfl⟩ := symbolizes.mem_symbols leads noWord
    have sorted := symbols_sorted
    rw [whole] at member sorted
    have behind := (List.pairwise_cons.mp (List.pairwise_append.mp sorted).2.1).1
    rcases List.mem_append.mp member with early | here
    · -- The table is searched from the longest symbols on, and an earlier one that fits would win.
      have refused := before symbol early
      rw [List.isPrefixOf_iff_prefix.mpr leads] at refused
      cases refused
    · rcases List.mem_cons.mp here with rfl | late
      · exact Nat.le_refl _
      · exact behind symbol late

theorem eq_of_chars_eq {a b : Kind} (left : a ∈ symbols) (right : b ∈ symbols)
    (same : a.chars = b.chars) : a = b := by
  have alone : ∀ kind ∈ symbols, ofSymbol? kind.chars = some kind := by decide
  have found := (alone a left).symm.trans (same ▸ alone b right)
  exact Option.some.inj found

theorem symbolizes_iff_of_ofSymbol? {text : List Char} {kind : Kind} (noWord : ¬StartsWord text)
    (found : ofSymbol? text = some kind) (symbol : Kind) :
    symbol.Symbolizes (String.ofList kind.chars) ↔ kind = symbol := by
  have member := List.mem_of_find?_eq_some found
  constructor
  · intro symbolizes
    obtain ⟨inside, same⟩ :=
      symbolizes.mem_symbols (isLongest_of_ofSymbol? noWord found).leads noWord
    exact eq_of_chars_eq member inside same.symm
  · rintro rfl
    exact symbolizes_of_mem_symbols member

theorem ofSymbol?_isSome {text : List Char} (noWord : ¬StartsWord text)
    (starts : StartsSymbol text) : (ofSymbol? text).isSome = true := by
  obtain ⟨part, leads, symbol, symbolizes⟩ := starts
  obtain ⟨member, rfl⟩ := symbolizes.mem_symbols leads noWord
  rw [ofSymbol?, List.find?_isSome]
  exact ⟨symbol, member, List.isPrefixOf_iff_prefix.mpr leads⟩

theorem Spells.eq_of_spelling? {kind : Kind} {text spelling : String} (spells : kind.Spells text)
    (spelled : kind.spelling? = some spelling) : text = spelling := by
  cases kind <;> simp_all [Kind.spelling?, Kind.Spells]

end Kind

namespace Piece

theorem munches_number {c : Char} {cs : List Char} (plain : ¬StartsTrivia (c :: cs))
    (digit : c.isDigit = true) :
    Munches (c :: cs) .integer (String.ofList ((c :: cs).takeWhile Char.isDigit)) where
  plain := plain
  word starts := by simp [digit] at starts
  number _ := ⟨by simpa using isLongest_takeWhile Char.isDigit (c :: cs), rfl⟩
  symbol _ noNumber := by simp [digit] at noNumber
  stray _ noNumber := by simp [digit] at noNumber
  spelled spelling reserved := by cases reserved

theorem munches_word {c : Char} {cs : List Char} (plain : ¬StartsTrivia (c :: cs))
    (letter : isWordChar c = true) (noDigit : c.isDigit = false) {kind : Kind} {chars : List Char}
    (found : (run isWordChar word (c :: cs)).1 = .lexeme kind chars) :
    Munches (c :: cs) kind (String.ofList chars) := by
  have starts : StartsWord (c :: cs) := startsWord_cons.mpr ⟨letter, noDigit⟩
  have spelled : (run isWordChar word (c :: cs)).1.Spelled := spelled_word letter noDigit
  rw [found] at spelled
  cases found
  refine ⟨plain, fun _ => ⟨?_, ?_, ?_⟩, ?_, fun noWord => absurd starts noWord,
    fun noWord => absurd starts noWord, fun spelling => Kind.Spells.eq_of_spelling? spelled⟩
  · simpa using isLongest_takeWhile isWordChar (c :: cs)
  · intro reserved reserves
    rw [Kind.ofWord?_eq_some_iff.mpr reserves, Option.getD_some]
  · intro free
    rw [Option.eq_none_iff_forall_ne_some.mpr fun kind named =>
      free kind (Kind.ofWord?_eq_some_iff.mp named), Option.getD_none]
  · intro number
    simp [noDigit] at number

theorem munches_symbol {c : Char} {cs : List Char} (plain : ¬StartsTrivia (c :: cs))
    (noLetter : isWordChar c = false) {lexeme : Kind × String}
    (found : (symbol c cs).1.lexeme? = some lexeme) : Munches (c :: cs) lexeme.1 lexeme.2 := by
  have noWord : ¬StartsWord (c :: cs) := by simp [noLetter]
  have noNumber : ¬StartsNumber (c :: cs) := by simp [isDigit_eq_false noLetter]
  have spelled := spelled_symbol c cs
  rw [symbol] at found spelled
  split at found
  · next kind named =>
      cases found
      simp only [named] at spelled
      refine ⟨plain, fun starts => absurd starts noWord, fun starts => absurd starts noNumber,
        fun _ _ _ => ⟨?_, Kind.symbolizes_iff_of_ofSymbol? noWord named⟩, ?_,
        fun spelling => Kind.Spells.eq_of_spelling? spelled⟩
      · simpa using Kind.isLongest_of_ofSymbol? noWord named
      · intro _ _ noSymbol
        have longest := Kind.isLongest_of_ofSymbol? noWord named
        exact absurd ⟨_, longest.leads, longest.holds⟩ noSymbol
  · next unknown =>
      cases found
      refine ⟨plain, fun starts => absurd starts noWord, fun starts => absurd starts noNumber,
        ?_, fun _ _ _ => ⟨rfl, c, rfl, rfl⟩, ?_⟩
      · intro _ _ starts
        have some := Kind.ofSymbol?_isSome noWord starts
        rw [unknown] at some
        cases some
      · intro spelling reserved
        cases reserved

theorem not_startsTrivia_of_lexeme? {c : Char} {cs : List Char} {lexeme : Kind × String}
    (found : (first c cs).1.lexeme? = some lexeme) : ¬StartsTrivia (c :: cs) := by
  have fits := fits_first c cs
  rw [← chars_first c cs]
  generalize (first c cs).2 = rest at fits ⊢
  cases piece : (first c cs).1 with
  | lexeme kind chars =>
      rw [piece] at fits
      exact fits.2
  | stray d =>
      rw [piece] at fits
      exact fits
  | blank | lineComment | blockComment | openComment =>
      rw [piece] at found
      cases found

theorem munches_first {c : Char} {cs : List Char} {lexeme : Kind × String}
    (found : (first c cs).1.lexeme? = some lexeme) : Munches (c :: cs) lexeme.1 lexeme.2 := by
  have plain := not_startsTrivia_of_lexeme? found
  rw [first_of_not_startsTrivia plain, lexemeOrStray] at found
  split at found
  · next digit =>
      cases found
      exact munches_number plain digit
  · next noDigit =>
      split at found
      · next letter =>
          cases found
          exact munches_word plain letter (by simpa using noDigit) rfl
      · next noLetter => exact munches_symbol plain (by simpa using noLetter) found

end Piece

theorem exists_first_of_mem_placed {offset : Nat} {text : List Char} {start : Nat} {piece : Piece}
    (member : (start, piece) ∈ placed offset (pieces text)) :
    ∃ before c cs, text = before ++ c :: cs ∧ start = offset + byteSize before ∧
      piece = (Piece.first c cs).1 := by
  fun_induction pieces text generalizing offset with
  | case1 => cases member
  | case2 c cs ih =>
      rcases List.mem_cons.mp member with same | later
      · cases same
        exact ⟨[], c, cs, rfl, rfl, rfl⟩
      · obtain ⟨before, d, ds, rest, rfl, same⟩ := ih later
        refine ⟨(Piece.first c cs).1.chars ++ before, d, ds, ?_, ?_, same⟩
        · rw [← Piece.chars_first c cs, rest, List.append_assoc]
        · rw [byteSize_append, Nat.add_assoc]

theorem Piece.start_of_token? {source : String} {start : Nat} {piece : Piece} {token : Token}
    (made : piece.token? source start = some token) : token.span.start = start := by
  cases piece <;> cases made <;> rfl

/-- Every token but the last is munched from what the text holds from its start on. -/
theorem tokenize_munches {source text : String} {token : Token}
    (member : token ∈ (tokenize source text).tokens) (known : token.kind ≠ .eof) :
    ∃ before rest, text.toList = before ++ rest ∧ byteSize before = token.span.start ∧
      Munches rest token.kind token.text := by
  rcases List.mem_append.mp member with found | last
  · obtain ⟨⟨start, piece⟩, inside, made⟩ := List.mem_filterMap.mp found
    change piece.token? source start = some token at made
    obtain ⟨before, c, cs, whole, same, rfl⟩ := exists_first_of_mem_placed inside
    have lexeme : (Piece.first c cs).1.lexeme? = some token.lexeme := by
      rw [← map_lexeme_token? source start, made, Option.map_some]
    refine ⟨before, c :: cs, whole, ?_, Piece.munches_first lexeme⟩
    rw [Piece.start_of_token? made, same, Nat.zero_add]
  · obtain rfl := List.mem_singleton.mp last
    exact absurd rfl known

-- The longest symbol wins over `||` and `>`, though a reserved word follows directly.
theorem munches_awaitPipe :
    ∃ token ∈ (tokenize "main" "x/**/||>is").tokens, token.kind ≠ .eof ∧
      token.text = "||>" ∧ token.kind = .operator .awaitPipe ∧
      ∃ before rest, "x/**/||>is".toList = before ++ rest ∧
        byteSize before = token.span.start ∧ Munches rest token.kind token.text := by
  have member : ⟨.operator .awaitPipe, "||>", .ofRange "main" 5 8⟩ ∈
      (tokenize "main" "x/**/||>is").tokens := by
    decide +kernel
  exact ⟨_, member, by simp, rfl, rfl, tokenize_munches member (by simp)⟩

end Pipewright
