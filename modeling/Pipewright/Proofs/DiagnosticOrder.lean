import Mathlib.Data.List.Nodup
import Pipewright.Proofs.Compiling
import Pipewright.Proofs.LexicalErrors
import Pipewright.Proofs.LineTables
import Pipewright.Proofs.MaximalMunch

set_option autoImplicit false

namespace Pipewright

open Text ParseTree

def Compilation.reports (compilation : Compilation) (text : String) : List (Span × String) :=
  compilation.lexErrors.map (fun error => (error.span, error.fullMessage text)) ++
    compilation.parseErrors.map fun error => (error.span, error.fullMessage text)

def noLater (left right : Span × String) : Bool :=
  left.1.start ≤ right.1.start

theorem noLater_iff {left right : Span × String} :
    noLater left right = true ↔ left.1.start ≤ right.1.start :=
  decide_eq_true_iff

theorem pairwise_mergeSort_noLater {reports : List (Span × String)}
    (distinct : (reports.map (·.1.start)).Nodup) :
    (reports.mergeSort noLater).Pairwise fun left right => left.1.start < right.1.start := by
  have sorted : (reports.mergeSort noLater).Pairwise fun left right => noLater left right := by
    apply List.pairwise_mergeSort
    · intro first second third
      simpa only [noLater_iff] using Nat.le_trans
    · intro left right
      simpa only [Bool.or_eq_true, noLater_iff] using Nat.le_total left.1.start right.1.start
  have apart := List.pairwise_map.mp
    (((List.mergeSort_perm reports noLater).map (·.1.start)).nodup_iff.mpr distinct)
  refine sorted.imp₂ ?_ apart
  intro left right before different
  exact Nat.lt_of_le_of_ne (noLater_iff.mp before) different

theorem Compilation.diagnostics_eq (compilation : Compilation) (text : String) :
    compilation.diagnostics text = ((compilation.reports text).mergeSort noLater).map (·.2) := by
  let start (report : Span × String) : Nat × String := (report.1.start, report.2)
  have sorted := List.map_mergeSort (l := compilation.reports text) (f := start) (r := noLater)
    (s := fun left right => left.1 ≤ right.1) (fun _ _ _ _ => rfl)
  have starts : (compilation.reports text).map start =
      compilation.lexErrors.map (fun error => (error.span.start, error.fullMessage text)) ++
        compilation.parseErrors.map fun error => (error.span.start, error.fullMessage text) := by
    rw [Compilation.reports, List.map_append, List.map_map, List.map_map]
    rfl
  rw [Compilation.diagnostics, ← starts, ← sorted, List.map_map]
  rfl

theorem Piece.span_of_error? {source : String} {start : Nat} {piece : Piece}
    {error : Located LexError} (made : piece.error? source start = some error) :
    error.span = piece.span source start := by
  cases piece <;> cases made <;> rfl

theorem Piece.kind_of_error? {source : String} {start : Nat} {piece : Piece}
    {error : Located LexError} {token : Token} (fails : piece.error? source start = some error)
    (made : piece.token? source start = some token) : token.kind = .invalid := by
  cases piece <;> cases fails <;> cases made
  rfl

/-- Where errors may be reported: at those of the lexer, and at the tokens that the parser reads. -/
def Lexed.sites (lexed : Lexed) : List Span :=
  lexed.errors.map (·.span) ++ (valid lexed.tokens).map (·.span)

section

variable {source text : String}

theorem exists_mem_placed_of_error {error : Located LexError}
    (member : error ∈ (tokenize source text).errors) :
    ∃ place ∈ placed 0 (pieces text.toList), place.2.error? source place.1 = some error := by
  simpa [tokenize] using member

theorem exists_mem_placed_of_token {token : Token}
    (member : token ∈ (tokenize source text).tokens) :
    token = .eofAt source text.utf8ByteSize ∨
      ∃ place ∈ placed 0 (pieces text.toList), place.2.token? source place.1 = some token := by
  simpa [tokenize_tokens, tokensOf, or_comm] using member

theorem bounds_of_mem_placed {place : Nat × Piece}
    (member : place ∈ placed 0 (pieces text.toList)) :
    place.1 < text.utf8ByteSize ∧ place.1 + byteSize place.2.chars ≤ text.utf8ByteSize := by
  have stop := stop_le_of_mem_placed place member
  rw [flatMap_pieces, Nat.zero_add, byteSize_toList] at stop
  have some := chars_ne_nil_of_mem_pieces text.toList place.2 (snd_mem_of_mem_placed member)
  have size := Nat.pos_of_ne_zero (mt byteSize_eq_zero.mp some)
  exact ⟨by omega, stop⟩

theorem error_start_ne {error : Located LexError} {token : Token}
    (failed : error ∈ (tokenize source text).errors)
    (lexed : token ∈ (tokenize source text).tokens) (known : token.kind ≠ .invalid) :
    error.span.start ≠ token.span.start := by
  intro same
  obtain ⟨place, member, fails⟩ := exists_mem_placed_of_error failed
  rw [Piece.start_of_error? fails] at same
  obtain rfl | ⟨other, inside, made⟩ := exists_mem_placed_of_token lexed
  · -- Every piece starts before the end of the text.
    have bounds := bounds_of_mem_placed member
    exact Nat.ne_of_lt bounds.1 same
  · -- One start is one piece, and a piece that gives an error gives no token to be read.
    rw [Piece.start_of_token? made] at same
    have starts : ((placed 0 (pieces text.toList)).map Prod.fst).Nodup :=
      List.pairwise_map.mpr
        ((pairwise_placed (chars_ne_nil_of_mem_pieces text.toList)).imp Nat.ne_of_lt)
    obtain rfl := List.inj_on_of_nodup_map starts member inside same
    exact known (Piece.kind_of_error? fails made)

end

theorem pairwise_start_tokens (source text : String) :
    (tokenize source text).tokens.Pairwise fun left right =>
      left.span.start < right.span.start := by
  obtain ⟨front, whole, all⟩ := exists_tokens_tokenize source text
  have ordered := (layout_tokenize source text).pairwise
  rw [whole, List.pairwise_append] at ordered ⊢
  obtain ⟨inner, last, between⟩ := ordered
  refine ⟨inner.imp_of_mem ?_, List.pairwise_singleton _ _, ?_⟩
  · intro left right first _ before
    exact Nat.lt_of_lt_of_le (all left first).2.2 before
  · intro left first right final
    exact Nat.lt_of_lt_of_le (all left first).2.2 (between left first right final)

theorem nodup_sites (source text : String) :
    ((tokenize source text).sites.map Span.start).Nodup := by
  rw [Lexed.sites, List.map_append, List.map_map, List.map_map, List.nodup_append]
  refine ⟨?_, ?_, ?_⟩
  · exact List.pairwise_map.mpr ((pairwise_errorsOf source 0 text.toList).imp Nat.ne_of_lt)
  · have ordered := (pairwise_start_tokens source text).imp Nat.ne_of_lt
    exact List.pairwise_map.mpr (ordered.sublist List.filter_sublist)
  · simp only [List.forall_mem_map, valid, List.mem_filter, decide_eq_true_eq, and_imp]
    intro error failed token lexed known
    exact error_start_ne failed lexed known

theorem bounds_sites (source text : String) :
    ∀ span ∈ (tokenize source text).sites,
      span.source = source ∧ span.stop ≤ text.utf8ByteSize := by
  rw [Lexed.sites, List.forall_mem_append, List.forall_mem_map, List.forall_mem_map]
  constructor
  · intro error failed
    obtain ⟨place, member, fails⟩ := exists_mem_placed_of_error failed
    have bounds := bounds_of_mem_placed member
    rw [Piece.span_of_error? fails, Piece.span, Span.source_ofRange, Span.stop_ofRange]
    exact ⟨rfl, by omega⟩
  · intro token kept
    obtain ⟨before, after, whole, span⟩ :=
      (layout_tokenize source text).exists_append token (List.mem_of_mem_filter kept)
    have size := congrArg byteSize whole
    rw [byteSize_toList, byteSize_append, byteSize_append] at size
    rw [span, Span.source_ofRange, Span.stop_ofRange]
    exact ⟨rfl, by omega⟩

namespace ParseTree

theorem faults_sublist (eof : Token) (tokens : List Token) :
    ((cut tokens).faults eof).flatten.Sublist (tokens ++ [eof]) := by
  have chunks : ((cut tokens).chunks.filter fun chunk => ¬IsStatement chunk).flatten.Sublist
      (cut tokens).chunks.flatten := List.filter_sublist.flatten
  have last : (if (cut tokens).remainder = [] then [] else
      [(cut tokens).remainder ++ [eof]]).flatten.Sublist ((cut tokens).remainder ++ [eof]) := by
    split
    · exact List.nil_sublist _
    · simp
  have both := chunks.append last
  rw [← List.append_assoc, (cut_divides tokens).tokens] at both
  rwa [Cut.faults, List.flatten_append]

theorem spans_sublist {errors : List (Located ParseError)} {rows : List (List Token)}
    (found : List.Forall₂ FoundIn errors rows) :
    (errors.map (·.span)).Sublist (rows.flatten.map (·.span)) := by
  induction found with
  | nil => exact .slnil
  | @cons error row _ _ here _ ih =>
      rw [List.flatten_cons, List.map_append, List.map_cons, here.2]
      exact (List.singleton_sublist.mpr (List.mem_map_of_mem here.1)).append ih

theorem spans_parse_sublist {front : List Token} (eof : Token) (ends : eof.kind = .eof)
    (inner : ∀ token ∈ front, token.kind ≠ .eof) :
    ((parse (front ++ [eof])).errors.map (·.span)).Sublist
      ((valid (front ++ [eof])).map (·.span)) := by
  have kept : valid (front ++ [eof]) = valid front ++ [eof] := by simp [valid, ends]
  have recovers := readings_recovers eof (valid front) fun token member =>
    inner token (List.mem_of_mem_filter member)
  rw [(parse_concat front ends).2, kept]
  by_cases empty : valid front = []
  · -- With nothing to read there is one error, at the end of input.
    simp [empty, readings, atEnd, ParseError.refuse]
  · have found := recovers.nonempty empty
    rw [← List.isEmpty_iff, ← List.isEmpty_iff, ← Bool.and_eq_true] at found
    rw [if_neg found, List.append_nil]
    exact (spans_sublist recovers.errors).trans ((faults_sublist eof (valid front)).map _)

end ParseTree

theorem spans_reports_sublist (source text : String) :
    (((compile source text).reports text).map (·.1)).Sublist (tokenize source text).sites := by
  obtain ⟨front, whole, all⟩ := exists_tokens_tokenize source text
  have found := spans_parse_sublist (.eofAt source text.utf8ByteSize) rfl
    fun token member => (all token member).1
  rw [← whole] at found
  rw [Compilation.reports, List.map_append, List.map_map, List.map_map]
  exact (List.Sublist.refl _).append found

theorem nodup_starts_reports (source text : String) :
    (((compile source text).reports text).map (·.1.start)).Nodup := by
  have starts := (nodup_sites source text).sublist
    ((spans_reports_sublist source text).map Span.start)
  rwa [List.map_map] at starts

theorem bounds_reports (source text : String) :
    ∀ report ∈ (compile source text).reports text,
      report.1.source = source ∧ report.1.stop ≤ text.utf8ByteSize := by
  intro report member
  exact bounds_sites source text report.1
    ((spans_reports_sublist source text).subset (List.mem_map_of_mem member))

/-- The errors of the lexer and the parser lie in the text, no two of them start at one place, and
the diagnostics are their messages, each once, in the order of their starts. -/
theorem diagnostics_compile_ordered (source text : String) :
    (∀ report ∈ (compile source text).reports text,
      report.1.source = source ∧ report.1.stop ≤ text.utf8ByteSize) ∧
    (((compile source text).reports text).map (·.1.start)).Nodup ∧
    ∃ shown : List (Span × String), shown.Perm ((compile source text).reports text) ∧
      shown.Pairwise (fun left right => left.1.start < right.1.start) ∧
      (compile source text).diagnostics text = shown.map (·.2) := by
  have distinct := nodup_starts_reports source text
  exact ⟨bounds_reports source text, distinct, _, List.mergeSort_perm _ noLater,
    pairwise_mergeSort_noLater distinct, Compilation.diagnostics_eq _ text⟩

namespace Located

variable {ε δ : Type} [Explained ε] [Explained δ] {text : String}

theorem exists_toList_fullMessage (located : Located ε) (text : String) :
    let place := located.position (.ofText text.toList)
    ∃ rest, (located.fullMessage text).toList =
      located.span.source.toList ++ ':' :: (Text.decimal (place.line + 1) ++
        ':' :: (Text.decimal (place.column + 1) ++ ' ' :: rest)) := by
  simp [fullMessage, shortMessage, Text.decimal, Nat.toString_eq_repr, Nat.toList_repr,
    String.toList_intercalate]

theorem position_eq_of_fullMessage_eq {left : Located ε} {right : Located δ}
    (source : left.span.source = right.span.source)
    (same : left.fullMessage text = right.fullMessage text) :
    left.position (.ofText text.toList) = right.position (.ofText text.toList) := by
  obtain ⟨rest, shown⟩ := left.exists_toList_fullMessage text
  obtain ⟨after, written⟩ := right.exists_toList_fullMessage text
  rw [same, written, source, List.append_cancel_left_eq, List.cons_inj_right] at shown
  have colon (rest : List Char) : Text.EndsNumber (':' :: rest) :=
    Text.endsNumber_cons rest (by decide)
  have space (rest : List Char) : Text.EndsNumber (' ' :: rest) :=
    Text.endsNumber_cons rest (by decide)
  obtain ⟨lines, behind⟩ := Text.decimal_append_inj (colon _) (colon _) shown
  rw [List.cons_inj_right] at behind
  obtain ⟨columns, -⟩ := Text.decimal_append_inj (space _) (space _) behind
  rw [Text.Position.mk.injEq]
  omega

/-- The place at the head of a message tells where the error starts. -/
theorem fullMessage_ne (left : Located ε) (right : Located δ)
    (source : left.span.source = right.span.source)
    (before : left.span.start ≤ text.utf8ByteSize) (behind : right.span.start ≤ text.utf8ByteSize)
    (apart : left.span.start ≠ right.span.start) :
    left.fullMessage text ≠ right.fullMessage text := by
  intro same
  have increasing := Text.LineTable.increasing_ofText text.toList
  rw [← Text.byteSize_toList] at before behind
  apply apart
  rw [← (increasing.offset_position before).2, ← (increasing.offset_position behind).2]
  exact congrArg _ (position_eq_of_fullMessage_eq source same)

end Located

theorem Compilation.message_ne_of_start_ne {compilation : Compilation} {text : String}
    {left right : Span × String} (first : left ∈ compilation.reports text)
    (second : right ∈ compilation.reports text) (source : left.1.source = right.1.source)
    (before : left.1.start ≤ text.utf8ByteSize) (behind : right.1.start ≤ text.utf8ByteSize)
    (apart : left.1.start ≠ right.1.start) : left.2 ≠ right.2 := by
  rw [reports, List.mem_append, List.mem_map, List.mem_map] at first second
  obtain ⟨error, -, rfl⟩ | ⟨error, -, rfl⟩ := first <;>
    obtain ⟨other, -, rfl⟩ | ⟨other, -, rfl⟩ := second
  all_goals
    dsimp only at source before behind apart ⊢
    exact error.fullMessage_ne other source before behind apart

theorem nodup_diagnostics_compile (source text : String) :
    ((compile source text).diagnostics text).Nodup := by
  rw [Compilation.diagnostics_eq, List.Nodup, List.pairwise_map]
  refine (pairwise_mergeSort_noLater (nodup_starts_reports source text)).imp_of_mem ?_
  intro left right first second before
  rw [List.mem_mergeSort] at first second
  obtain ⟨own, inside⟩ := bounds_reports source text left first
  obtain ⟨same, within⟩ := bounds_reports source text right second
  exact Compilation.message_ne_of_start_ne first second (own.trans same.symm)
    (Nat.le_trans left.1.start_le_stop inside) (Nat.le_trans right.1.start_le_stop within)
    (Nat.ne_of_lt before)

end Pipewright
