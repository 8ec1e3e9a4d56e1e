import Mathlib.Data.Nat.PSub
import Mathlib.Data.Set.Function
import Pipewright.Proofs.TextLines

set_option autoImplicit false

namespace Pipewright.Text

/-- The line begins at `start`, which is not behind the offset, and the next line begins behind the
offset if there is one. -/
structure IsLineOf (starts : List Nat) (offset line start : Nat) : Prop where
  begins : starts[line]? = some start
  reached : start ≤ offset
  ends : ∀ next, starts[line + 1]? = some next → offset < next

theorem exists_isLineOf {first offset : Nat} (rest : List Nat) (reached : first ≤ offset) :
    ∃ line start, IsLineOf (first :: rest) offset line start := by
  induction rest generalizing first with
  | nil => exact ⟨0, first, rfl, reached, by simp⟩
  | cons next rest ih =>
      by_cases further : next ≤ offset
      · obtain ⟨line, start, begins, reached, ends⟩ := ih further
        exact ⟨line + 1, start, begins, reached, ends⟩
      · refine ⟨0, first, rfl, reached, ?_⟩
        simp only [List.getElem?_cons_succ, List.getElem?_cons_zero, Option.some.injEq, forall_eq']
        omega

theorem IsLineOf.takeWhile {starts : List Nat} {offset line start : Nat}
    (isLine : IsLineOf starts offset line start) (ordered : starts.Pairwise (· < ·)) :
    starts.takeWhile (· ≤ offset) = starts.take (line + 1) := by
  obtain ⟨begins, reached, ends⟩ := isLine
  induction starts generalizing line with
  | nil => simp at begins
  | cons first rest ih =>
      obtain ⟨below, ordered⟩ := List.pairwise_cons.mp ordered
      cases line with
      | zero =>
          -- The second start stops the search.
          obtain rfl : first = start := by simpa using begins
          cases rest with
          | nil => simp [reached]
          | cons next rest =>
              have := ends next rfl
              simp [reached, this]
      | succ line =>
          have earlier : first < start := below start (List.mem_of_getElem? begins)
          have within : first ≤ offset := by omega
          rw [List.takeWhile_cons_of_pos (by simpa using within), List.take_succ_cons,
            ih ordered begins ends]

theorem getElem?_lt_of_lt {starts : List Nat} (ordered : starts.Pairwise (· < ·))
    {i j a b : Nat} (lt : i < j) (first : starts[i]? = some a) (second : starts[j]? = some b) :
    a < b := by
  obtain ⟨inside, rfl⟩ := List.getElem?_eq_some_iff.mp first
  obtain ⟨further, rfl⟩ := List.getElem?_eq_some_iff.mp second
  exact List.pairwise_iff_getElem.mp ordered i j inside further lt

namespace LineTable

variable {table : LineTable}

structure Increasing (table : LineTable) : Prop where
  first : table.starts[0]? = some 0
  ordered : table.starts.Pairwise (· < ·)
  within : ∀ start ∈ table.starts, start ≤ table.size

theorem increasing_ofText (text : List Char) : (ofText text).Increasing where
  first := rfl
  ordered := by
    refine List.pairwise_cons.mpr ⟨?_, pairwise_breaksFrom 0 text⟩
    intro start member
    exact (bounds_of_mem_breaksFrom start member).1
  within := by
    refine List.forall_mem_cons.mpr ⟨Nat.zero_le _, ?_⟩
    intro start member
    have := bounds_of_mem_breaksFrom start member
    simp only [ofText]
    omega

theorem Increasing.exists_isLineOf (increasing : table.Increasing) (offset : Nat) :
    ∃ line start, IsLineOf table.starts offset line start := by
  have first := increasing.first
  cases starts : table.starts with
  | nil => simp [starts] at first
  | cons start rest =>
      obtain rfl : start = 0 := by simpa [starts] using first
      exact Text.exists_isLineOf rest (Nat.zero_le offset)

theorem position_min (table : LineTable) (offset : Nat) :
    table.position (min offset table.size) = table.position offset := by
  simp [position]

theorem Increasing.position_eq (increasing : table.Increasing) {offset line start : Nat}
    (inside : offset ≤ table.size) (isLine : IsLineOf table.starts offset line start) :
    table.position offset = ⟨line, offset - start⟩ := by
  obtain ⟨known, -⟩ := List.getElem?_eq_some_iff.mp isLine.begins
  have last : (table.starts.take (line + 1)).getLast? = some start := by
    rw [List.getLast?_take]
    simp [isLine.begins]
  simp only [position, Nat.min_eq_left inside, isLine.takeWhile increasing.ordered, last,
    Option.getD_some, List.length_take]
  congr 1
  omega

theorem Increasing.start_lt_next (increasing : table.Increasing) {line start next : Nat}
    (begins : table.starts[line]? = some start) (follows : table.starts[line + 1]? = some next) :
    start < next :=
  getElem?_lt_of_lt increasing.ordered (Nat.lt_succ_self line) begins follows

theorem Increasing.range_of_lineRange? (increasing : table.Increasing) {line start stop : Nat}
    (found : table.lineRange? line = some (start, stop)) :
    start ≤ stop ∧ stop ≤ table.size ∧
      ∀ offset, start ≤ offset ∧ offset ≤ stop ↔
        offset ≤ table.size ∧ IsLineOf table.starts offset line start := by
  rw [lineRange?, Option.map_eq_some_iff] at found
  obtain ⟨_, begins, same⟩ := found
  cases same
  have within := increasing.within start (List.mem_of_getElem? begins)
  cases follows : table.starts[line + 1]? with
  | none =>
      simp only [Option.map_none, Option.getD_none]
      refine ⟨within, Nat.le_refl _, fun offset => ⟨?_, ?_⟩⟩
      · intro between
        exact ⟨between.2, begins, between.1, by simp [follows]⟩
      · intro holds
        exact ⟨holds.2.reached, holds.1⟩
  | some next =>
      have := increasing.start_lt_next begins follows
      have := increasing.within next (List.mem_of_getElem? follows)
      simp only [Option.map_some, Option.getD_some]
      refine ⟨by omega, by omega, fun offset => ⟨?_, ?_⟩⟩
      · intro between
        refine ⟨by omega, begins, between.1, ?_⟩
        simp only [follows, Option.some.injEq, forall_eq']
        omega
      · intro holds
        have := holds.2.ends next follows
        exact ⟨holds.2.reached, by omega⟩

theorem isSome_lineRange?_iff {line : Nat} :
    (table.lineRange? line).isSome ↔ line < table.lineCount := by
  simp [lineRange?, lineCount]

def places (table : LineTable) : Set Position :=
  {place | place.line < table.lineCount ∧ ∃ start stop,
    table.lineRange? place.line = some (start, stop) ∧ place.column ≤ stop - start}

def offset (table : LineTable) (place : Position) : Nat :=
  ((table.lineRange? place.line).map Prod.fst).getD 0 + place.column

theorem offset_eq {place : Position} {start stop : Nat}
    (found : table.lineRange? place.line = some (start, stop)) :
    table.offset place = start + place.column := by
  simp [offset, found]

theorem Increasing.offset_position (increasing : table.Increasing) {offset : Nat}
    (inside : offset ≤ table.size) :
    table.position offset ∈ table.places ∧ table.offset (table.position offset) = offset := by
  obtain ⟨line, start, isLine⟩ := increasing.exists_isLineOf offset
  obtain ⟨stop, found⟩ : ∃ stop, table.lineRange? line = some (start, stop) := by
    simp [lineRange?, isLine.begins]
  obtain ⟨-, -, range⟩ := increasing.range_of_lineRange? found
  obtain ⟨reached, ends⟩ := (range offset).mpr ⟨inside, isLine⟩
  rw [increasing.position_eq inside isLine, offset_eq found]
  refine ⟨⟨?_, start, stop, found, ?_⟩, ?_⟩
  · rw [← isSome_lineRange?_iff, found]
    rfl
  · exact Nat.sub_le_sub_right ends start
  · exact Nat.add_sub_cancel' reached

theorem Increasing.position_offset (increasing : table.Increasing) {place : Position}
    (has : place ∈ table.places) :
    table.offset place ≤ table.size ∧ table.position (table.offset place) = place := by
  obtain ⟨-, start, stop, found, column⟩ := has
  obtain ⟨ordered, within, range⟩ := increasing.range_of_lineRange? found
  rw [offset_eq found]
  obtain ⟨inside, isLine⟩ := (range (start + place.column)).mp ⟨by omega, by omega⟩
  refine ⟨inside, ?_⟩
  rw [increasing.position_eq inside isLine, Nat.add_sub_cancel_left]

end LineTable

/-- Binary search from index `low` up to `high`. The result is the index of the value or, as an
error, the index where the value is to be inserted. -/
def search (starts : List Nat) (value low high : Nat) : Option (Except Nat Nat) :=
  if low < high then
    match starts[(low + high) / 2]? with
    | none => none
    | some start =>
        if start < value then search starts value ((low + high) / 2 + 1) high
        else if value < start then search starts value low ((low + high) / 2)
        else some (.ok ((low + high) / 2))
  else some (.error low)
termination_by high - low

inductive Finds (starts : List Nat) (value : Nat) : Except Nat Nat → Prop
  | present {index : Nat} : starts[index]? = some value → Finds starts value (.ok index)
  | absent {index : Nat} : index ≤ starts.length →
      (∀ i start, i < index → starts[i]? = some start → start < value) →
      (∀ i start, index ≤ i → starts[i]? = some start → value < start) →
        Finds starts value (.error index)

theorem getElem?_le_of_le {starts : List Nat} (ordered : starts.Pairwise (· < ·))
    {i j a b : Nat} (le : i ≤ j) (first : starts[i]? = some a) (second : starts[j]? = some b) :
    a ≤ b := by
  by_cases same : i = j
  · subst same
    cases first.symm.trans second
    exact Nat.le_refl a
  · exact Nat.le_of_lt (getElem?_lt_of_lt ordered (by omega) first second)

-- What lies before `low` is less than the value, what lies from `high` on is greater.
theorem search_finds {starts : List Nat} {value low high : Nat}
    (ordered : starts.Pairwise (· < ·)) (le : low ≤ high) (within : high ≤ starts.length)
    (below : ∀ i start, i < low → starts[i]? = some start → start < value)
    (above : ∀ i start, high ≤ i → starts[i]? = some start → value < start) :
    ∃ result, search starts value low high = some result ∧ Finds starts value result := by
  fun_induction search starts value low high with
  | case1 low high more missing =>
      rw [List.getElem?_eq_none_iff] at missing
      omega
  | case2 low high more start found less ih =>
      refine ih (by omega) within ?_ above
      intro i other before known
      have := getElem?_le_of_le ordered (by omega) known found
      omega
  | case3 low high more start found notLess greater ih =>
      refine ih (by omega) (by omega) below ?_
      intro i other behind known
      have := getElem?_le_of_le ordered behind found known
      omega
  | case4 low high more start found notLess notGreater =>
      obtain rfl : start = value := by omega
      exact ⟨_, rfl, .present found⟩
  | case5 low high closed =>
      obtain rfl : low = high := by omega
      exact ⟨_, rfl, .absent within below above⟩

def lastUpTo : Except Nat Nat → Option Nat
  | .ok index => some index
  | .error index => index.ppred

namespace LineTable

variable {table : LineTable}

def tryPosition (table : LineTable) (offset : Nat) : Option Position := do
  let offset := min offset table.size
  let result ← search table.starts offset 0 table.starts.length
  let line ← lastUpTo result
  let start ← table.starts[line]?
  let column ← offset.psub start
  some ⟨line, column⟩

def tryLineRange (table : LineTable) (line : Nat) : Option (Option (Nat × Nat)) :=
  match table.starts[line]? with
  | none => some none
  | some start =>
      match table.starts[line + 1]? with
      | none => some (some (start, table.size))
      | some next => next.ppred.map fun stop => some (start, stop)

theorem Increasing.exists_search (increasing : table.Increasing) (offset : Nat) :
    ∃ result, search table.starts offset 0 table.starts.length = some result ∧
      Finds table.starts offset result := by
  refine search_finds increasing.ordered (Nat.zero_le _) (Nat.le_refl _) (by simp) ?_
  intro i start behind known
  rw [List.getElem?_eq_none behind] at known
  cases known

theorem Increasing.lastUpTo_eq (increasing : table.Increasing) {offset : Nat}
    {result : Except Nat Nat} (finds : Finds table.starts offset result) :
    ∃ line start, lastUpTo result = some line ∧ IsLineOf table.starts offset line start := by
  cases finds with
  | @present line found =>
      refine ⟨line, offset, rfl, found, Nat.le_refl _, ?_⟩
      intro next follows
      exact increasing.start_lt_next found follows
  | @absent index known below above =>
      -- The first line starts at zero, so the offset is never to be inserted before it.
      cases index with
      | zero =>
          have := above 0 0 (Nat.le_refl _) increasing.first
          omega
      | succ line =>
          have begins := List.getElem?_eq_getElem known
          have := below line _ (Nat.lt_succ_self _) begins
          refine ⟨line, _, rfl, begins, by omega, ?_⟩
          intro next follows
          exact above (line + 1) next (Nat.le_refl _) follows

theorem Increasing.tryPosition_eq (increasing : table.Increasing) (offset : Nat) :
    table.tryPosition offset = some (table.position offset) := by
  obtain ⟨result, searched, finds⟩ := increasing.exists_search (min offset table.size)
  obtain ⟨line, start, chosen, isLine⟩ := increasing.lastUpTo_eq finds
  rw [← position_min, increasing.position_eq (Nat.min_le_right _ _) isLine]
  simp only [tryPosition, searched, chosen, isLine.begins, Nat.psub_eq_sub isLine.reached,
    Option.bind_eq_bind, Option.bind_some]

theorem Increasing.tryLineRange_eq (increasing : table.Increasing) (line : Nat) :
    table.tryLineRange line = some (table.lineRange? line) := by
  rw [tryLineRange, lineRange?]
  cases begins : table.starts[line]? with
  | none => rfl
  | some start =>
      cases follows : table.starts[line + 1]? with
      | none => rfl
      | some next =>
          have := increasing.start_lt_next begins follows
          simp only [Option.map_some, Option.getD_some]
          rw [Nat.ppred_eq_pred (by omega)]
          rfl

end LineTable

namespace LineTable

theorem starts_ofText (text : List Char) :
    (ofText text).starts = startsFrom 0 (text.splitOn '\n') :=
  (startsFrom_splitOn 0 text).symm

theorem getElem?_starts_ofText (text : List Char) (line : Nat) :
    (ofText text).starts[line]? =
      (text.splitOn '\n')[line]?.map fun _ => byteSize (linesBefore text line) := by
  rw [starts_ofText, getElem?_startsFrom]
  simp [linesBefore]

theorem lineRange?_ofText (text : List Char) (line : Nat) :
    (ofText text).lineRange? line = (text.splitOn '\n')[line]?.map fun piece =>
      (byteSize (linesBefore text line), byteSize (linesBefore text line) + byteSize piece) := by
  rw [lineRange?, getElem?_starts_ofText, getElem?_starts_ofText]
  cases found : (text.splitOn '\n')[line]? with
  | none => rfl
  | some piece =>
      have whole := eq_linesBefore_append found
      cases follows : (text.splitOn '\n')[line + 1]? with
      | none =>
          -- The last line ends where the text ends.
          rw [List.drop_eq_nil_of_le (List.getElem?_eq_none_iff.mp follows)] at whole
          have size := congrArg byteSize whole
          rw [byteSize_append, List.flatMap_nil, List.append_nil] at size
          simp [ofText, size]
      | some next => simp [byteSize_linesBefore_succ found]

theorem lineCount_ofText (text : List Char) :
    (ofText text).lineCount = (text.splitOn '\n').length := by
  rw [lineCount, starts_ofText, length_startsFrom]

theorem delimits_of_lineRange? {text : List Char} {line start stop : Nat}
    (found : (ofText text).lineRange? line = some (start, stop)) :
    ∃ piece, Delimits text line start stop piece := by
  rw [lineRange?_ofText, Option.map_eq_some_iff] at found
  obtain ⟨piece, reads, range⟩ := found
  cases range
  exact ⟨piece, reads, rfl, rfl, _, eq_linesBefore_append reads⟩

theorem line_position_ofText (text : List Char) (offset : Nat) :
    ((ofText text).position offset).line = ((bytes text).take offset).count lineBreak := by
  have counted := count_take_bytes 0 (min offset (byteSize text)) text
  rw [Nat.zero_add, ← length_bytes text, ← List.take_eq_take_min] at counted
  rw [counted]
  simp [position, ofText]

/-- The offsets of a text and the places on its lines correspond one to one. An offset is on the
line that has as many line breaks before it, and past the end of the text it counts as the end. The
lines are the pieces between the line breaks. No index is missing on the way, and no difference
falls below zero. -/
theorem position_bijective (text : List Char) :
    let table := ofText text
    Set.BijOn table.position {offset | offset ≤ byteSize text} table.places ∧
    Set.InvOn table.offset table.position {offset | offset ≤ byteSize text} table.places ∧
    (∀ offset, (table.position offset).line = ((bytes text).take offset).count lineBreak) ∧
    (∀ offset, byteSize text ≤ offset → table.position offset = table.position (byteSize text)) ∧
    table.lineCount = (text.splitOn '\n').length ∧
    (∀ line, (table.lineRange? line).isSome ↔ line < table.lineCount) ∧
    (∀ line start stop, table.lineRange? line = some (start, stop) →
      ∃ piece, Delimits text line start stop piece) ∧
    (∀ offset, table.tryPosition offset = some (table.position offset)) ∧
    ∀ line, table.tryLineRange line = some (table.lineRange? line) := by
  intro table
  have increasing : table.Increasing := increasing_ofText text
  have inverse : Set.InvOn table.offset table.position {offset | offset ≤ byteSize text}
      table.places :=
    ⟨fun _ inside => (increasing.offset_position inside).2,
      fun _ has => (increasing.position_offset has).2⟩
  refine ⟨?_, inverse, line_position_ofText text, ?_, lineCount_ofText text,
    fun _ => isSome_lineRange?_iff, fun _ _ _ => delimits_of_lineRange?,
    increasing.tryPosition_eq, increasing.tryLineRange_eq⟩
  · apply inverse.bijOn
    · intro offset inside
      exact (increasing.offset_position inside).1
    · intro place has
      exact (increasing.position_offset has).1
  · intro offset past
    rw [← position_min table offset]
    congr 1
    exact Nat.min_eq_right past

end LineTable

end Pipewright.Text
