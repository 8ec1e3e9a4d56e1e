import Mathlib.Data.List.Forall2
import Pipewright.Proofs.ReaderRuns

/-!
Recovery from errors. Tokens are cut into chunks behind every `;`. The reader turns each chunk into
the statement that it is or into one error, and starts over behind it.
-/

set_option autoImplicit false

namespace Pipewright.ParseTree

open Grammar

/-- The chunks that end in a `;`, and what follows the last of them. -/
structure Cut where
  chunks : List (List Token)
  remainder : List Token

def cut : List Token → Cut
  | [] => ⟨[], []⟩
  | token :: rest =>
      if token.kind = .punct .semi then ⟨[token] :: (cut rest).chunks, (cut rest).remainder⟩
      else
        match (cut rest).chunks with
        | [] => ⟨[], token :: (cut rest).remainder⟩
        | chunk :: chunks => ⟨(token :: chunk) :: chunks, (cut rest).remainder⟩

def SemiFree (tokens : List Token) : Prop :=
  ∀ token ∈ tokens, token.kind ≠ .punct .semi

structure Cut.Divides (whole : Cut) (tokens : List Token) : Prop where
  tokens : whole.chunks.flatten ++ whole.remainder = tokens
  chunks : ∀ chunk ∈ whole.chunks,
    ∃ body semi, chunk = body ++ [semi] ∧ SemiFree body ∧ semi.kind = .punct .semi
  remainder : SemiFree whole.remainder

theorem cut_of_semiFree {tokens : List Token} (free : SemiFree tokens) :
    cut tokens = ⟨[], tokens⟩ := by
  induction tokens with
  | nil => rfl
  | cons token rest ih =>
      obtain ⟨other, later⟩ := List.forall_mem_cons.mp free
      simp [cut, other, ih later]

theorem cut_append {body : List Token} {semi : Token} (free : SemiFree body)
    (kind : semi.kind = .punct .semi) (rest : List Token) :
    cut (body ++ semi :: rest) =
      ⟨(body ++ [semi]) :: (cut rest).chunks, (cut rest).remainder⟩ := by
  induction body with
  | nil => simp [cut, kind]
  | cons token body ih =>
      obtain ⟨other, later⟩ := List.forall_mem_cons.mp free
      simp [cut, other, ih later]

theorem chunk_induction {motive : List Token → Prop}
    (remainder : ∀ tokens, SemiFree tokens → motive tokens)
    (chunk : ∀ body semi rest, SemiFree body → semi.kind = .punct .semi → motive rest →
      motive (body ++ semi :: rest))
    (tokens : List Token) : motive tokens := by
  -- Generalised over the part of a chunk that has been passed already.
  suffices passed : ∀ body, SemiFree body → motive (body ++ tokens) by
    simpa using passed [] (by simp [SemiFree])
  induction tokens with
  | nil => simpa using remainder
  | cons token rest ih =>
      intro body free
      by_cases kind : token.kind = .punct .semi
      · have later : motive rest := by simpa using ih [] (by simp [SemiFree])
        exact chunk body token rest free kind later
      · have longer : SemiFree (body ++ [token]) :=
          List.forall_mem_append.mpr ⟨free, by simpa using kind⟩
        simpa using ih (body ++ [token]) longer

theorem cut_divides (tokens : List Token) : (cut tokens).Divides tokens := by
  induction tokens using chunk_induction with
  | remainder tokens free =>
      rw [cut_of_semiFree free]
      exact ⟨by simp, by simp, free⟩
  | chunk body semi rest free kind ih =>
      rw [cut_append free kind]
      have first := List.forall_mem_cons.mpr
        ⟨⟨body, semi, rfl, free, kind⟩, ih.chunks⟩
      exact ⟨by simp [ih.tokens], first, ih.remainder⟩

theorem Takes.kind {state : State} {token : Token} {step : Step}
    (takes : Takes state token step) :
    token.kind ≠ .eof ∧ token.kind ≠ .invalid ∧
      (token.kind = .punct .semi ↔ ∃ statement, step = .done statement) := by
  cases takes with
  | first reads | operand reads | argument reads =>
      obtain kind | kind := primary?_kind reads <;> simp [kind]
  | mark access kind => cases access <;> simp [kind, Access.kind]
  | letWord kind | mutWord kind | name kind | equal kind | noArguments kind | member kind
  | opening kind | operator kind | comma kind | closing kind | semi kind => simp [kind]

theorem Takes.kind_ne {state : State} {token : Token} {step : Step}
    (takes : Takes state token step) : token.kind ≠ .eof ∧ token.kind ≠ .invalid :=
  ⟨takes.kind.1, takes.kind.2.1⟩

theorem Takes.kind_ne_semi {state next : State} {token : Token}
    (takes : Takes state token (.more next)) : token.kind ≠ .punct .semi := by
  intro semi
  obtain ⟨statement, same⟩ := takes.kind.2.2.mp semi
  cases same

theorem Takes.kind_eq_semi {state : State} {token : Token} {statement : Statement}
    (takes : Takes state token (.done statement)) : token.kind = .punct .semi :=
  takes.kind.2.2.mpr ⟨statement, rfl⟩

theorem Takes.ne_start {state next : State} {token : Token}
    (takes : Takes state token (.more next)) : next ≠ .start := by
  rintro rfl
  cases takes

theorem State.take_cases (state : State) (token : Token) :
    state.take token = none ∨ (∃ next, Takes state token (.more next)) ∨
      ∃ statement, Takes state token (.done statement) := by
  cases taken : state.take token with
  | none => exact .inl rfl
  | some step =>
      cases step with
      | more next => exact .inr (.inl ⟨next, take_eq_some_iff.mp taken⟩)
      | done statement => exact .inr (.inr ⟨statement, take_eq_some_iff.mp taken⟩)

theorem finish?_kind_ne {state : State} {tokens : List Token} {statement : Statement}
    (finishes : state.finish? tokens = some statement) :
    ∀ token ∈ tokens, token.kind ≠ .eof ∧ token.kind ≠ .invalid := by
  induction tokens generalizing state with
  | nil => cases finishes
  | cons token tokens ih =>
      obtain ⟨next, takes, later⟩ | ⟨takes, rfl⟩ := finish?_cases finishes
      · exact List.forall_mem_cons.mpr ⟨takes.kind_ne, ih later⟩
      · simpa using takes.kind_ne

theorem finish?_chunk {state : State} {tokens : List Token} {statement : Statement}
    (finishes : state.finish? tokens = some statement) :
    ∃ body semi, tokens = body ++ [semi] ∧ SemiFree body ∧ semi.kind = .punct .semi := by
  induction tokens generalizing state with
  | nil => cases finishes
  | cons token tokens ih =>
      obtain ⟨next, takes, later⟩ | ⟨takes, rfl⟩ := finish?_cases finishes
      · obtain ⟨body, semi, rfl, free, kind⟩ := ih later
        have longer : SemiFree (token :: body) :=
          List.forall_mem_cons.mpr ⟨takes.kind_ne_semi, free⟩
        exact ⟨token :: body, semi, rfl, longer, kind⟩
      · exact ⟨[], token, rfl, by simp [SemiFree], takes.kind_eq_semi⟩

theorem cut_flatMap (statements : List Statement)
    (grammatical : ∀ statement ∈ statements, statement.Grammatical) :
    cut (statements.flatMap Statement.tokens) = ⟨statements.map Statement.tokens, []⟩ := by
  induction statements with
  | nil => rfl
  | cons statement statements ih =>
      obtain ⟨first, others⟩ := List.forall_mem_cons.mp grammatical
      obtain ⟨body, semi, same, free, kind⟩ := finish?_chunk (statement.finish?_tokens first)
      have cuts := cut_append free kind (statements.flatMap Statement.tokens)
      simpa [same, ih others] using cuts

def Readings.withStatement (later : Readings) (statement : Statement) : Readings :=
  { later with statements := statement :: later.statements }

def Readings.withError (later : Readings) (error : Located ParseError) : Readings :=
  { later with errors := error :: later.errors }

theorem readings_more {state next : State} {token : Token}
    (takes : Takes state token (.more next)) (eof : Token) (rest : List Token) :
    readings eof (some state) (token :: rest) = readings eof (some next) rest := by
  rw [readings, if_neg takes.kind_ne.1, takes.take]

theorem readings_done {state : State} {token : Token} {statement : Statement}
    (takes : Takes state token (.done statement)) (eof : Token) (rest : List Token) :
    readings eof (some state) (token :: rest) =
      (readings eof (some .start) rest).withStatement statement := by
  rw [readings, if_neg takes.kind_ne.1, takes.take]
  rfl

theorem readings_refused {state : State} {token : Token} (refused : state.take token = none)
    (inner : token.kind ≠ .eof) (eof : Token) (rest : List Token) :
    readings eof (some state) (token :: rest) =
      (readings eof (afterSkipped token) rest).withError
        (ParseError.refuse state.expected token) := by
  rw [readings, if_neg inner, refused]
  rfl

theorem readings_finish {state : State} {chunk : List Token} {statement : Statement}
    (finishes : state.finish? chunk = some statement) (eof : Token) (rest : List Token) :
    readings eof (some state) (chunk ++ rest) =
      (readings eof (some .start) rest).withStatement statement := by
  induction chunk generalizing state with
  | nil => cases finishes
  | cons token tokens ih =>
      obtain ⟨next, takes, later⟩ | ⟨takes, rfl⟩ := finish?_cases finishes
      · rw [List.cons_append, readings_more takes, ih later]
      · exact readings_done takes eof rest

theorem readings_skip {body : List Token} {semi : Token} (free : SemiFree body)
    (inner : ∀ token ∈ body, token.kind ≠ .eof) (kind : semi.kind = .punct .semi) (eof : Token)
    (rest : List Token) :
    readings eof none (body ++ semi :: rest) = readings eof (some .start) rest := by
  induction body with
  | nil => simp [readings, afterSkipped, kind]
  | cons token body ih =>
      obtain ⟨other, free⟩ := List.forall_mem_cons.mp free
      obtain ⟨goes, inner⟩ := List.forall_mem_cons.mp inner
      simp [readings, afterSkipped, other, goes, ih free inner]

theorem readings_skip_end {tokens : List Token} (free : SemiFree tokens)
    (inner : ∀ token ∈ tokens, token.kind ≠ .eof) (eof : Token) :
    readings eof none tokens = ⟨[], []⟩ := by
  induction tokens with
  | nil => rfl
  | cons token tokens ih =>
      obtain ⟨other, free⟩ := List.forall_mem_cons.mp free
      obtain ⟨goes, inner⟩ := List.forall_mem_cons.mp inner
      simp [readings, afterSkipped, other, goes, ih free inner]

inductive Halts (eof : Token) : State → List Token → Located ParseError → Prop where
  | refused {state : State} {token : Token} {rest : List Token}
      (refused : state.take token = none) :
      Halts eof state (token :: rest) (ParseError.refuse state.expected token)
  | ended {state : State} : Halts eof state [eof] (ParseError.refuse state.expected eof)
  | later {state next : State} {token : Token} {rest : List Token} {error : Located ParseError}
      (first : Takes state token (.more next)) (halts : Halts eof next rest error) :
      Halts eof state (token :: rest) error

theorem readings_unfinished {state : State} {body : List Token} {semi : Token}
    (free : SemiFree body) (inner : ∀ token ∈ body, token.kind ≠ .eof)
    (kind : semi.kind = .punct .semi) (unfinished : state.finish? (body ++ [semi]) = none)
    (eof : Token) (rest : List Token) :
    ∃ error, Halts eof state (body ++ [semi]) error ∧
      readings eof (some state) (body ++ semi :: rest) =
        (readings eof (some .start) rest).withError error := by
  -- The state goes along the chunk up to the token it refuses, and the rest of it is skipped.
  induction body generalizing state with
  | nil =>
      obtain refused | ⟨next, takes⟩ | ⟨statement, takes⟩ := state.take_cases semi
      · refine ⟨_, .refused refused, ?_⟩
        simp [readings_refused refused (by simp [kind]), afterSkipped, kind]
      · exact absurd kind takes.kind_ne_semi
      · simp [State.finish?, takes.take] at unfinished
  | cons token body ih =>
      obtain ⟨other, free⟩ := List.forall_mem_cons.mp free
      obtain ⟨goes, inner⟩ := List.forall_mem_cons.mp inner
      obtain refused | ⟨next, takes⟩ | ⟨statement, takes⟩ := state.take_cases token
      · refine ⟨_, .refused refused, ?_⟩
        rw [List.cons_append, readings_refused refused goes]
        simp [afterSkipped, other, readings_skip free inner kind]
      · rw [List.cons_append, takes.finish?] at unfinished
        obtain ⟨error, halts, same⟩ := ih free inner unfinished
        refine ⟨error, .later takes halts, ?_⟩
        rw [List.cons_append, readings_more takes, same]
      · exact absurd takes.kind_eq_semi other

theorem readings_remainder {state : State} {tokens : List Token} (free : SemiFree tokens)
    (inner : ∀ token ∈ tokens, token.kind ≠ .eof) (eof : Token)
    (begun : state = .start → tokens ≠ []) :
    ∃ error, Halts eof state (tokens ++ [eof]) error ∧
      readings eof (some state) tokens = ⟨[], [error]⟩ := by
  -- Without a `;` no statement ends, so there is an error at the end of input at the latest.
  induction tokens generalizing state with
  | nil =>
      refine ⟨_, .ended, ?_⟩
      cases state with
      | start => exact absurd rfl (begun rfl)
      | binding | named | inside => rfl
  | cons token tokens ih =>
      obtain ⟨other, free⟩ := List.forall_mem_cons.mp free
      obtain ⟨goes, inner⟩ := List.forall_mem_cons.mp inner
      obtain refused | ⟨next, takes⟩ | ⟨statement, takes⟩ := state.take_cases token
      · refine ⟨_, .refused refused, ?_⟩
        rw [readings_refused refused goes]
        simp [afterSkipped, other, readings_skip_end free inner, Readings.withError]
      · obtain ⟨error, halts, same⟩ := ih free inner (fun first => absurd first takes.ne_start)
        refine ⟨error, .later takes halts, ?_⟩
        rw [readings_more takes, same]
      · exact absurd takes.kind_eq_semi other

def IsStatement (chunk : List Token) : Prop :=
  Derives (.rule .statement) (chunk.map Token.kind)

instance : DecidablePred IsStatement :=
  fun chunk => inferInstanceAs (Decidable (Derives (.rule .statement) (chunk.map Token.kind)))

def FoundIn (error : Located ParseError) (tokens : List Token) : Prop :=
  error.error.found ∈ tokens ∧ error.span = error.error.found.span

theorem Halts.foundIn {eof : Token} {state : State} {row : List Token} {error : Located ParseError}
    (halts : Halts eof state row error) : FoundIn error row := by
  induction halts with
  | refused | ended => exact ⟨List.mem_cons_self, rfl⟩
  | later _ _ ih => exact ⟨List.mem_cons_of_mem _ ih.1, ih.2⟩

/-- The rows of tokens with something wrong in them: the chunks that are no statements, and the
remainder up to the end of input, unless it is empty. -/
def Cut.faults (whole : Cut) (eof : Token) : List (List Token) :=
  whole.chunks.filter (fun chunk => ¬IsStatement chunk) ++
    if whole.remainder = [] then [] else [whole.remainder ++ [eof]]

theorem Cut.faults_eq_nil {whole : Cut} {eof : Token} :
    whole.faults eof = [] ↔
      (∀ chunk ∈ whole.chunks, IsStatement chunk) ∧ whole.remainder = [] := by
  by_cases empty : whole.remainder = [] <;> simp [Cut.faults, empty, List.filter_eq_nil_iff]

structure Recovers (eof : Token) (whole : Cut) (read : Readings) : Prop where
  grammatical : ∀ statement ∈ read.statements, statement.Grammatical
  statements : read.statements.map Statement.tokens =
    whole.chunks.filter fun chunk => IsStatement chunk
  halts : List.Forall₂ (fun error row => Halts eof .start row error) read.errors (whole.faults eof)

theorem Recovers.errors {eof : Token} {whole : Cut} {read : Readings}
    (recovers : Recovers eof whole read) :
    List.Forall₂ FoundIn read.errors (whole.faults eof) :=
  recovers.halts.imp fun _ _ halts => halts.foundIn

theorem Recovers.remainder {tokens : List Token} (free : SemiFree tokens)
    (inner : ∀ token ∈ tokens, token.kind ≠ .eof) (eof : Token) :
    Recovers eof ⟨[], tokens⟩ (readings eof (some .start) tokens) := by
  cases tokens with
  | nil => exact ⟨by simp [readings, atEnd], rfl, .nil⟩
  | cons token rest =>
      obtain ⟨error, halts, same⟩ := readings_remainder free inner eof (by simp)
      rw [same]
      exact ⟨by simp, rfl, .cons halts .nil⟩

theorem Recovers.withStatement {eof : Token} {later : Cut} {read : Readings}
    (recovers : Recovers eof later read) {statement : Statement}
    (grammatical : statement.Grammatical) :
    Recovers eof ⟨statement.tokens :: later.chunks, later.remainder⟩
      (read.withStatement statement) := by
  have accepted : IsStatement statement.tokens := statement.derives grammatical
  refine ⟨List.forall_mem_cons.mpr ⟨grammatical, recovers.grammatical⟩, ?_, ?_⟩
  · simp [Readings.withStatement, accepted, recovers.statements]
  · simpa [Cut.faults, Readings.withStatement, accepted] using recovers.halts

theorem Recovers.withError {eof : Token} {later : Cut} {read : Readings}
    (recovers : Recovers eof later read) {chunk : List Token} (refused : ¬IsStatement chunk)
    {error : Located ParseError} (halts : Halts eof .start chunk error) :
    Recovers eof ⟨chunk :: later.chunks, later.remainder⟩ (read.withError error) := by
  refine ⟨recovers.grammatical, ?_, ?_⟩
  · simpa [Readings.withError, refused] using recovers.statements
  · simp only [Cut.faults, refused, not_false_eq_true, decide_true, List.filter_cons_of_pos,
      List.cons_append]
    exact .cons halts recovers.halts

theorem readings_recovers (eof : Token) (tokens : List Token)
    (inner : ∀ token ∈ tokens, token.kind ≠ .eof) :
    Recovers eof (cut tokens) (readings eof (some .start) tokens) := by
  induction tokens using chunk_induction with
  | remainder tokens free =>
      rw [cut_of_semiFree free]
      exact .remainder free inner eof
  | chunk body semi rest free kind ih =>
      obtain ⟨early, late⟩ := List.forall_mem_append.mp inner
      have later := ih (List.forall_mem_cons.mp late).2
      rw [cut_append free kind]
      -- Whether the chunk is a statement is decided by reading it alone.
      cases finishes : State.start.finish? (body ++ [semi]) with
      | none =>
          have refused : ¬IsStatement (body ++ [semi]) := by
            rw [IsStatement, ← finish?_isSome_iff, finishes]
            simp
          obtain ⟨error, halts, same⟩ := readings_unfinished free early kind finishes eof rest
          rw [same]
          exact later.withError refused halts
      | some statement =>
          obtain ⟨grammatical, same⟩ := finish?_start_iff.mp finishes
          have reads := readings_finish finishes eof rest
          rw [List.append_assoc, List.singleton_append] at reads
          rw [reads, ← same]
          exact later.withStatement grammatical

end Pipewright.ParseTree
