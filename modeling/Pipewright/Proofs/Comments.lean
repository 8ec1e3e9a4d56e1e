import Pipewright.Token.Piece

set_option autoImplicit false

namespace Pipewright

def StartsMark (text : List Char) : Prop :=
  ['/', '*'] <+: text ∨ ['*', '/'] <+: text

/-- A block comment without the mark that opens it: comments and characters at which no mark starts,
up to the mark that closes it. -/
inductive Closes : List Char → Prop
  | mark : Closes ['*', '/']
  | char {c : Char} {rest : List Char} :
      ¬ StartsMark (c :: rest) → Closes rest → Closes (c :: rest)
  | comment {inner rest : List Char} :
      Closes inner → Closes rest → Closes ('/' :: '*' :: (inner ++ rest))

theorem Closes.ne_nil {body : List Char} (closes : Closes body) : body ≠ [] := by
  cases closes <;> simp

theorem Closes.startsMark_append {body : List Char} (closes : Closes body) (c : Char)
    (after : List Char) : StartsMark (c :: (body ++ after)) ↔ StartsMark (c :: body) := by
  obtain ⟨d, ds, rfl⟩ := List.exists_cons_of_ne_nil closes.ne_nil
  simp [StartsMark]

theorem afterComment?_cons {c : Char} {cs : List Char} (plain : ¬ StartsMark (c :: cs))
    (depth : Nat) : afterComment? depth (c :: cs) = afterComment? depth cs := by
  rw [afterComment?.eq_4]
  · rintro cs rfl rfl
    exact plain (.inl ⟨cs, rfl⟩)
  · rintro cs _ rfl rfl
    exact plain (.inr ⟨cs, rfl⟩)
  · rintro _ cs _ rfl rfl
    exact plain (.inr ⟨cs, rfl⟩)

def leave : Nat → List Char → Option (List Char)
  | 0, rest => some rest
  | depth + 1, rest => afterComment? depth rest

theorem Closes.afterComment?_append {body : List Char} (closes : Closes body) (depth : Nat)
    (after : List Char) : afterComment? depth (body ++ after) = leave depth after := by
  induction closes generalizing depth after with
  | mark => cases depth <;> rfl
  | char plain closes ih =>
      rw [List.cons_append, afterComment?_cons (by rwa [closes.startsMark_append]), ih]
  | @comment inner rest _ _ inward onward =>
      calc afterComment? depth ('/' :: '*' :: (inner ++ rest) ++ after)
        _ = afterComment? (depth + 1) (inner ++ (rest ++ after)) := by
            rw [← List.append_assoc, List.cons_append, List.cons_append, afterComment?]
        _ = afterComment? depth (rest ++ after) := inward (depth + 1) (rest ++ after)
        _ = leave depth after := onward depth after

theorem exists_closes {depth : Nat} {text rest : List Char}
    (found : afterComment? depth text = some rest) :
    ∃ body after, Closes body ∧ text = body ++ after ∧ leave depth after = some rest := by
  -- A nested comment calls for its own body first, then for that of the comment around it.
  induction size : text.length using Nat.strongRecOn generalizing depth text with
  | ind size ih =>
      subst size
      cases text with
      | nil => cases found
      | cons c cs =>
          by_cases mark : StartsMark (c :: cs)
          · obtain ⟨cs, opened⟩ | ⟨cs, closed⟩ := mark
            · cases opened
              have inward : afterComment? (depth + 1) cs = some rest := found
              have shorter : cs.length < ('/' :: '*' :: cs).length := by grind
              obtain ⟨inner, between, innerCloses, rfl, outer⟩ := ih cs.length shorter inward rfl
              have shorter : between.length < ('/' :: '*' :: (inner ++ between)).length := by grind
              obtain ⟨body, after, closes, rfl, left⟩ := ih between.length shorter outer rfl
              exact ⟨_, after, .comment innerCloses closes, by simp, left⟩
            · cases closed
              have left : leave depth cs = some rest := by cases depth <;> exact found
              exact ⟨['*', '/'], cs, .mark, rfl, left⟩
          · rw [afterComment?_cons mark] at found
            obtain ⟨body, after, closes, rfl, left⟩ := ih cs.length (by simp) found rfl
            rw [closes.startsMark_append] at mark
            exact ⟨c :: body, after, .char mark closes, rfl, left⟩

theorem afterComment?_eq_some_iff {inner rest : List Char} :
    afterComment? 0 inner = some rest ↔ ∃ body, Closes body ∧ inner = body ++ rest := by
  constructor
  · intro found
    obtain ⟨body, after, closes, rfl, ended⟩ := exists_closes found
    cases ended
    exact ⟨body, closes, rfl⟩
  · rintro ⟨body, closes, rfl⟩
    exact closes.afterComment?_append 0 rest

namespace Piece

theorem comment_append {body : List Char} (closes : Closes body) (rest : List Char) :
    comment (body ++ rest) = (.blockComment ('/' :: '*' :: body), rest) := by
  have ended : afterComment? 0 (body ++ rest) = some rest := closes.afterComment?_append 0 rest
  simp [comment, ended]

theorem comment_of_not_closes {inner : List Char}
    (unclosed : ∀ body, Closes body → ¬ body <+: inner) :
    comment inner = (.openComment ('/' :: '*' :: inner), []) := by
  rw [comment]
  split
  · next rest found =>
      obtain ⟨body, closes, rfl⟩ := afterComment?_eq_some_iff.mp found
      exact absurd (List.prefix_append body rest) (unclosed body closes)
  · rfl

end Piece

end Pipewright
