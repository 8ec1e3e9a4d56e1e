import Pipewright.Proofs.Hulls

set_option autoImplicit false

namespace Pipewright

namespace Span

def OneSource (spans : List Span) : Prop :=
  ∀ a ∈ spans, ∀ b ∈ spans, a.source = b.source

theorem oneSource_cons_iff {first : Span} {rest : List Span} :
    OneSource (first :: rest) ↔ ∀ span ∈ first :: rest, span.source = first.source := by
  constructor
  · intro one span member
    exact one span member first List.mem_cons_self
  · intro own a left b right
    rw [own a left, own b right]

theorem IsHull.source {spans : List Span} {hull : Span} (isHull : IsHull spans hull) :
    ∀ span ∈ spans, span.source = hull.source := by
  intro span member
  exact (contains_iff.mp (isHull.contains span member)).1.symm

theorem IsHull.oneSource {spans : List Span} {hull : Span} (isHull : IsHull spans hull) :
    OneSource spans := by
  intro a left b right
  rw [isHull.source a left, isHull.source b right]

theorem isHull_singleton (span : Span) : IsHull [span] span where
  contains := by simp [contains_refl]
  least := by simp

theorem IsHull.append {front back : List Span} {a b hull : Span} (left : IsHull front a)
    (right : IsHull back b) (merged : a.merge b = .ok hull) : IsHull (front ++ back) hull := by
  have around := contains_of_merge merged
  constructor
  · rw [List.forall_mem_append]
    constructor
    · intro span member
      exact contains_trans around.1 (left.contains span member)
    · intro span member
      exact contains_trans around.2 (right.contains span member)
  · intro outer all
    rw [List.forall_mem_append] at all
    exact contains_merge merged (left.least outer all.1) (right.least outer all.2)

theorem IsHull.ends {first hull : Span} {rest : List Span} (isHull : IsHull (first :: rest) hull) :
    ((first :: rest).map start).min? = some hull.start ∧
      ((first :: rest).map stop).max? = some hull.stop := by
  obtain ⟨low, least⟩ : ∃ low, ((first :: rest).map start).min? = some low := ⟨_, rfl⟩
  obtain ⟨high, greatest⟩ : ∃ high, ((first :: rest).map stop).max? = some high := ⟨_, rfl⟩
  have lower := List.min?_eq_some_iff.mp least
  have upper := List.max?_eq_some_iff.mp greatest
  rw [List.forall_mem_map, List.mem_map] at lower upper
  have around : (ofRange hull.source low high).contains hull = true := by
    apply isHull.least
    intro span member
    have := lower.2 span member
    have := upper.2 span member
    rw [contains_iff, source_ofRange, start_ofRange, stop_ofRange, isHull.source span member]
    exact ⟨rfl, by omega, by omega⟩
  obtain ⟨⟨lowest, lowMember, lowStart⟩, -⟩ := lower
  obtain ⟨⟨highest, highMember, highStop⟩, above⟩ := upper
  have := contains_iff.mp (isHull.contains lowest lowMember)
  have := contains_iff.mp (isHull.contains highest highMember)
  have := above lowest lowMember
  have := lowest.start_le_stop
  rw [contains_iff, start_ofRange, stop_ofRange] at around
  rw [least, greatest]
  constructor
  · congr 1
    omega
  · congr 1
    omega

theorem merge_eq_error_iff {a b : Span} {conflict : Conflict} :
    a.merge b = .error conflict ↔ a.source ≠ b.source ∧ conflict = ⟨a, b⟩ := by
  by_cases same : a.source = b.source
  · simp [merge_of_source same, same]
  · simp [merge, same, eq_comm]

theorem mergeAll_of_oneSource {first : Span} {rest : List Span}
    (one : OneSource (first :: rest)) :
    ∃ hull, IsHull (first :: rest) hull ∧ mergeAll (first :: rest) = .ok (some hull) := by
  obtain ⟨hull, merged⟩ := exists_mergeAll (by simp) (oneSource_cons_iff.mp one)
  exact ⟨hull, isHull_of_mergeAll merged, merged⟩

theorem mergeAll_of_not_oneSource {first : Span} {rest : List Span}
    (mixed : ¬OneSource (first :: rest)) :
    ∃ before left right after, rest = before ++ right :: after ∧
      (∀ span ∈ before, span.source = first.source) ∧ right.source ≠ first.source ∧
      IsHull (first :: before) left ∧ mergeAll (first :: rest) = .error ⟨left, right⟩ := by
  have present : (rest.find? fun span => span.source ≠ first.source).isSome := by
    simpa [oneSource_cons_iff] using mixed
  obtain ⟨right, found⟩ := Option.isSome_iff_exists.mp present
  obtain ⟨foreign, before, after, split, own⟩ := List.find?_eq_some_iff_append.mp found
  have foreign : right.source ≠ first.source := by simpa using foreign
  have own : ∀ span ∈ before, span.source = first.source := by simpa using own
  obtain ⟨left, folded, inSource⟩ := exists_foldlM_merge before own first rfl
  have isHull := isHull_of_mergeAll (mergeAll_cons_eq_ok_iff.mpr folded)
  have refused : left.merge right = .error ⟨left, right⟩ := by
    rw [merge_eq_error_iff, inSource]
    exact ⟨foreign.symm, rfl⟩
  refine ⟨before, left, right, after, split, own, foreign, isHull, ?_⟩
  rw [mergeAll, split, List.foldlM_append, folded]
  change some <$> (right :: after).foldlM merge left = _
  rw [List.foldlM_cons, refused]
  rfl

theorem mergeAll_perm {spans others : List Span} {hull : Span} (perm : others.Perm spans)
    (merged : mergeAll spans = .ok (some hull)) : mergeAll others = .ok (some hull) := by
  have isHull := isHull_of_mergeAll merged
  have nonempty : others ≠ [] := by
    rintro rfl
    rw [List.nil_perm.mp perm] at merged
    cases merged
  obtain ⟨other, joined⟩ := exists_mergeAll nonempty fun span member =>
    isHull.source span (perm.mem_iff.mp member)
  have same : other = hull := (isHull_of_mergeAll joined).eq isHull fun _ => perm.mem_iff
  rw [joined, same]

/-- Spans have a join exactly if they lie in one text. It is then the least span around them all,
whatever their order. Otherwise the first span of another text is in conflict with the least span
around those before it. -/
theorem mergeAll_isLeast (first : Span) (rest : List Span) :
    ((∃ result, mergeAll (first :: rest) = .ok result) ↔ OneSource (first :: rest)) ∧
    (OneSource (first :: rest) → ∃ hull, IsHull (first :: rest) hull ∧
      ∀ spans : List Span, spans.Perm (first :: rest) → mergeAll spans = .ok (some hull)) ∧
    (¬OneSource (first :: rest) → ∃ before left right after,
      rest = before ++ right :: after ∧ (∀ span ∈ before, span.source = first.source) ∧
        right.source ≠ first.source ∧ IsHull (first :: before) left ∧
        mergeAll (first :: rest) = .error ⟨left, right⟩) := by
  refine ⟨⟨?_, ?_⟩, ?_, mergeAll_of_not_oneSource⟩
  · rintro ⟨result, merged⟩
    by_cases one : OneSource (first :: rest)
    · exact one
    · obtain ⟨before, left, right, after, -, -, -, -, failed⟩ := mergeAll_of_not_oneSource one
      rw [failed] at merged
      cases merged
  · intro one
    obtain ⟨hull, -, merged⟩ := mergeAll_of_oneSource one
    exact ⟨some hull, merged⟩
  · intro one
    obtain ⟨hull, isHull, merged⟩ := mergeAll_of_oneSource one
    exact ⟨hull, isHull, fun spans perm => mergeAll_perm perm merged⟩

end Span

namespace OperatorTree

theorem Denotes.isHull {tree : OperatorTree} {expr : Expr} (denotes : tree.Denotes expr) :
    Span.IsHull (tree.operands.map Expr.span) expr.span := by
  induction denotes with
  | leaf expr => exact Span.isHull_singleton expr.span
  | node _ _ joins left right =>
      rw [operands_node, List.map_append]
      exact left.append right joins.merge

end OperatorTree

theorem Operator.combine_eq_error {op : Operator} {lhs rhs : Expr} {conflict : Span.Conflict}
    (failed : op.combine lhs rhs = .error conflict) :
    lhs.span.source ≠ rhs.span.source ∧ conflict = ⟨lhs.span, rhs.span⟩ := by
  rw [combine] at failed
  cases merged : lhs.span.merge rhs.span with
  | error refused =>
      rw [merged] at failed
      cases failed
      exact Span.merge_eq_error_iff.mp merged
  | ok span =>
      rw [merged] at failed
      cases failed

def Span.Conflict.IsBetween (conflict : Span.Conflict) (spans : List Span) : Prop :=
  ∃ before left right after, spans = before ++ (left ++ right) ++ after ∧
    Span.IsHull left conflict.left ∧ Span.IsHull right conflict.right

theorem Span.Conflict.IsBetween.widen {conflict : Span.Conflict} {spans : List Span}
    (between : conflict.IsBetween spans) (front back : List Span) :
    conflict.IsBetween (front ++ spans ++ back) := by
  obtain ⟨before, left, right, after, rfl, hulls⟩ := between
  exact ⟨front ++ before, left, right, after ++ back, by simp, hulls⟩

theorem OperatorTree.toExpr_eq_error {tree : OperatorTree} {conflict : Span.Conflict}
    (failed : tree.toExpr = .error conflict) :
    conflict.left.source ≠ conflict.right.source ∧
      conflict.IsBetween (tree.operands.map Expr.span) := by
  induction tree with
  | leaf expr =>
      rw [toExpr_leaf] at failed
      cases failed
  | node op left right leftward rightward =>
      rw [operands_node, List.map_append]
      rw [toExpr_node] at failed
      -- The left side is joined first, then the right one, then the two of them.
      cases leftExpr : left.toExpr with
      | error earlier =>
          rw [leftExpr] at failed
          cases failed
          obtain ⟨sources, between⟩ := leftward leftExpr
          exact ⟨sources, between.widen [] _⟩
      | ok lhs =>
          cases rightExpr : right.toExpr with
          | error earlier =>
              rw [leftExpr, rightExpr] at failed
              cases failed
              obtain ⟨sources, between⟩ := rightward rightExpr
              exact ⟨sources, by simpa using between.widen (left.operands.map Expr.span) []⟩
          | ok rhs =>
              rw [leftExpr, rightExpr] at failed
              obtain ⟨sources, rfl⟩ := Operator.combine_eq_error failed
              have leftHull := (toExpr_eq_ok_iff.mp leftExpr).isHull
              have rightHull := (toExpr_eq_ok_iff.mp rightExpr).isHull
              exact ⟨sources, [], _, _, [], by simp, leftHull, rightHull⟩

/-- A chain can be resolved exactly if its operands lie in one text. Whatever its operators are, the
result then reaches from the least start of an operand to the greatest end. Otherwise the conflict
is between two neighbouring parts of the chain, and these lie in different texts. -/
theorem resolve_reaches_operands (head : Expr) (pairs : List (Operator × Expr)) :
    let spans := head.span :: pairs.map fun pair => pair.2.span
    ((∃ expr, resolve head pairs = .ok expr) ↔ Span.OneSource spans) ∧
    (∀ expr, resolve head pairs = .ok expr →
      (∀ span ∈ spans, span.source = expr.span.source) ∧
        (spans.map Span.start).min? = some expr.span.start ∧
        (spans.map Span.stop).max? = some expr.span.stop) ∧
    ∀ conflict, resolve head pairs = .error conflict →
      conflict.left.source ≠ conflict.right.source ∧ conflict.IsBetween spans := by
  intro spans
  have operands : (OperatorTree.ofChain head pairs).operands.map Expr.span = spans := by
    simp [spans]
  have isHull (expr : Expr) (resolved : resolve head pairs = .ok expr) :
      Span.IsHull spans expr.span := by
    rw [← operands]
    exact (resolve_eq_ok_iff.mp resolved).isHull
  refine ⟨⟨?_, ?_⟩, ?_, ?_⟩
  · rintro ⟨expr, resolved⟩
    exact (isHull expr resolved).oneSource
  · intro one
    have own := Span.oneSource_cons_iff.mp one
    rw [List.forall_mem_cons, List.forall_mem_map] at own
    obtain ⟨expr, resolved, -⟩ := exists_resolve own.1 own.2
    exact ⟨expr, resolved⟩
  · intro expr resolved
    exact ⟨(isHull expr resolved).source, (isHull expr resolved).ends⟩
  · intro conflict failed
    have refused := OperatorTree.toExpr_eq_error failed
    rwa [operands] at refused

end Pipewright
