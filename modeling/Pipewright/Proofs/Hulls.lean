import Pipewright.Proofs.Precedence

set_option autoImplicit false

namespace Pipewright

namespace Span

theorem contains_iff {outer inner : Span} :
    outer.contains inner = true ↔
      outer.source = inner.source ∧ outer.start ≤ inner.start ∧ inner.stop ≤ outer.stop := by
  simp [contains, and_assoc]

theorem contains_refl (span : Span) : span.contains span = true := by
  simp [contains_iff]

theorem contains_trans {outer middle inner : Span} (left : outer.contains middle = true)
    (right : middle.contains inner = true) : outer.contains inner = true := by
  rw [contains_iff] at *
  exact ⟨left.1.trans right.1, by omega, by omega⟩

theorem merge_of_source {a b : Span} (same : a.source = b.source) :
    a.merge b = .ok (ofRange a.source (min a.start b.start) (max a.stop b.stop)) := by
  simp [merge, same]

theorem merge_eq_ok {a b hull : Span} (merged : a.merge b = .ok hull) :
    a.source = b.source ∧ hull.source = a.source ∧ hull.start = min a.start b.start ∧
      hull.stop = max a.stop b.stop := by
  by_cases same : a.source = b.source
  · rw [merge_of_source same] at merged
    cases merged
    have left := a.start_le_stop
    refine ⟨same, rfl, rfl, ?_⟩
    rw [stop_ofRange]
    omega
  · simp [merge, same] at merged

theorem exists_merge {source : String} {a b : Span} (left : a.source = source)
    (right : b.source = source) : ∃ hull, a.merge b = .ok hull ∧ hull.source = source :=
  ⟨_, merge_of_source (left.trans right.symm), left⟩

theorem contains_of_merge {a b hull : Span} (merged : a.merge b = .ok hull) :
    hull.contains a = true ∧ hull.contains b = true := by
  obtain ⟨same, source, start, stop⟩ := merge_eq_ok merged
  simp only [contains_iff]
  exact ⟨⟨source, by omega, by omega⟩, source.trans same, by omega, by omega⟩

theorem exists_foldlM_merge {source : String} (spans : List Span)
    (own : ∀ span ∈ spans, span.source = source) (first : Span) (begins : first.source = source) :
    ∃ hull, spans.foldlM merge first = .ok hull ∧ hull.source = source := by
  induction spans generalizing first with
  | nil => exact ⟨first, rfl, begins⟩
  | cons span spans ih =>
      rw [List.forall_mem_cons] at own
      obtain ⟨middle, merged, between⟩ := exists_merge begins own.1
      obtain ⟨hull, later, inSource⟩ := ih own.2 middle between
      exact ⟨hull, by rw [List.foldlM_cons, merged]; exact later, inSource⟩

theorem contains_of_foldlM_merge {spans : List Span} {first hull : Span}
    (merged : spans.foldlM merge first = .ok hull) :
    ∀ span ∈ first :: spans, hull.contains span = true := by
  induction spans generalizing first with
  | nil =>
      cases merged
      simp [contains_refl]
  | cons span spans ih =>
      rw [List.foldlM_cons, bind_eq_ok_iff] at merged
      obtain ⟨middle, joined, later⟩ := merged
      have both := contains_of_merge joined
      have all := List.forall_mem_cons.mp (ih later)
      refine List.forall_mem_cons.mpr ⟨contains_trans all.1 both.1, ?_⟩
      exact List.forall_mem_cons.mpr ⟨contains_trans all.1 both.2, all.2⟩

theorem mergeAll_cons_eq_ok_iff {first hull : Span} {rest : List Span} :
    mergeAll (first :: rest) = .ok (some hull) ↔ rest.foldlM merge first = .ok hull := by
  rw [mergeAll]
  cases rest.foldlM merge first with
  | error conflict => simp [Functor.map, Except.map]
  | ok joined => simp [Functor.map, Except.map]

theorem exists_mergeAll {source : String} {spans : List Span} (nonempty : spans ≠ [])
    (own : ∀ span ∈ spans, span.source = source) :
    ∃ hull, mergeAll spans = .ok (some hull) := by
  cases spans with
  | nil => contradiction
  | cons first spans =>
      rw [List.forall_mem_cons] at own
      obtain ⟨hull, merged, -⟩ := exists_foldlM_merge spans own.2 first own.1
      exact ⟨hull, mergeAll_cons_eq_ok_iff.mpr merged⟩

theorem contains_of_mergeAll {spans : List Span} {hull : Span}
    (merged : mergeAll spans = .ok (some hull)) : ∀ span ∈ spans, hull.contains span = true := by
  cases spans with
  | nil => simp
  | cons first spans => exact contains_of_foldlM_merge (mergeAll_cons_eq_ok_iff.mp merged)

theorem contains_antisymm {a b : Span} (left : a.contains b = true) (right : b.contains a = true) :
    a = b := by
  rw [contains_iff] at left right
  exact ext_stop (by omega) (by omega) left.1

theorem contains_merge {a b hull outer : Span} (merged : a.merge b = .ok hull)
    (left : outer.contains a = true) (right : outer.contains b = true) :
    outer.contains hull = true := by
  obtain ⟨-, source, start, stop⟩ := merge_eq_ok merged
  rw [contains_iff] at left right ⊢
  exact ⟨left.1.trans source.symm, by omega, by omega⟩

theorem contains_foldlM_merge {spans : List Span} {first hull outer : Span}
    (merged : spans.foldlM merge first = .ok hull)
    (all : ∀ span ∈ first :: spans, outer.contains span = true) : outer.contains hull = true := by
  induction spans generalizing first with
  | nil =>
      cases merged
      exact all _ List.mem_cons_self
  | cons span spans ih =>
      rw [List.foldlM_cons, bind_eq_ok_iff] at merged
      obtain ⟨middle, joined, later⟩ := merged
      rw [List.forall_mem_cons, List.forall_mem_cons] at all
      have around := contains_merge joined all.1 all.2.1
      exact ih later (List.forall_mem_cons.mpr ⟨around, all.2.2⟩)

structure IsHull (spans : List Span) (hull : Span) : Prop where
  contains : ∀ span ∈ spans, hull.contains span = true
  least : ∀ outer : Span, (∀ span ∈ spans, outer.contains span = true) →
    outer.contains hull = true

theorem isHull_of_mergeAll {spans : List Span} {hull : Span}
    (merged : mergeAll spans = .ok (some hull)) : IsHull spans hull := by
  refine ⟨contains_of_mergeAll merged, ?_⟩
  intro outer all
  cases spans with
  | nil => cases merged
  | cons first spans => exact contains_foldlM_merge (mergeAll_cons_eq_ok_iff.mp merged) all

theorem IsHull.eq {spans others : List Span} {hull other : Span} (first : IsHull spans hull)
    (second : IsHull others other) (same : ∀ span, span ∈ spans ↔ span ∈ others) :
    hull = other := by
  apply contains_antisymm
  · exact second.least hull fun span member => first.contains span ((same span).mpr member)
  · exact first.least other fun span member => second.contains span ((same span).mp member)

end Span

theorem Operator.Joins.merge {op : Operator} {lhs rhs expr : Expr} (joins : op.Joins lhs rhs expr) :
    lhs.span.merge rhs.span = .ok expr.span := by
  cases joins <;> assumption

namespace OperatorTree

def operands (tree : OperatorTree) : List Expr :=
  tree.chain.1 :: tree.chain.2.map Prod.snd

@[simp] theorem operands_leaf (expr : Expr) : (leaf expr).operands = [expr] := rfl

@[simp] theorem operands_node (op : Operator) (left right : OperatorTree) :
    (node op left right).operands = left.operands ++ right.operands := by
  simp [operands, chain]

@[simp] theorem operands_ofChain (head : Expr) (pairs : List (Operator × Expr)) :
    (ofChain head pairs).operands = head :: pairs.map Prod.snd := by
  rw [operands, chain_ofChain]

theorem exists_toExpr {source : String} (tree : OperatorTree)
    (own : ∀ operand ∈ tree.operands, operand.span.source = source) :
    ∃ expr, tree.toExpr = .ok expr ∧ expr.span.source = source := by
  induction tree with
  | leaf expr => exact ⟨expr, toExpr_leaf expr, own expr (by simp)⟩
  | node op left right leftward rightward =>
      rw [operands_node, List.forall_mem_append] at own
      obtain ⟨lhs, leftExpr, leftOwn⟩ := leftward own.1
      obtain ⟨rhs, rightExpr, rightOwn⟩ := rightward own.2
      obtain ⟨span, merged, -⟩ := Span.exists_merge leftOwn rightOwn
      obtain ⟨expr, combined⟩ : ∃ expr, op.combine lhs rhs = .ok expr :=
        ⟨_, by rw [Operator.combine, merged]; rfl⟩
      have joined := (Operator.combine_eq_ok_iff.mp combined).merge
      refine ⟨expr, ?_, (Span.merge_eq_ok joined).2.1.trans leftOwn⟩
      rw [toExpr_node, leftExpr, rightExpr]
      exact combined

end OperatorTree

theorem resolve_eq_ok_iff {head expr : Expr} {pairs : List (Operator × Expr)} :
    resolve head pairs = .ok expr ↔ (OperatorTree.ofChain head pairs).Denotes expr :=
  OperatorTree.toExpr_eq_ok_iff

theorem exists_resolve {source : String} {head : Expr} {pairs : List (Operator × Expr)}
    (first : head.span.source = source) (rest : ∀ pair ∈ pairs, pair.2.span.source = source) :
    ∃ expr, resolve head pairs = .ok expr ∧ expr.span.source = source := by
  apply OperatorTree.exists_toExpr
  rw [OperatorTree.operands_ofChain, List.forall_mem_cons, List.forall_mem_map]
  exact ⟨first, rest⟩

end Pipewright
