import Pipewright.Program.OperatorTree

set_option autoImplicit false

namespace Pipewright

theorem bind_eq_ok_iff {ε α β : Type} {first : Except ε α} {next : α → Except ε β} {result : β} :
    first >>= next = .ok result ↔ ∃ value, first = .ok value ∧ next value = .ok result := by
  cases first with
  | error error => simp [bind, Except.bind]
  | ok value => simp [bind, Except.bind]

/-- A pipe calls its right side with its left side, and `awaitPipe` awaits that call. Any other
operator is kept. The join has the least span around both sides. -/
inductive Operator.Joins (lhs rhs : Expr) : Operator → Expr → Prop
  | pipe {span : Span} :
      lhs.span.merge rhs.span = .ok span → Joins lhs rhs .pipe (.call rhs [lhs] span)
  | awaitPipe {span : Span} :
      lhs.span.merge rhs.span = .ok span →
        Joins lhs rhs .awaitPipe (.await (.call rhs [lhs] span) span)
  | binary {op : Operator} {span : Span} :
      op ≠ .pipe → op ≠ .awaitPipe → lhs.span.merge rhs.span = .ok span →
        Joins lhs rhs op (.binary op lhs rhs span)

theorem Operator.combine_eq_ok_iff {op : Operator} {lhs rhs expr : Expr} :
    op.combine lhs rhs = .ok expr ↔ op.Joins lhs rhs expr := by
  rw [combine]
  constructor
  · intro combined
    cases merged : lhs.span.merge rhs.span with
    | error conflict =>
        rw [merged] at combined
        cases combined
    | ok span =>
        rw [merged, Except.map] at combined
        cases combined
        split
        · exact .pipe merged
        · exact .awaitPipe merged
        · next notPipe notAwaitPipe => exact .binary notPipe notAwaitPipe merged
  · rintro (merged | merged | ⟨notPipe, notAwaitPipe, merged⟩)
    · rw [merged]
      rfl
    · rw [merged]
      rfl
    · simp [merged, Except.map]

namespace OperatorTree

theorem descend_eq (tree : OperatorTree) (frames : List (Operator × OperatorTree)) :
    tree.descend frames = ((tree.descend []).1, (tree.descend []).2 ++ frames) := by
  induction tree generalizing frames with
  | leaf expr => rfl
  | node op left right leftward _ =>
      simp only [descend]
      rw [leftward ((op, right) :: frames), leftward [(op, right)]]
      simp

theorem toExpr_eq_foldlM (tree : OperatorTree) :
    tree.toExpr = (tree.descend []).2.foldlM
      (fun lhs frame => frame.2.toExpr >>= frame.1.combine lhs) (tree.descend []).1 := by
  rw [toExpr]
  exact (List.foldlM_subtype fun _ _ _ => rfl).trans (by rw [List.unattach_attach])

@[simp] theorem toExpr_leaf (expr : Expr) : (leaf expr).toExpr = .ok expr := by
  rw [toExpr_eq_foldlM]
  rfl

theorem toExpr_node (op : Operator) (left right : OperatorTree) :
    (node op left right).toExpr = (do
      let lhs ← left.toExpr
      let rhs ← right.toExpr
      op.combine lhs rhs) := by
  rw [toExpr_eq_foldlM, toExpr_eq_foldlM left, descend, descend_eq, List.foldlM_append]
  simp

inductive Denotes : OperatorTree → Expr → Prop
  | leaf (expr : Expr) : Denotes (.leaf expr) expr
  | node {op : Operator} {left right : OperatorTree} {lhs rhs expr : Expr} :
      Denotes left lhs → Denotes right rhs → op.Joins lhs rhs expr →
        Denotes (.node op left right) expr

theorem toExpr_eq_ok_iff {tree : OperatorTree} {expr : Expr} :
    tree.toExpr = .ok expr ↔ tree.Denotes expr := by
  induction tree generalizing expr with
  | leaf operand =>
      rw [toExpr_leaf]
      constructor
      · rintro ⟨⟩
        exact .leaf operand
      · rintro ⟨⟩
        rfl
  | node op left right leftward rightward =>
      simp only [toExpr_node, bind_eq_ok_iff, leftward, rightward, Operator.combine_eq_ok_iff]
      constructor
      · rintro ⟨lhs, leftDenotes, rhs, rightDenotes, joins⟩
        exact .node leftDenotes rightDenotes joins
      · rintro ⟨⟩
        next lhs rhs leftDenotes rightDenotes joins =>
          exact ⟨lhs, leftDenotes, rhs, rightDenotes, joins⟩

def chain : OperatorTree → Expr × List (Operator × Expr)
  | .leaf expr => (expr, [])
  | .node op left right =>
      (left.chain.1, left.chain.2 ++ (op, right.chain.1) :: right.chain.2)

theorem chain_insert (tree : OperatorTree) (op : Operator) (operand : Expr) :
    (tree.insert op operand).chain = (tree.chain.1, tree.chain.2 ++ [(op, operand)]) := by
  induction tree with
  | leaf expr => rfl
  | node root left right _ ih =>
      rw [insert]
      split
      · simp [chain, ih]
      · simp [chain]

/-- To the left of an operator none is looser, to the right all are tighter. -/
def Ordered : OperatorTree → Prop
  | .leaf _ => True
  | .node op left right =>
      (∀ pair ∈ left.chain.2, op.precedence ≤ pair.1.precedence) ∧
        (∀ pair ∈ right.chain.2, op.precedence < pair.1.precedence) ∧ left.Ordered ∧ right.Ordered

theorem Ordered.insert {tree : OperatorTree} (ordered : tree.Ordered) (op : Operator)
    (operand : Expr) : (tree.insert op operand).Ordered := by
  induction tree with
  | leaf expr => exact ⟨by simp [chain], by simp [chain], trivial, trivial⟩
  | node root left right _ ih =>
      obtain ⟨loose, tight, leftOrdered, rightOrdered⟩ := ordered
      rw [OperatorTree.insert]
      split
      · next tighter =>
          refine ⟨loose, ?_, leftOrdered, ih rightOrdered⟩
          rw [chain_insert]
          exact List.forall_mem_append.mpr ⟨tight, by simpa using tighter⟩
      · next looser =>
          -- The old root bounds all operators of the old tree, and the new one is no tighter.
          refine ⟨?_, by simp [chain], ⟨loose, tight, leftOrdered, rightOrdered⟩, trivial⟩
          intro pair member
          obtain before | rfl | behind :=
            (List.mem_append.mp member).imp id List.mem_cons.mp
          · have := loose pair before
            omega
          · exact Nat.le_of_not_lt looser
          · have := tight pair behind
            omega

theorem chain_foldl (tree : OperatorTree) (pairs : List (Operator × Expr)) :
    (pairs.foldl (fun tree (op, operand) => tree.insert op operand) tree).chain =
      (tree.chain.1, tree.chain.2 ++ pairs) := by
  induction pairs generalizing tree with
  | nil => simp
  | cons pair pairs ih => simp [ih, chain_insert]

theorem Ordered.foldl {tree : OperatorTree} (ordered : tree.Ordered)
    (pairs : List (Operator × Expr)) :
    (pairs.foldl (fun tree (op, operand) => tree.insert op operand) tree).Ordered := by
  induction pairs generalizing tree with
  | nil => exact ordered
  | cons pair pairs ih => exact ih (ordered.insert pair.1 pair.2)

theorem chain_ofChain (head : Expr) (pairs : List (Operator × Expr)) :
    (ofChain head pairs).chain = (head, pairs) :=
  chain_foldl (.leaf head) pairs

theorem ordered_ofChain (head : Expr) (pairs : List (Operator × Expr)) :
    (ofChain head pairs).Ordered := by
  have leaf : (OperatorTree.leaf head).Ordered := trivial
  exact leaf.foldl pairs

end OperatorTree

structure Split where
  front : List (Operator × Expr)
  op : Operator
  operand : Expr
  back : List (Operator × Expr)

-- The split at the rightmost of the loosest operators: the first one is taken only if it is looser
-- than all the others.
def splitLoosest : List (Operator × Expr) → Option Split
  | [] => none
  | (op, operand) :: rest =>
      match splitLoosest rest with
      | none => some ⟨[], op, operand, rest⟩
      | some split =>
          if op.precedence < split.op.precedence then some ⟨[], op, operand, rest⟩
          else some { split with front := (op, operand) :: split.front }

/-- The pairs are those of the split, no operator in front is looser than the one it is made at,
and all operators behind are tighter. -/
structure Split.Loosest (split : Split) (pairs : List (Operator × Expr)) : Prop where
  pairs : pairs = split.front ++ (split.op, split.operand) :: split.back
  front : ∀ pair ∈ split.front, split.op.precedence ≤ pair.1.precedence
  back : ∀ pair ∈ split.back, split.op.precedence < pair.1.precedence

theorem splitLoosest_eq_none {pairs : List (Operator × Expr)} :
    splitLoosest pairs = none ↔ pairs = [] := by
  cases pairs with
  | nil => simp [splitLoosest]
  | cons pair rest =>
      rw [splitLoosest]
      split
      · simp
      · split <;> simp

theorem splitLoosest_loosest {pairs : List (Operator × Expr)} {split : Split}
    (found : splitLoosest pairs = some split) : split.Loosest pairs := by
  induction pairs generalizing split with
  | nil => cases found
  | cons pair rest ih =>
      obtain ⟨op, operand⟩ := pair
      rw [splitLoosest] at found
      split at found
      · next none =>
          cases found
          obtain rfl := splitLoosest_eq_none.mp none
          exact ⟨rfl, by simp, by simp⟩
      · next later some =>
          obtain ⟨same, front, back⟩ := ih some
          split at found
          · next tighter =>
              cases found
              refine ⟨rfl, by simp, ?_⟩
              rw [same]
              refine List.forall_mem_append.mpr ⟨?_, List.forall_mem_cons.mpr ⟨tighter, ?_⟩⟩
              · exact fun pair member => Nat.lt_of_lt_of_le tighter (front pair member)
              · exact fun pair member => Nat.lt_trans tighter (back pair member)
          · next looser =>
              cases found
              exact ⟨by simp [same],
                List.forall_mem_cons.mpr ⟨Nat.le_of_not_lt looser, front⟩, back⟩

theorem Split.Loosest.splitLoosest {split : Split} {pairs : List (Operator × Expr)}
    (loosest : split.Loosest pairs) : splitLoosest pairs = some split := by
  obtain ⟨front, op, operand, back⟩ := split
  obtain ⟨rfl, loose, tight⟩ := loosest
  simp only at loose tight ⊢
  -- Without a front the first operator is looser than the loosest behind it; with one it is passed.
  induction front with
  | nil =>
      cases found : Pipewright.splitLoosest back with
      | none => simp [Pipewright.splitLoosest, found]
      | some later =>
          have member : (later.op, later.operand) ∈ back := by
            rw [(splitLoosest_loosest found).pairs]
            simp
          have tighter : op.precedence < later.op.precedence := tight _ member
          simp [Pipewright.splitLoosest, found, tighter]
  | cons pair front ih =>
      obtain ⟨first, others⟩ := List.forall_mem_cons.mp loose
      simp [Pipewright.splitLoosest, ih others, Nat.not_lt.mpr first]

def resolveBySplitting (head : Expr) (pairs : List (Operator × Expr)) :
    Except Span.Conflict Expr :=
  match _found : splitLoosest pairs with
  | none => .ok head
  | some split => do
      let lhs ← resolveBySplitting head split.front
      let rhs ← resolveBySplitting split.operand split.back
      split.op.combine lhs rhs
termination_by pairs.length
decreasing_by
  all_goals
    have same := congrArg List.length (splitLoosest_loosest _found).pairs
    simp only [List.length_append, List.length_cons] at same
    omega

theorem resolveBySplitting_nil (head : Expr) : resolveBySplitting head [] = .ok head := by
  rw [resolveBySplitting]
  rfl

theorem Split.Loosest.resolveBySplitting {split : Split} {pairs : List (Operator × Expr)}
    (loosest : split.Loosest pairs) (head : Expr) :
    resolveBySplitting head pairs = (do
      let lhs ← resolveBySplitting head split.front
      let rhs ← resolveBySplitting split.operand split.back
      split.op.combine lhs rhs) := by
  rw [Pipewright.resolveBySplitting]
  split
  · next none => cases loosest.splitLoosest.symm.trans none
  · next other found =>
      cases loosest.splitLoosest.symm.trans found
      rfl

theorem OperatorTree.Ordered.toExpr_eq {tree : OperatorTree} (ordered : tree.Ordered) :
    tree.toExpr = resolveBySplitting tree.chain.1 tree.chain.2 := by
  induction tree with
  | leaf expr => rw [toExpr_leaf, chain, resolveBySplitting_nil]
  | node op left right leftward rightward =>
      obtain ⟨loose, tight, leftOrdered, rightOrdered⟩ := ordered
      -- The root is the rightmost loosest operator, and the sides are the two parts of the chain.
      have split : Split.Loosest ⟨left.chain.2, op, right.chain.1, right.chain.2⟩
          (node op left right).chain.2 := ⟨rfl, loose, tight⟩
      rw [toExpr_node, leftward leftOrdered, rightward rightOrdered, split.resolveBySplitting]
      rfl

/-- A chain is resolved by splitting it. What it resolves to is the join of its operands and
operators in their order, such that no operator is above a looser one, or above one that binds alike
and stands to its right. -/
theorem resolve_eq_resolveBySplitting (head : Expr) (pairs : List (Operator × Expr)) :
    resolve head pairs = resolveBySplitting head pairs ∧
      ∀ expr, resolve head pairs = .ok expr ↔
        ∃ tree : OperatorTree, tree.chain = (head, pairs) ∧ tree.Ordered ∧ tree.Denotes expr := by
  have bySplitting : resolve head pairs = resolveBySplitting head pairs := by
    rw [resolve, (OperatorTree.ordered_ofChain head pairs).toExpr_eq, OperatorTree.chain_ofChain]
  refine ⟨bySplitting, fun expr => ⟨fun resolved => ?_, ?_⟩⟩
  · exact ⟨OperatorTree.ofChain head pairs, OperatorTree.chain_ofChain head pairs,
      OperatorTree.ordered_ofChain head pairs, OperatorTree.toExpr_eq_ok_iff.mp resolved⟩
  · rintro ⟨tree, chain, ordered, denotes⟩
    rw [bySplitting, ← OperatorTree.toExpr_eq_ok_iff.mpr denotes, ordered.toExpr_eq, chain]

-- Each level begins and ends with one operator, so the shapes fix the levels of all the others.
example (x : Expr) :
    resolve x [(.pipe, x), (.awaitPipe, x), (.pipe, x), (.and, x), (.or, x), (.and, x), (.eq, x),
        (.ne, x), (.is, x), (.eq, x)] =
      OperatorTree.toExpr (.node .pipe
        (.node .awaitPipe (.node .pipe (.leaf x) (.leaf x)) (.leaf x))
        (.node .and (.node .or (.node .and (.leaf x) (.leaf x)) (.leaf x))
          (.node .eq (.node .is (.node .ne (.node .eq (.leaf x) (.leaf x)) (.leaf x)) (.leaf x))
            (.leaf x)))) ∧
    resolve x [(.eq, x), (.le, x), (.ge, x), (.lt, x), (.gt, x), (.le, x), (.add, x), (.sub, x),
        (.add, x)] =
      OperatorTree.toExpr (.node .eq (.leaf x)
        (.node .le (.node .gt (.node .lt (.node .ge (.node .le (.leaf x) (.leaf x)) (.leaf x))
            (.leaf x)) (.leaf x))
          (.node .add (.node .sub (.node .add (.leaf x) (.leaf x)) (.leaf x)) (.leaf x)))) ∧
    resolve x [(.add, x), (.mul, x), (.div, x), (.mod, x), (.mul, x), (.pow, x), (.bitAnd, x),
        (.bitOr, x), (.bitAnd, x)] =
      OperatorTree.toExpr (.node .add (.leaf x)
        (.node .mul (.node .mod (.node .div (.node .mul (.leaf x) (.leaf x)) (.leaf x)) (.leaf x))
          (.node .pow (.leaf x)
            (.node .bitAnd (.node .bitOr (.node .bitAnd (.leaf x) (.leaf x)) (.leaf x))
              (.leaf x))))) :=
  ⟨rfl, rfl, rfl⟩

end Pipewright
