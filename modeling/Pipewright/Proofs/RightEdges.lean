import Mathlib.Data.List.Induction
import Pipewright.Proofs.Precedence

/-!
Right edges. Each leads to operators that bind tighter than the one above, so no path through the
tree of a chain has more of them than there are levels of precedence. All nested calls of `insert`
and of `toExpr` go along right edges: a stack for that many calls is enough, however long the chain.
-/

set_option autoImplicit false

namespace Pipewright

namespace Operator

def ladder : List Operator :=
  [.pipe, .and, .eq, .lt, .add, .mul, .pow, .bitAnd]

theorem map_precedence_ladder : ladder.map precedence = List.range 8 := rfl

theorem precedence_lt (op : Operator) : op.precedence < 8 := by
  cases op <;> decide

theorem exists_precedence_eq_iff (level : Nat) :
    (∃ op : Operator, op.precedence = level) ↔ level < 8 := by
  constructor
  · rintro ⟨op, rfl⟩
    exact op.precedence_lt
  · intro within
    rw [← List.mem_range, ← map_precedence_ladder, List.mem_map] at within
    exact within.imp fun op found => found.2

end Operator

inductive Side where
  | left | right
deriving DecidableEq

namespace OperatorTree

def follow : OperatorTree → List Side → Option OperatorTree
  | tree, [] => some tree
  | .leaf _, _ :: _ => none
  | .node _ left _, .left :: path => left.follow path
  | .node _ _ right, .right :: path => right.follow path

def rightDepth : OperatorTree → Nat
  | .leaf _ => 0
  | .node _ left right => max left.rightDepth (right.rightDepth + 1)

theorem count_right_le_rightDepth {tree subtree : OperatorTree} {path : List Side}
    (found : tree.follow path = some subtree) : path.count .right ≤ tree.rightDepth := by
  fun_induction follow tree path with
  | case1 => simp
  | case2 => cases found
  | case3 op left right path ih =>
      have deep := ih found
      rw [List.count_cons_of_ne (by decide), rightDepth]
      omega
  | case4 op left right path ih =>
      have deep := ih found
      rw [List.count_cons_self, rightDepth]
      omega

-- The bound goes down by one at each right edge, since the level goes up by at least one there.
theorem Ordered.rightDepth_add_le {tree : OperatorTree} (ordered : tree.Ordered) {level : Nat}
    (within : level ≤ 8) (tight : ∀ pair ∈ tree.chain.2, level ≤ pair.1.precedence) :
    tree.rightDepth + level ≤ 8 := by
  induction tree generalizing level with
  | leaf expr => simpa [rightDepth] using within
  | node op left right leftward rightward =>
      obtain ⟨-, tighter, leftOrdered, rightOrdered⟩ := ordered
      simp only [chain, List.forall_mem_append, List.forall_mem_cons] at tight
      have onLeft := leftward leftOrdered within tight.1
      have onRight := rightward rightOrdered op.precedence_lt tighter
      rw [rightDepth]
      omega

theorem rightDepth_ofChain_le (head : Expr) (pairs : List (Operator × Expr)) :
    (ofChain head pairs).rightDepth ≤ 8 :=
  (ordered_ofChain head pairs).rightDepth_add_le (Nat.zero_le 8) fun _ _ => Nat.zero_le _

def insertWithin (tree : OperatorTree) (depth : Nat) (op : Operator) (operand : Expr) :
    Option OperatorTree :=
  match tree with
  | .node root left right =>
      if root.precedence < op.precedence then
        match depth with
        | 0 => none
        | depth + 1 => (right.insertWithin depth op operand).map (.node root left ·)
      else some (.node op (.node root left right) (.leaf operand))
  | .leaf expr => some (.node op (.leaf expr) (.leaf operand))

def ofChainWithin (depth : Nat) (head : Expr) (pairs : List (Operator × Expr)) :
    Option OperatorTree :=
  pairs.foldlM (fun tree (op, operand) => tree.insertWithin depth op operand) (.leaf head)

def joinWith (right : OperatorTree → OptionT (Except Span.Conflict) Expr) (tree : OperatorTree) :
    OptionT (Except Span.Conflict) Expr :=
  (tree.descend []).2.foldlM
    (fun lhs frame => do
      let rhs ← right frame.2
      frame.1.combine lhs rhs)
    (tree.descend []).1

def toExprWithin : Nat → OperatorTree → OptionT (Except Span.Conflict) Expr
  | 0 => joinWith fun _ => failure
  | depth + 1 => joinWith (toExprWithin depth)

theorem insertWithin_eq_some {tree : OperatorTree} {depth : Nat}
    (enough : tree.rightDepth ≤ depth) (op : Operator) (operand : Expr) :
    tree.insertWithin depth op operand = some (tree.insert op operand) := by
  induction tree generalizing depth with
  | leaf expr => rfl
  | node root left right _ ih =>
      cases depth with
      | zero => simp [rightDepth] at enough
      | succ depth =>
          have deep : right.rightDepth ≤ depth := by
            rw [rightDepth] at enough
            omega
          by_cases tighter : root.precedence < op.precedence
          · simp only [insertWithin, insert, if_pos tighter, ih deep, Option.map_some]
          · simp only [insertWithin, insert, if_neg tighter]

theorem ofChainWithin_eq_some (head : Expr) (pairs : List (Operator × Expr)) :
    ofChainWithin 8 head pairs = some (ofChain head pairs) := by
  induction pairs using List.reverseRecOn with
  | nil => rfl
  | append_singleton front pair ih =>
      have last : ofChain head (front ++ [pair]) = (ofChain head front).insert pair.1 pair.2 := by
        simp [ofChain]
      rw [ofChainWithin, List.foldlM_append, ← ofChainWithin, ih, last,
        ← insertWithin_eq_some (rightDepth_ofChain_le head front)]
      simp

theorem joinWith_eq_liftM {right : OperatorTree → OptionT (Except Span.Conflict) Expr}
    {tree : OperatorTree}
    (same : ∀ frame ∈ (tree.descend []).2, right frame.2 = liftM frame.2.toExpr) :
    tree.joinWith right = liftM tree.toExpr := by
  rw [joinWith, toExpr_eq_foldlM]
  generalize (tree.descend []).1 = lhs
  generalize (tree.descend []).2 = frames at same
  induction frames generalizing lhs with
  | nil => rfl
  | cons frame frames ih =>
      rw [List.forall_mem_cons] at same
      simp only [List.foldlM_cons, same.1, liftM_bind, bind_assoc, fun lhs => ih lhs same.2]

theorem rightDepth_lt_of_mem_descend {tree : OperatorTree} {frame : Operator × OperatorTree}
    (member : frame ∈ (tree.descend []).2) : frame.2.rightDepth < tree.rightDepth := by
  induction tree with
  | leaf expr => cases member
  | node op left right leftward _ =>
      rw [descend, descend_eq, List.mem_append, List.mem_singleton] at member
      rw [rightDepth]
      obtain lower | rfl := member
      · have deeper := leftward lower
        omega
      · exact Nat.lt_of_lt_of_le (Nat.lt_succ_self _) (Nat.le_max_right _ _)

theorem toExprWithin_eq_liftM {tree : OperatorTree} {depth : Nat}
    (enough : tree.rightDepth ≤ depth) : tree.toExprWithin depth = liftM tree.toExpr := by
  induction depth generalizing tree with
  | zero =>
      refine joinWith_eq_liftM fun frame member => ?_
      have deeper := rightDepth_lt_of_mem_descend member
      omega
  | succ depth ih =>
      refine joinWith_eq_liftM fun frame member => ih ?_
      have deeper := rightDepth_lt_of_mem_descend member
      omega

/-- The operators bind on eight levels. In the tree of a chain no path to an operand has more than
eight right edges, and neither building the tree nor joining its operands nests calls any deeper. -/
theorem ofChain_shallow (head : Expr) (pairs : List (Operator × Expr)) :
    (∀ level, (∃ op : Operator, op.precedence = level) ↔ level < 8) ∧
      (∀ path operand, (ofChain head pairs).follow path = some (.leaf operand) →
        path.count .right ≤ 8) ∧
      ofChainWithin 8 head pairs = some (ofChain head pairs) ∧
      ((ofChain head pairs).toExprWithin 8).run = some <$> (ofChain head pairs).toExpr := by
  have depth := rightDepth_ofChain_le head pairs
  refine ⟨Operator.exists_precedence_eq_iff, ?_, ofChainWithin_eq_some head pairs, ?_⟩
  · intro path operand found
    exact Nat.le_trans (count_right_le_rightDepth found) depth
  · rw [toExprWithin_eq_liftM depth]
    rfl

-- With one operator of each level, each tighter than all before it, the bound is reached.
theorem ofChain_shallow_ladder :
    let operand : Expr := .ident ⟨"x", .emptyAt "main" 0⟩
    let tree := ofChain operand (Operator.ladder.map fun op => (op, operand))
    let path := List.replicate 8 Side.right
    tree.follow path = some (.leaf operand) ∧ path.count .right ≤ 8 ∧
      (tree.toExprWithin 8).run = some <$> tree.toExpr := by
  intro operand tree path
  have shallow := ofChain_shallow operand (Operator.ladder.map fun op => (op, operand))
  have found : tree.follow path = some (.leaf operand) := rfl
  exact ⟨found, shallow.2.1 path operand found, shallow.2.2.2⟩

-- A stack for seven nested calls is too small for it.
example (operand : Expr) :
    ((ofChain operand (Operator.ladder.map fun op => (op, operand))).toExprWithin 7).run =
      .ok none := rfl

end OperatorTree

end Pipewright
