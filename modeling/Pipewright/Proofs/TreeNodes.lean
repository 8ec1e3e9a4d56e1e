import Mathlib.Data.List.Flatten
import Pipewright.Proofs.WrittenTrees

set_option autoImplicit false

namespace Pipewright.ParseTree

inductive Node where
  | token (word : Token)
  | suffix (part : Suffix)
  | member (whole : Member)
  | arguments (args : Arguments)
  | call (whole : Call)
  | expression (expr : Expression)
  | clause (body : Clause)
  | statement (whole : Statement)
  | program (tree : Program)

namespace Node

def span : Node → Span
  | .token word => word.span
  | .suffix part => part.span
  | .member whole => whole.span
  | .arguments args => args.span
  | .call whole => whole.span
  | .expression expr => expr.span
  | .clause body => body.span
  | .statement whole => whole.span
  | .program tree => tree.span

def tokens : Node → List Token
  | .token word => [word]
  | .suffix part => part.tokens
  | .member whole => whole.tokens
  | .arguments args => args.tokens
  | .call whole => whole.tokens
  | .expression expr => expr.tokens
  | .clause body => body.tokens
  | .statement whole => whole.tokens
  | .program tree => tree.tokens

def separated : List Expression → List Token → List Node
  | [], commas => commas.map .token
  | expr :: exprs, [] => .expression expr :: separated exprs []
  | expr :: exprs, comma :: commas => .expression expr :: .token comma :: separated exprs commas

def links : List (Token × Call) → List Node
  | [] => []
  | (op, operand) :: rest => .token op :: .call operand :: links rest

def children : Node → List Node
  | .token _ => []
  | .suffix ⟨_, mark, name, _⟩ => [.token mark, .token name]
  | .member ⟨primary, part, _⟩ => .token primary.token :: (part.map .suffix).toList
  | .arguments ⟨opening, exprs, commas, closing, _⟩ =>
      .token opening :: (separated exprs commas ++ [.token closing])
  | .call ⟨callee, args, _⟩ => .member callee :: (args.map .arguments).toList
  | .expression ⟨head, tail, _⟩ => .call head :: links tail
  | .clause (.letDecl ⟨keyword, mutable, name, equal, value, _⟩) =>
      .token keyword :: (mutable.map .token).toList ++
        [.token name, .token equal, .expression value]
  | .clause (.expression expr) => [.expression expr]
  | .statement ⟨body, semi, _⟩ => [.clause body, .token semi]
  | .program ⟨statements, _⟩ => statements.map .statement

inductive Within (part : Node) : Node → Prop
  | refl : Within part part
  | child {whole child : Node} : child ∈ whole.children → Within part child → Within part whole

def Grammatical : Node → Prop
  | .token _ => True
  | .suffix part => part.Grammatical
  | .member whole => whole.Grammatical
  | .arguments args => args.Grammatical
  | .call whole => whole.Grammatical
  | .expression expr => expr.Grammatical
  | .clause body => body.Grammatical
  | .statement whole => whole.Grammatical
  | .program tree => tree.Grammatical

theorem flatMap_tokens_separated (exprs : List Expression) (commas : List Token) :
    (separated exprs commas).flatMap tokens = ParseTree.separated exprs commas := by
  fun_induction separated exprs commas with
  | case1 commas => simp [List.flatMap_map, tokens, ParseTree.separated]
  | case2 expr exprs ih => rw [List.flatMap_cons, ih, ParseTree.separated, tokens]
  | case3 expr exprs comma commas ih =>
      simp only [List.flatMap_cons, ih, ParseTree.separated, tokens, List.singleton_append]

theorem flatMap_tokens_links (tail : List (Token × Call)) :
    (links tail).flatMap tokens = tailTokens tail := by
  fun_induction links tail with
  | case1 => rfl
  | case2 op operand rest ih =>
      simp only [List.flatMap_cons, ih, tailTokens, tokens, List.singleton_append]

theorem tokens_eq_flatMap {node : Node} (inner : node.children ≠ []) :
    node.tokens = node.children.flatMap tokens := by
  match node with
  | .token word => exact absurd rfl inner
  | .suffix part => rfl
  | .member ⟨primary, part, _⟩ => cases part <;> simp [children, tokens, Member.tokens]
  | .arguments ⟨opening, exprs, commas, closing, _⟩ =>
      simp [children, tokens, Arguments.tokens, flatMap_tokens_separated]
  | .call ⟨callee, args, _⟩ => cases args <;> simp [children, tokens, Call.tokens]
  | .expression ⟨head, tail, _⟩ =>
      simp [children, tokens, Expression.tokens, flatMap_tokens_links]
  | .clause (.letDecl ⟨keyword, mutable, name, equal, value, _⟩) =>
      cases mutable <;> simp [children, tokens, Clause.tokens, LetDecl.tokens]
  | .clause (.expression expr) => simp [children, tokens, Clause.tokens]
  | .statement ⟨body, semi, _⟩ => simp [children, tokens, Statement.tokens]
  | .program ⟨statements, _⟩ => simp only [children, tokens, Program.tokens, List.flatMap_map]

theorem tokens_sublist {node child : Node} (member : child ∈ node.children) :
    child.tokens.Sublist node.tokens := by
  rw [tokens_eq_flatMap (List.ne_nil_of_mem member), List.flatMap_def]
  exact List.sublist_flatten_of_mem (List.mem_map_of_mem member)

theorem grammatical_of_mem_separated {exprs : List Expression} {commas : List Token}
    (grammatical : allGrammatical exprs) :
    ∀ child ∈ separated exprs commas, child.Grammatical := by
  fun_induction separated exprs commas with
  | case1 commas => simp [Grammatical]
  | case2 expr exprs ih =>
      exact List.forall_mem_cons.mpr ⟨grammatical.1, ih grammatical.2⟩
  | case3 expr exprs comma commas ih =>
      exact List.forall_mem_cons.mpr
        ⟨grammatical.1, List.forall_mem_cons.mpr ⟨trivial, ih grammatical.2⟩⟩

theorem grammatical_of_mem_links {tail : List (Token × Call)} (grammatical : tailGrammatical tail) :
    ∀ child ∈ links tail, child.Grammatical := by
  fun_induction links tail with
  | case1 => simp
  | case2 op operand rest ih =>
      exact List.forall_mem_cons.mpr
        ⟨trivial, List.forall_mem_cons.mpr ⟨grammatical.2.1, ih grammatical.2.2⟩⟩

theorem Grammatical.children {node : Node} (grammatical : node.Grammatical) :
    ∀ child ∈ node.children, child.Grammatical := by
  match node with
  | .token word => simp [Node.children]
  | .suffix part => simp [Node.children, Grammatical]
  | .member ⟨primary, part, _⟩ =>
      obtain ⟨-, rest, -⟩ := grammatical
      cases part with
      | none => simp [Node.children, Grammatical]
      | some part => simpa [Node.children, Grammatical] using rest part rfl
  | .arguments ⟨opening, exprs, commas, closing, _⟩ =>
      obtain ⟨-, inner, -⟩ := grammatical
      refine List.forall_mem_cons.mpr ⟨trivial, ?_⟩
      refine List.forall_mem_append.mpr ⟨grammatical_of_mem_separated inner, ?_⟩
      simp [Grammatical]
  | .call ⟨callee, args, _⟩ =>
      cases args with
      | none => simpa [Node.children, Grammatical] using grammatical.1
      | some args => simpa [Node.children, Grammatical] using ⟨grammatical.1, grammatical.2.1⟩
  | .expression ⟨head, tail, _⟩ =>
      obtain ⟨first, rest, -⟩ := grammatical
      exact List.forall_mem_cons.mpr ⟨first, grammatical_of_mem_links rest⟩
  | .clause (.letDecl ⟨keyword, mutable, name, equal, value, _⟩) =>
      obtain ⟨-, -, -, -, inner, -⟩ := grammatical
      cases mutable <;> simpa [Node.children, Grammatical] using inner
  | .clause (.expression expr) => exact List.forall_mem_singleton.mpr grammatical
  | .statement ⟨body, semi, _⟩ => simpa [Node.children, Grammatical] using grammatical.1
  | .program ⟨statements, _⟩ => exact List.forall_mem_map.mpr grammatical.1

theorem Grammatical.within {part whole : Node} (grammatical : whole.Grammatical)
    (within : part.Within whole) : part.Grammatical := by
  induction within with
  | refl => exact grammatical
  | child member _ ih => exact ih (grammatical.children _ member)

theorem Within.tokens_sublist {part whole : Node} (within : part.Within whole) :
    part.tokens.Sublist whole.tokens := by
  induction within with
  | refl => exact List.Sublist.refl _
  | child member _ ih => exact ih.trans (Node.tokens_sublist member)

end Node

end Pipewright.ParseTree
