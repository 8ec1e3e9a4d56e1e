import Pipewright.Proofs.Compiling
import Pipewright.Proofs.Hulls
import Pipewright.Proofs.TreeNodes

set_option autoImplicit false

namespace Pipewright

open ParseTree

structure Span.Bounds (source : String) (tokens : List Token) (span : Span) : Prop where
  own : span.source = source
  start : ∃ first ∈ tokens.head?, span.start = first.span.start
  stop : ∃ last ∈ tokens.getLast?, span.stop = last.span.stop

theorem Span.stop_through (first last : Span) :
    (first.through last).stop = max first.stop last.stop := by
  have := first.start_le_stop
  rw [through, extendTo, stop_ofRange]
  omega

theorem Span.through_self (span : Span) : span.through span = span :=
  ext_stop rfl (by rw [stop_through, Nat.max_self]) rfl

namespace ParseTree.InText

variable {source : String} {first last : Token} {tokens : List Token}

theorem start_le (inText : InText source tokens) (begins : first ∈ tokens.head?) :
    ∀ token ∈ tokens, first.span.start ≤ token.span.start := by
  obtain ⟨rest, rfl⟩ := List.head?_eq_some_iff.mp begins
  refine List.forall_mem_cons.mpr ⟨Nat.le_refl _, ?_⟩
  intro token member
  have apart := (List.pairwise_cons.mp inText.ordered).1 token member
  exact Nat.le_trans first.span.start_le_stop apart

theorem le_stop (inText : InText source tokens) (ends : last ∈ tokens.getLast?) :
    ∀ token ∈ tokens, token.span.stop ≤ last.span.stop := by
  obtain ⟨rest, rfl⟩ := List.getLast?_eq_some_iff.mp ends
  refine List.forall_mem_append.mpr ⟨?_, by simp⟩
  intro token member
  have apart := (List.pairwise_append.mp inText.ordered).2.2 token member last (by simp)
  exact Nat.le_trans apart last.span.start_le_stop

end ParseTree.InText

namespace Span.Bounds

variable {source : String} {front back tokens part : List Token} {a b : Span}

theorem of_token {word : Token} (inText : InText source [word]) :
    word.span.Bounds source [word] :=
  ⟨inText.own word (by simp), ⟨word, rfl, rfl⟩, ⟨word, rfl, rfl⟩⟩

theorem exists_start (bounds : a.Bounds source tokens) :
    ∃ token ∈ tokens, a.start = token.span.start := by
  obtain ⟨first, begins, start⟩ := bounds.start
  exact ⟨first, List.mem_of_head? begins, start⟩

theorem exists_stop (bounds : a.Bounds source tokens) :
    ∃ token ∈ tokens, a.stop = token.span.stop := by
  obtain ⟨last, ends, stop⟩ := bounds.stop
  exact ⟨last, List.mem_of_getLast? ends, stop⟩

theorem before (left : a.Bounds source front) (right : b.Bounds source back)
    (apart : ∀ x ∈ front, ∀ y ∈ back, x.span.stop ≤ y.span.start) : a.stop ≤ b.start := by
  obtain ⟨x, inFront, stop⟩ := left.exists_stop
  obtain ⟨y, inBack, start⟩ := right.exists_start
  rw [stop, start]
  exact apart x inFront y inBack

theorem contains (outer : a.Bounds source tokens) (inner : b.Bounds source part)
    (inText : InText source tokens) (within : part.Sublist tokens) : a.contains b = true := by
  obtain ⟨first, begins, start⟩ := outer.start
  obtain ⟨last, ends, stop⟩ := outer.stop
  obtain ⟨x, early, opens⟩ := inner.exists_start
  obtain ⟨y, late, closes⟩ := inner.exists_stop
  rw [contains_iff, start, stop, opens, closes]
  exact ⟨outer.own.trans inner.own.symm, inText.start_le begins x (within.subset early),
    inText.le_stop ends y (within.subset late)⟩

theorem through (middle : List Token) (left : InText source front → a.Bounds source front)
    (right : InText source back → b.Bounds source back)
    (inText : InText source (front ++ (middle ++ back))) :
    (a.through b).Bounds source (front ++ (middle ++ back)) := by
  have last := List.sublist_append_right middle back
  have leftBounds := left (inText.sublist (List.sublist_append_left _ _))
  have rightBounds := right (inText.sublist (last.trans (List.sublist_append_right _ _)))
  have across := (List.pairwise_append.mp inText.ordered).2.2
  have apart := leftBounds.before rightBounds fun x inFront y inBack =>
    across x inFront y (last.subset inBack)
  have := b.start_le_stop
  obtain ⟨first, begins, start⟩ := leftBounds.start
  obtain ⟨final, ends, stop⟩ := rightBounds.stop
  refine ⟨leftBounds.own, ⟨first, ?_, start⟩, ⟨final, ?_, ?_⟩⟩
  · simp [Option.mem_def.mp begins]
  · simp [Option.mem_def.mp ends]
  · rw [stop_through, ← stop]
    omega

end Span.Bounds

namespace ParseTree

variable {source : String}

theorem Suffix.bounds {suffix : Suffix} (grammatical : suffix.Grammatical)
    (inText : InText source suffix.tokens) : suffix.span.Bounds source suffix.tokens := by
  obtain ⟨access, mark, name, span⟩ := suffix
  obtain ⟨-, -, rfl⟩ := grammatical
  exact .through [] .of_token .of_token inText

theorem Member.bounds {member : Member} (grammatical : member.Grammatical)
    (inText : InText source member.tokens) : member.span.Bounds source member.tokens := by
  obtain ⟨primary, suffix, span⟩ := member
  obtain ⟨-, rest, rfl⟩ := grammatical
  cases suffix with
  | none => exact .of_token inText
  | some suffix => exact .through [] .of_token (Suffix.bounds (rest suffix rfl)) inText

theorem Arguments.bounds {args : Arguments} (grammatical : args.Grammatical)
    (inText : InText source args.tokens) : args.span.Bounds source args.tokens := by
  obtain ⟨opening, exprs, commas, closing, span⟩ := args
  obtain ⟨-, -, -, -, -, rfl⟩ := grammatical
  rw [Arguments.tokens] at inText ⊢
  exact .through (separated exprs commas) .of_token .of_token inText

theorem Call.bounds {call : Call} (grammatical : call.Grammatical)
    (inText : InText source call.tokens) : call.span.Bounds source call.tokens := by
  obtain ⟨member, args, span⟩ := call
  cases args with
  | none =>
      obtain ⟨callee, rfl⟩ := grammatical
      rw [Call.tokens] at inText ⊢
      exact Member.bounds callee inText
  | some args =>
      obtain ⟨callee, inner, rfl⟩ := grammatical
      rw [Call.tokens] at inText ⊢
      exact .through [] (Member.bounds callee) (Arguments.bounds inner) inText

theorem exists_tailTokens {tail : List (Token × Call)} {op : Token} {last : Call}
    (ends : tail.getLast? = some (op, last)) :
    (tailGrammatical tail → last.Grammatical) ∧
      ∃ middle, tailTokens tail = middle ++ last.tokens := by
  induction tail with
  | nil => cases ends
  | cons link rest ih =>
      obtain ⟨token, operand⟩ := link
      cases rest with
      | nil =>
          cases ends
          exact ⟨fun grammatical => grammatical.2.1, [op], by simp [tailTokens]⟩
      | cons next others =>
          obtain ⟨inner, middle, same⟩ := ih (by simpa using ends)
          refine ⟨fun grammatical => inner grammatical.2.2, token :: (operand.tokens ++ middle), ?_⟩
          rw [tailTokens, same, List.cons_append, List.append_assoc]

theorem Expression.bounds {expr : Expression} (grammatical : expr.Grammatical)
    (inText : InText source expr.tokens) : expr.span.Bounds source expr.tokens := by
  obtain ⟨head, tail, span⟩ := expr
  obtain ⟨first, rest, rfl⟩ := grammatical
  rw [Expression.tokens] at inText ⊢
  cases ends : tail.getLast? with
  | none =>
      obtain rfl := List.getLast?_eq_none_iff.mp ends
      rw [tailTokens, List.append_nil] at inText ⊢
      exact Call.bounds first inText
  | some link =>
      obtain ⟨op, last⟩ := link
      obtain ⟨inner, middle, same⟩ := exists_tailTokens ends
      rw [same] at inText ⊢
      simp only [Expression.make, ends]
      exact .through middle (Call.bounds first) (Call.bounds (inner rest)) inText

theorem Clause.bounds {clause : Clause} (grammatical : clause.Grammatical)
    (inText : InText source clause.tokens) : clause.span.Bounds source clause.tokens := by
  cases clause with
  | expression expr => exact Expression.bounds grammatical inText
  | letDecl decl =>
      obtain ⟨keyword, mutable, name, equal, value, span⟩ := decl
      obtain ⟨-, -, -, -, inner, rfl⟩ := grammatical
      have parts (span : Span) : LetDecl.tokens ⟨keyword, mutable, name, equal, value, span⟩ =
          [keyword] ++ (mutable.toList ++ [name, equal] ++ value.tokens) := by
        simp [LetDecl.tokens]
      rw [Clause.tokens, parts] at inText ⊢
      exact .through (mutable.toList ++ [name, equal]) .of_token (Expression.bounds inner) inText

theorem Statement.bounds {statement : Statement} (grammatical : statement.Grammatical)
    (inText : InText source statement.tokens) :
    statement.span.Bounds source statement.tokens := by
  obtain ⟨clause, semi, span⟩ := statement
  obtain ⟨inner, -, rfl⟩ := grammatical
  exact .through [] (Clause.bounds inner) .of_token inText

theorem Program.bounds {tree : Program} (grammatical : tree.Grammatical)
    (inText : InText source tree.tokens) : tree.span.Bounds source tree.tokens := by
  obtain ⟨statements, span⟩ := tree
  obtain ⟨all, first, last, begins, ends, rfl⟩ := grammatical
  obtain ⟨rest, rfl⟩ := List.head?_eq_some_iff.mp begins
  have firstBounds : InText source first.tokens → first.span.Bounds source first.tokens :=
    Statement.bounds (all first (by simp))
  have lastBounds : InText source last.tokens → last.span.Bounds source last.tokens :=
    Statement.bounds (all last (List.mem_of_getLast? ends))
  rw [Program.tokens, List.flatMap_cons] at inText ⊢
  -- The first statement may be the last one too.
  rcases rest.eq_nil_or_concat with rfl | ⟨middle, final, rfl⟩
  · obtain rfl : first = last := by simpa using ends
    rw [List.flatMap_nil, List.append_nil] at inText ⊢
    rw [Span.through_self]
    exact firstBounds inText
  · obtain rfl : final = last := by
      rw [List.concat_eq_append, ← List.cons_append, List.getLast?_concat] at ends
      exact Option.some.inj ends
    rw [List.concat_eq_append, List.flatMap_append, List.flatMap_singleton] at inText ⊢
    exact .through (middle.flatMap Statement.tokens) firstBounds lastBounds inText

namespace Node

theorem Grammatical.bounds {node : Node} (grammatical : node.Grammatical)
    (inText : InText source node.tokens) : node.span.Bounds source node.tokens := by
  cases node with
  | token word => exact .of_token inText
  | suffix part => exact Suffix.bounds grammatical inText
  | member whole => exact Member.bounds grammatical inText
  | arguments args => exact Arguments.bounds grammatical inText
  | call whole => exact Call.bounds grammatical inText
  | expression expr => exact Expression.bounds grammatical inText
  | clause body => exact Clause.bounds grammatical inText
  | statement whole => exact Statement.bounds grammatical inText
  | program tree => exact Program.bounds grammatical inText

theorem Grammatical.contains {node child : Node} (grammatical : node.Grammatical)
    (inText : InText source node.tokens) (member : child ∈ node.children) :
    node.span.contains child.span = true := by
  have within := tokens_sublist member
  have inner := (grammatical.children child member).bounds (inText.sublist within)
  exact (grammatical.bounds inText).contains inner inText within

theorem Grammatical.pairwise {node : Node} (grammatical : node.Grammatical)
    (inText : InText source node.tokens) :
    node.children.Pairwise fun left right => left.span.stop ≤ right.span.start := by
  by_cases leaf : node.children = []
  · rw [leaf]
    exact .nil
  · have ordered := inText.ordered
    rw [tokens_eq_flatMap leaf, List.pairwise_flatMap] at ordered
    refine ordered.2.imp_of_mem ?_
    intro left right leftIn rightIn apart
    have first := (grammatical.children left leftIn).bounds (inText.sublist (tokens_sublist leftIn))
    have second :=
      (grammatical.children right rightIn).bounds (inText.sublist (tokens_sublist rightIn))
    exact first.before second apart

end Node

end ParseTree

/-- Every node of the tree of a text has exactly the span of its tokens, and its children follow one
another within it. A tree without statements has the empty span at the end of the text. -/
theorem bounds_compile (source text : String) :
    if (compile source text).tree.statements = [] then
      (compile source text).tree.span = .emptyAt source text.utf8ByteSize
    else
      ∀ node : Node, node.Within (.program (compile source text).tree) →
        node.span.Bounds source node.tokens ∧
          (∀ child ∈ node.children, node.span.contains child.span = true) ∧
          node.children.Pairwise fun left right => left.span.stop ≤ right.span.start := by
  split
  · next empty => exact span_compile_of_empty empty
  · next nonempty =>
      intro node within
      have whole : Node.Grammatical (.program (compile source text).tree) :=
        grammatical_parse nonempty
      have grammatical := whole.within within
      have inText := (placed_compile source text).inText.sublist within.tokens_sublist
      exact ⟨grammatical.bounds inText, fun child => grammatical.contains inText,
        grammatical.pairwise inText⟩

end Pipewright
