import Pipewright.Program.Nesting
import Pipewright.Program.Printer
import Pipewright.Proofs.Compiling
import Pipewright.Proofs.Faults
import Pipewright.Proofs.LoweredTrees

set_option autoImplicit false

namespace Pipewright

open ParseTree

theorem Span.nonempty_of_merge {a b hull : Span} (merged : a.merge b = .ok hull)
    (nonempty : a.start < a.stop) : hull.start < hull.stop := by
  obtain ⟨-, -, start, stop⟩ := merge_eq_ok merged
  omega

structure Span.EndsIn (spans : List Span) (span : Span) : Prop where
  start : ∃ first ∈ spans, span.start = first.start
  stop : ∃ last ∈ spans, span.stop = last.stop

namespace Span.EndsIn

variable {spans others : List Span} {a b hull : Span}

theorem of_mem (member : a ∈ spans) : a.EndsIn spans :=
  ⟨⟨a, member, rfl⟩, ⟨a, member, rfl⟩⟩

theorem mono (ends : a.EndsIn spans) (all : spans ⊆ others) : a.EndsIn others := by
  obtain ⟨⟨first, firstIn, start⟩, ⟨last, lastIn, stop⟩⟩ := ends
  exact ⟨⟨first, all firstIn, start⟩, ⟨last, all lastIn, stop⟩⟩

theorem trans (ends : a.EndsIn spans) (all : ∀ span ∈ spans, span.EndsIn others) :
    a.EndsIn others := by
  obtain ⟨⟨first, firstIn, start⟩, ⟨last, lastIn, stop⟩⟩ := ends
  exact ⟨start ▸ (all first firstIn).start, stop ▸ (all last lastIn).stop⟩

theorem merge (left : a.EndsIn spans) (right : b.EndsIn spans) (merged : a.merge b = .ok hull) :
    hull.EndsIn spans := by
  obtain ⟨-, -, start, stop⟩ := merge_eq_ok merged
  constructor
  · rcases Nat.le_total a.start b.start with le | le
    · exact (start.trans (Nat.min_eq_left le)) ▸ left.start
    · exact (start.trans (Nat.min_eq_right le)) ▸ right.start
  · rcases Nat.le_total a.stop b.stop with le | le
    · exact (stop.trans (Nat.max_eq_right le)) ▸ right.stop
    · exact (stop.trans (Nat.max_eq_left le)) ▸ left.stop

theorem extendTo (ends : a.EndsIn spans) (member : b ∈ spans) :
    (a.extendTo b.stop).EndsIn spans := by
  have := a.start_le_stop
  refine ⟨ends.start, ?_⟩
  rw [Span.extendTo, stop_ofRange]
  rcases Nat.le_total a.stop b.stop with le | le
  · exact ⟨b, member, by omega⟩
  · obtain ⟨last, lastIn, stop⟩ := ends.stop
    exact ⟨last, lastIn, by omega⟩

theorem le_start {bound : Nat} (ends : a.EndsIn spans)
    (all : ∀ span ∈ spans, bound ≤ span.start) : bound ≤ a.start := by
  obtain ⟨first, member, start⟩ := ends.start
  exact start ▸ all first member

theorem stop_le {bound : Nat} (ends : a.EndsIn spans) (all : ∀ span ∈ spans, span.stop ≤ bound) :
    a.stop ≤ bound := by
  obtain ⟨last, member, stop⟩ := ends.stop
  exact stop ▸ all last member

theorem before (left : a.EndsIn spans) (right : b.EndsIn others)
    (apart : ∀ x ∈ spans, ∀ y ∈ others, x.stop ≤ y.start) : a.stop ≤ b.start :=
  left.stop_le fun x member => right.le_start (apart x member)

end Span.EndsIn

namespace Expr

@[simp] theorem span_call (callee : Expr) (args : List Expr) (span : Span) :
    (call callee args span).span = span := rfl

@[simp] theorem span_member (access : Access) (object : Expr) (property : Ident) (span : Span) :
    (member access object property span).span = span := rfl

@[simp] theorem span_binary (op : Operator) (lhs rhs : Expr) (span : Span) :
    (binary op lhs rhs span).span = span := rfl

@[simp] theorem span_await (expr : Expr) (span : Span) : (await expr span).span = span := rfl

theorem mem_children_call {callee child : Expr} {args : List Expr} {span : Span} :
    child ∈ (call callee args span).children ↔ child = callee ∨ child ∈ args := by
  rw [children, List.mem_mergeSort, List.mem_cons]

theorem sizeOf_lt_of_mem_children {expr child : Expr} (inside : child ∈ expr.children) :
    sizeOf child < sizeOf expr := by
  cases expr with
  | ident | integer => cases inside
  | call callee args span =>
      rw [call.sizeOf_spec]
      rcases mem_children_call.mp inside with rfl | among
      · omega
      · have := List.sizeOf_lt_of_mem among
        omega
  | member access object property span =>
      cases List.mem_singleton.mp inside
      rw [member.sizeOf_spec]
      omega
  | binary op lhs rhs span =>
      rw [binary.sizeOf_spec]
      rcases List.mem_pair.mp inside with rfl | rfl <;> omega
  | await expr span =>
      cases List.mem_singleton.mp inside
      rw [await.sizeOf_spec]
      omega

inductive Within (part : Expr) : Expr → Prop
  | refl : Within part part
  | child {whole child : Expr} : child ∈ whole.children → Within part child → Within part whole

/-- The span of the expression contains those of its parts, which follow one another in the text.
The callee of a call comes first, unless its only argument is piped into it. -/
structure Encloses (expr : Expr) : Prop where
  children : ∀ child ∈ expr.children, expr.span.contains child.span = true
  property : ∀ access object property span, expr = .member access object property span →
    span.contains property.span = true
  ordered : expr.children.Pairwise fun left right => left.span.stop ≤ right.span.start
  calls : ∀ callee args span, expr = .call callee args span →
    expr.children = callee :: args ∨ ∃ arg, args = [arg] ∧ expr.children = [arg, callee]

structure Nested (source : String) (expr : Expr) : Prop where
  own : expr.span.source = source
  nonempty : expr.span.start < expr.span.stop
  encloses : ∀ part : Expr, part.Within expr → part.Encloses

theorem children_call_of_pairwise {callee : Expr} {args : List Expr} (span : Span)
    (ordered : (callee :: args).Pairwise fun left right => left.span.stop ≤ right.span.start) :
    (call callee args span).children = callee :: args := by
  apply List.mergeSort_of_pairwise
  refine ordered.imp fun {left right} before => ?_
  have := left.span.start_le_stop
  simpa using Nat.le_trans this before

theorem children_call_of_before {callee arg : Expr} (span : Span)
    (nonempty : arg.span.start < arg.span.stop) (before : arg.span.stop ≤ callee.span.start) :
    (call callee [arg] span).children = [arg, callee] := by
  have later : ¬ callee.span.start ≤ arg.span.start := by omega
  simp [children, List.mergeSort, later]

variable {source : String}

theorem nested_of_children {expr : Expr} (own : expr.span.source = source)
    (nonempty : expr.span.start < expr.span.stop) (self : expr.Encloses)
    (inner : ∀ child ∈ expr.children, child.Nested source) : expr.Nested source where
  own := own
  nonempty := nonempty
  encloses part within := by
    cases within with
    | refl => exact self
    | child member within => exact (inner _ member).encloses part within

theorem nested_ident {name : Ident} (own : name.span.source = source)
    (nonempty : name.span.start < name.span.stop) : (ident name).Nested source := by
  refine nested_of_children own nonempty ?_ ?_
  · exact ⟨by simp [children], by simp, by simp [children], by simp⟩
  · simp [children]

theorem nested_integer {literal : IntLiteral} (own : literal.span.source = source)
    (nonempty : literal.span.start < literal.span.stop) : (integer literal).Nested source := by
  refine nested_of_children own nonempty ?_ ?_
  · exact ⟨by simp [children], by simp, by simp [children], by simp⟩
  · simp [children]

theorem Nested.member {access : Access} {object : Expr} {property : Ident} {hull : Span}
    (nested : object.Nested source) (merged : object.span.merge property.span = .ok hull) :
    (member access object property hull).Nested source := by
  obtain ⟨-, inSource, -, -⟩ := Span.merge_eq_ok merged
  have both := Span.contains_of_merge merged
  refine nested_of_children (inSource.trans nested.own)
    (Span.nonempty_of_merge merged nested.nonempty) ?_ ?_
  · refine ⟨by simpa [children] using both.1, ?_, by simp [children], by simp⟩
    rintro _ _ _ _ ⟨⟩
    exact both.2
  · simpa [children] using nested

theorem Nested.binary {op : Operator} {lhs rhs : Expr} {hull : Span} (left : lhs.Nested source)
    (right : rhs.Nested source) (merged : lhs.span.merge rhs.span = .ok hull)
    (apart : lhs.span.stop ≤ rhs.span.start) : (binary op lhs rhs hull).Nested source := by
  obtain ⟨-, inSource, -, -⟩ := Span.merge_eq_ok merged
  have both := Span.contains_of_merge merged
  refine nested_of_children (inSource.trans left.own)
    (Span.nonempty_of_merge merged left.nonempty) ?_ ?_
  · exact ⟨by simpa [children] using both, by simp, by simpa [children] using apart, by simp⟩
  · simpa [children] using ⟨left, right⟩

theorem Nested.await {expr : Expr} (nested : expr.Nested source) :
    (await expr expr.span).Nested source := by
  refine nested_of_children nested.own nested.nonempty ?_ ?_
  · exact ⟨by simp [children, Span.contains_refl], by simp, by simp [children], by simp⟩
  · simpa [children] using nested

theorem Nested.pipe {callee arg : Expr} {hull : Span} (left : arg.Nested source)
    (right : callee.Nested source) (merged : arg.span.merge callee.span = .ok hull)
    (apart : arg.span.stop ≤ callee.span.start) : (call callee [arg] hull).Nested source := by
  obtain ⟨-, inSource, -, -⟩ := Span.merge_eq_ok merged
  have both := Span.contains_of_merge merged
  have order := children_call_of_before hull left.nonempty apart
  refine nested_of_children (inSource.trans left.own)
    (Span.nonempty_of_merge merged left.nonempty) ?_ ?_
  · refine ⟨by simpa [order] using both, by simp, by simpa [order] using apart, ?_⟩
    rintro _ _ _ ⟨⟩
    exact .inr ⟨arg, rfl, order⟩
  · simpa [order] using ⟨left, right⟩

theorem Nested.call {callee : Expr} {args : List Expr} {stop : Nat}
    (nested : callee.Nested source) (all : ∀ arg ∈ args, arg.Nested source)
    (ordered : (callee :: args).Pairwise fun left right => left.span.stop ≤ right.span.start)
    (ends : ∀ arg ∈ args, arg.span.stop ≤ stop) :
    (call callee args (callee.span.extendTo stop)).Nested source := by
  have order := children_call_of_pairwise (callee.span.extendTo stop) ordered
  have start : (callee.span.extendTo stop).start = callee.span.start := rfl
  have last : (callee.span.extendTo stop).stop = max callee.span.stop stop := by
    have := callee.span.start_le_stop
    rw [Span.extendTo, Span.stop_ofRange]
    omega
  have nonempty := nested.nonempty
  refine nested_of_children nested.own ?_ ?_ ?_
  · rw [span_call]
    omega
  · refine ⟨?_, by simp, by rwa [order], ?_⟩
    · simp only [order, List.forall_mem_cons, Span.contains_iff, span_call, start, last]
      refine ⟨⟨rfl, by omega, by omega⟩, ?_⟩
      intro arg member
      have inside := ends arg member
      have behind := (List.pairwise_cons.mp ordered).1 arg member
      exact ⟨nested.own.trans (all arg member).own.symm, by omega, by omega⟩
    · rintro _ _ _ ⟨⟩
      exact .inl order
  · rw [order]
    exact List.forall_mem_cons.mpr ⟨nested, all⟩

end Expr

theorem Operator.Joins.nested {source : String} {op : Operator} {lhs rhs expr : Expr}
    (joins : op.Joins lhs rhs expr) (left : lhs.Nested source) (right : rhs.Nested source)
    (apart : lhs.span.stop ≤ rhs.span.start) : expr.Nested source := by
  cases joins with
  | pipe merged => exact left.pipe right merged apart
  | awaitPipe merged => exact (left.pipe right merged apart).await
  | binary _ _ merged => exact left.binary right merged apart

namespace OperatorTree

theorem Denotes.endsIn {tree : OperatorTree} {expr : Expr} (denotes : tree.Denotes expr) :
    expr.span.EndsIn (tree.operands.map Expr.span) := by
  induction denotes with
  | leaf expr => exact .of_mem (by simp)
  | node _ _ joins left right =>
      rw [operands_node, List.map_append]
      exact (left.mono (List.subset_append_left _ _)).merge
        (right.mono (List.subset_append_right _ _)) joins.merge

theorem Denotes.nested {source : String} {tree : OperatorTree} {expr : Expr}
    (denotes : tree.Denotes expr) (all : ∀ operand ∈ tree.operands, operand.Nested source)
    (ordered : tree.operands.Pairwise fun left right => left.span.stop ≤ right.span.start) :
    expr.Nested source := by
  induction denotes with
  | leaf expr => exact all expr (by simp)
  | node leftDenotes rightDenotes joins left right =>
      rw [operands_node, List.forall_mem_append] at all
      rw [operands_node, List.pairwise_append] at ordered
      obtain ⟨leftOrdered, rightOrdered, across⟩ := ordered
      apply joins.nested (left all.1 leftOrdered) (right all.2 rightOrdered)
      apply leftDenotes.endsIn.before rightDenotes.endsIn
      simpa [List.forall_mem_map] using across

end OperatorTree

structure Expr.Covers (source : String) (tokens : List Token) (expr : Expr) : Prop where
  ends : expr.span.EndsIn (tokens.map Token.span)
  nested : expr.Nested source

namespace Expr.Covers

variable {source : String} {front back : List Token} {expr left right : Expr}

theorem mono (covers : expr.Covers source front) (all : front ⊆ back) : expr.Covers source back :=
  ⟨covers.ends.mono (List.map_subset _ all), covers.nested⟩

theorem before (first : left.Covers source front) (last : right.Covers source back)
    (inText : InText source (front ++ back)) : left.span.stop ≤ right.span.start := by
  apply first.ends.before last.ends
  simpa [List.forall_mem_map] using (List.pairwise_append.mp inText.ordered).2.2

end Expr.Covers

namespace ParseTree

variable {source : String}

theorem Primary.covers {primary : Primary} {expr : Expr} (inText : InText source [primary.token])
    (lowered : primary.lower source = .ok expr) : expr.Covers source [primary.token] := by
  have own := inText.own _ (List.mem_singleton_self _)
  have nonempty := inText.nonempty _ (List.mem_singleton_self _)
  cases primary with
  | ident token =>
      rw [Primary.lower, Lowered.map_eq_ok_iff] at lowered
      obtain ⟨name, found, rfl⟩ := lowered
      obtain ⟨-, rfl⟩ := lowerIdent_eq_ok_iff.mp found
      exact ⟨.of_mem (by simp [Primary.token, Expr.span]), Expr.nested_ident own nonempty⟩
  | integer token =>
      rw [Primary.lower, Lowered.map_eq_ok_iff] at lowered
      obtain ⟨literal, found, rfl⟩ := lowered
      obtain ⟨-, value, -, rfl⟩ := lowerInteger_eq_ok_iff.mp found
      exact ⟨.of_mem (by simp [Primary.token, Expr.span]), Expr.nested_integer own nonempty⟩

theorem Member.covers {member : Member} {expr : Expr} (inText : InText source member.tokens)
    (lowered : member.lower source = .ok expr) : expr.Covers source member.tokens := by
  obtain ⟨primary, suffix, span⟩ := member
  obtain ⟨object, first, rest⟩ := Member.lower_eq_ok_iff.mp lowered
  have begins : [primary.token].Sublist (Member.tokens ⟨primary, suffix, span⟩) := by
    simp [Member.tokens]
  have objectCovers := (Primary.covers (inText.sublist begins) first).mono begins.subset
  cases suffix with
  | none =>
      obtain rfl := rest
      exact objectCovers
  | some suffix =>
      obtain ⟨property, hull, found, merged, rfl⟩ := rest
      obtain ⟨-, rfl⟩ := lowerIdent_eq_ok_iff.mp found
      refine ⟨objectCovers.ends.merge (.of_mem ?_) merged, objectCovers.nested.member merged⟩
      simp [Member.tokens, Suffix.tokens]

def Row (source : String) (tokens : List Token) (exprs : List Expr) : Prop :=
  (∀ expr ∈ exprs, expr.Covers source tokens) ∧
    exprs.Pairwise fun left right => left.span.stop ≤ right.span.start

theorem Row.cons {front back : List Token} {expr : Expr} {exprs : List Expr}
    (inText : InText source (front ++ back)) (covers : expr.Covers source front)
    (row : Row source back exprs) : Row source (front ++ back) (expr :: exprs) := by
  constructor
  · rw [List.forall_mem_cons]
    refine ⟨covers.mono (List.subset_append_left _ _), ?_⟩
    intro other member
    exact (row.1 other member).mono (List.subset_append_right _ _)
  · rw [List.pairwise_cons]
    refine ⟨?_, row.2⟩
    intro other member
    exact covers.before (row.1 other member) inText

theorem Row.mono {front back : List Token} {exprs : List Expr} (row : Row source front exprs)
    (all : front ⊆ back) : Row source back exprs :=
  ⟨fun expr member => (row.1 expr member).mono all, row.2⟩

mutual

theorem Expression.covers (expr : Expression) {result : Expr}
    (inText : InText source expr.tokens) (lowered : expr.lower source = .ok result) :
    result.Covers source expr.tokens := by
  match expr with
  | ⟨head, tail, span⟩ =>
      rw [Expression.tokens] at inText ⊢
      obtain ⟨first, pairs, begins, rest, denotes⟩ := Expression.lower_eq_ok_iff.mp lowered
      have headCovers := head.covers (inText.sublist (List.sublist_append_left _ _)) begins
      have tailRow := row_tail tail (inText.sublist (List.sublist_append_right _ _)) rest
      have row := Row.cons inText headCovers tailRow
      rw [← OperatorTree.operands_ofChain] at row
      refine ⟨denotes.endsIn.trans ?_, denotes.nested ?_ row.2⟩
      · rw [List.forall_mem_map]
        exact fun operand member => (row.1 operand member).ends
      · exact fun operand member => (row.1 operand member).nested

theorem row_tail (tail : List (Token × Call)) {pairs : List (Operator × Expr)}
    (inText : InText source (tailTokens tail)) (lowered : lowerTail source tail = .ok pairs) :
    Row source (tailTokens tail) (pairs.map Prod.snd) := by
  match tail with
  | [] =>
      cases lowered
      exact ⟨by simp, .nil⟩
  | (token, operand) :: rest =>
      rw [tailTokens] at inText ⊢
      obtain ⟨op, expr, others, -, first, later, rfl⟩ := lowerTail_cons_eq_ok_iff.mp lowered
      have inner := inText.sublist (List.sublist_cons_self _ _)
      have covers := operand.covers (inner.sublist (List.sublist_append_left _ _)) first
      have row := row_tail rest (inner.sublist (List.sublist_append_right _ _)) later
      exact (Row.cons inner covers row).mono (List.subset_cons_self _ _)

theorem Call.covers (call : Call) {result : Expr} (inText : InText source call.tokens)
    (lowered : call.lower source = .ok result) : result.Covers source call.tokens := by
  match call with
  | ⟨member, none, span⟩ =>
      rw [Call.lower] at lowered
      rw [Call.tokens] at inText ⊢
      exact Member.covers inText lowered
  | ⟨member, some ⟨opening, exprs, commas, closing, _⟩, span⟩ =>
      rw [Call.tokens, Arguments.tokens] at inText ⊢
      obtain ⟨callee, args, first, -, all, rfl⟩ := Call.lower_some_eq_ok_iff.mp lowered
      have covers := Member.covers (inText.sublist (List.sublist_append_left _ _)) first
      have behind := inText.sublist (List.sublist_append_right _ _)
      have inner := behind.sublist (List.sublist_cons_self _ _)
      have row := row_all exprs commas (inner.sublist (List.sublist_append_left _ _)) all
      have inside : separated exprs commas ⊆ opening :: (separated exprs commas ++ [closing]) :=
        List.subset_cons_of_subset _ (List.subset_append_left _ _)
      have whole := Row.cons inText covers (row.mono inside)
      -- The call reaches to its closing parenthesis, which is behind every argument.
      have closed : ∀ arg ∈ args, arg.span.stop ≤ closing.span.stop := by
        intro arg argIn
        have across := (List.pairwise_append.mp inner.ordered).2.2
        apply Nat.le_trans _ closing.span.start_le_stop
        exact (row.1 arg argIn).ends.stop_le (by simpa using across)
      constructor
      · have begins := (whole.1 callee List.mem_cons_self).ends
        exact begins.extendTo (List.mem_map_of_mem (by simp))
      · exact covers.nested.call (fun arg argIn => (row.1 arg argIn).nested) whole.2 closed

theorem row_all (exprs : List Expression) (commas : List Token) {args : List Expr}
    (inText : InText source (separated exprs commas)) (lowered : lowerAll source exprs = .ok args) :
    Row source (separated exprs commas) args := by
  match exprs, commas with
  | [], _ =>
      cases lowered
      exact ⟨by simp, .nil⟩
  | expr :: rest, [] =>
      rw [separated] at inText ⊢
      obtain ⟨first, others, begins, later, rfl⟩ := lowerAll_cons_eq_ok_iff.mp lowered
      have covers := expr.covers (inText.sublist (List.sublist_append_left _ _)) begins
      have row := row_all rest [] (inText.sublist (List.sublist_append_right _ _)) later
      exact Row.cons inText covers row
  | expr :: rest, comma :: commas =>
      rw [separated] at inText ⊢
      obtain ⟨first, others, begins, later, rfl⟩ := lowerAll_cons_eq_ok_iff.mp lowered
      have covers := expr.covers (inText.sublist (List.sublist_append_left _ _)) begins
      have behind := inText.sublist (List.sublist_append_right _ _)
      have row := row_all rest commas (behind.sublist (List.sublist_cons_self _ _)) later
      exact Row.cons inText covers (row.mono (List.subset_cons_self _ _))

end

end ParseTree

structure Stmt.Covers (source : String) (tokens : List Token) (stmt : Stmt) : Prop where
  ends : stmt.span.EndsIn (tokens.map Token.span)
  own : stmt.span.source = source
  nested : stmt.expr.Nested source
  declared : ∀ decl, stmt = .declaration decl →
    decl.span.contains decl.name.span = true ∧ decl.span.contains decl.value.span = true

namespace ParseTree

variable {source : String}

theorem LetDecl.covers {decl : LetDecl} {lowered : Declaration} (inText : InText source decl.tokens)
    (found : decl.lower source = .ok lowered) :
    (Stmt.declaration lowered).Covers source decl.tokens := by
  obtain ⟨name, value, hull, named, valued, own, merged, rfl⟩ := LetDecl.lower_eq_ok_iff.mp found
  obtain ⟨nameOwn, rfl⟩ := lowerIdent_eq_ok_iff.mp named
  -- The hull is that of the keyword and the value, and the name stands between the two.
  have kept : (decl.keyword :: decl.name :: decl.value.tokens).Sublist decl.tokens := by
    apply List.Sublist.cons_cons
    exact ((List.sublist_cons_self _ _).cons_cons _).trans (List.sublist_append_right _ _)
  have inside : decl.value.tokens.Sublist decl.tokens :=
    ((List.sublist_cons_self _ _).trans (List.sublist_cons_self _ _)).trans kept
  have covers := decl.value.covers (inText.sublist inside) valued
  obtain ⟨keywordFirst, nameFirst, -⟩ : _ ∧ _ ∧ _ := by
    simpa only [List.pairwise_cons] using (inText.sublist kept).ordered
  have keywordBefore : decl.keyword.span.stop ≤ decl.name.span.start :=
    keywordFirst _ List.mem_cons_self
  have nameBefore : decl.name.span.stop ≤ value.span.start :=
    covers.ends.le_start (by simpa using nameFirst)
  obtain ⟨-, inSource, start, stop⟩ := Span.merge_eq_ok merged
  have keywordEnds : decl.keyword.span.EndsIn (decl.tokens.map Token.span) :=
    .of_mem (List.mem_map_of_mem (by simp [LetDecl.tokens]))
  have valueEnds : value.span.EndsIn (decl.tokens.map Token.span) :=
    covers.ends.mono (List.map_subset _ inside.subset)
  refine ⟨keywordEnds.merge valueEnds merged, inSource.trans own, covers.nested, ?_⟩
  rintro _ ⟨⟩
  refine ⟨?_, (Span.contains_of_merge merged).2⟩
  have := decl.keyword.span.start_le_stop
  have := value.span.start_le_stop
  rw [Span.contains_iff]
  exact ⟨(inSource.trans own).trans nameOwn.symm, by simp only; omega, by simp only; omega⟩

theorem Clause.covers {clause : Clause} {semi : Token} {span : Span} {stmt : Stmt}
    (inText : InText source clause.tokens)
    (found : Statement.lower source ⟨clause, semi, span⟩ = .ok stmt) :
    stmt.Covers source clause.tokens := by
  cases clause with
  | letDecl decl =>
      obtain ⟨lowered, here, rfl⟩ := Lowered.map_eq_ok_iff.mp found
      exact LetDecl.covers inText here
  | expression expr =>
      obtain ⟨lowered, here, rfl⟩ := Lowered.map_eq_ok_iff.mp found
      have covers := expr.covers inText here
      exact ⟨covers.ends, covers.nested.own, covers.nested, by simp⟩

theorem Clause.Grammatical.begins {clause : Clause} (grammatical : clause.Grammatical) :
    ∃ first rest, clause.tokens = first :: rest ∧ clause.span.start = first.span.start := by
  cases clause with
  | letDecl decl =>
      obtain ⟨-, -, -, -, -, span⟩ := grammatical
      exact ⟨decl.keyword, _, rfl, by rw [Clause.span, span]; rfl⟩
  | expression expr =>
      have inner : expr.Grammatical := grammatical
      obtain ⟨rest, tokens⟩ := expr.exists_tokens
      exact ⟨expr.leading, rest, tokens, inner.begins.2⟩

theorem Statement.Grammatical.contains {statement : Statement} {stmt : Stmt}
    (grammatical : statement.Grammatical) (inText : InText source statement.tokens)
    (covers : stmt.Covers source statement.clause.tokens) :
    statement.span.contains stmt.span = true := by
  have own : statement.span.source = source := by
    apply grammatical.source
    exact fun token traced => inText.own token (statement.mem_tokens_of_mem_traced traced)
  obtain ⟨clause, semi, span⟩ := statement
  obtain ⟨inner, -, rfl⟩ := grammatical
  obtain ⟨first, rest, tokens, start⟩ := inner.begins
  obtain ⟨among, -, across⟩ := List.pairwise_append.mp inText.ordered
  rw [Span.contains_iff]
  refine ⟨own.trans covers.own.symm, covers.ends.le_start ?_, covers.ends.stop_le ?_⟩
  · change ∀ span ∈ clause.tokens.map Token.span, clause.span.start ≤ span.start
    rw [tokens, List.pairwise_cons] at among
    rw [tokens, start, List.forall_mem_map, List.forall_mem_cons]
    refine ⟨Nat.le_refl _, ?_⟩
    intro token member
    exact Nat.le_trans first.span.start_le_stop (among.1 token member)
  · rw [List.forall_mem_map]
    intro token member
    have before : token.span.stop ≤ semi.span.start := across token member semi (by simp)
    have := semi.span.start_le_stop
    rw [Span.through, Span.extendTo, Span.stop_ofRange]
    omega

end ParseTree

theorem covers_of_lower_compile {source text : String} {program : Program}
    (lowered : (compile source text).lower = .ok program) :
    ∀ stmt ∈ program.statements, ∃ tokens, stmt.Covers source tokens ∧
      program.span.contains stmt.span = true := by
  have placed := placed_compile source text
  obtain ⟨mapped, merged⟩ := ParseTree.Program.lower_eq_ok_iff.mp lowered
  have hull := Span.contains_of_mergeAll merged
  intro stmt member
  obtain ⟨statement, inside, found⟩ := exists_of_mem_mapM mapped stmt member
  have inText := placed.inText.sublist (ParseTree.Program.tokens_sublist inside)
  have covers := Clause.covers (inText.sublist (List.sublist_append_left _ _)) found
  have outer := hull statement.span (List.mem_map_of_mem inside)
  have inner := (placed.grammatical statement inside).contains inText covers
  exact ⟨_, covers, Span.contains_trans outer inner⟩

theorem encloses_of_lower_compile {source text : String} {program : Program}
    (lowered : (compile source text).lower = .ok program) :
    (∀ stmt ∈ program.statements, program.span.contains stmt.span = true) ∧
      (∀ decl, .declaration decl ∈ program.statements →
        decl.span.contains decl.name.span = true ∧ decl.span.contains decl.value.span = true) ∧
      ∀ stmt ∈ program.statements, ∀ expr : Expr, expr.Within stmt.expr → expr.Encloses := by
  have each := covers_of_lower_compile lowered
  refine ⟨?_, ?_, ?_⟩
  · intro stmt member
    obtain ⟨tokens, covers, inside⟩ := each stmt member
    exact inside
  · intro decl member
    obtain ⟨tokens, covers, inside⟩ := each _ member
    exact covers.declared decl rfl
  · intro stmt member
    obtain ⟨tokens, covers, inside⟩ := each stmt member
    exact covers.nested.encloses

-- A sum is piped into a call, so it stands before the callee, though it is an argument.
theorem encloses_pipedSum :
    ∃ program, (compile "main" "let r = a.b + 1 ||> m::f(c, 2); x;").lower = .ok program ∧
      program.toString = "let r = await m::f(c, 2)((a.b + 1));\nx;\n" ∧
      (∀ stmt ∈ program.statements, program.span.contains stmt.span = true) ∧
      (∀ decl, .declaration decl ∈ program.statements →
        decl.span.contains decl.name.span = true ∧ decl.span.contains decl.value.span = true) ∧
      ∀ stmt ∈ program.statements, ∀ expr : Expr, expr.Within stmt.expr → expr.Encloses := by
  have shown : (compile "main" "let r = a.b + 1 ||> m::f(c, 2); x;").lower.map Program.toString =
      .ok "let r = await m::f(c, 2)((a.b + 1));\nx;\n" := by
    decide +kernel
  obtain ⟨program, lowered, printed⟩ := Lowered.map_eq_ok_iff.mp shown
  exact ⟨program, lowered, printed, encloses_of_lower_compile lowered⟩

theorem Expr.full_nesting_children (outer : Span) (expr : Expr) :
    (expr.nesting outer).Full ↔ outer.contains expr.span = true ∧
      ∀ child ∈ expr.children, (child.nesting expr.span).Full := by
  cases expr with
  | ident name => simp [nesting, children, span]
  | integer literal => simp [nesting, children, span]
  | call callee args span => simp [nesting, mem_children_call, and_assoc]
  | member access object property span => simp [nesting, children]
  | binary op lhs rhs span => simp [nesting, children, and_assoc]
  | await expr span => simp [nesting, children]

/-- The counts agree just if no expression stands outside of what holds it. -/
theorem Expr.full_nesting_iff (outer : Span) (expr : Expr) :
    (expr.nesting outer).Full ↔ outer.contains expr.span = true ∧
      ∀ part : Expr, part.Within expr →
        ∀ child ∈ part.children, part.span.contains child.span = true := by
  constructor
  · intro full
    refine ⟨((expr.full_nesting_children outer).mp full).1, fun part within => ?_⟩
    induction within generalizing outer with
    | refl =>
        intro child member
        have inner := ((full_nesting_children outer _).mp full).2 child member
        exact ((child.full_nesting_children _).mp inner).1
    | child member _ ih => exact ih _ (((full_nesting_children outer _).mp full).2 _ member)
  · rintro ⟨contained, holds⟩
    rw [full_nesting_children]
    refine ⟨contained, fun child member => ?_⟩
    have smaller := sizeOf_lt_of_mem_children member
    rw [full_nesting_iff]
    exact ⟨holds expr .refl child member, fun part within => holds part (.child member within)⟩
termination_by sizeOf expr

theorem Program.full_nesting_of_lower_compile {source text : String} {program : Program}
    (lowered : (compile source text).lower = .ok program) : program.nesting.Full := by
  rw [Program.nesting, Nesting.full_sum, List.forall_mem_map]
  intro stmt member
  obtain ⟨tokens, covers, inside⟩ := covers_of_lower_compile lowered stmt member
  have holds : ∀ part : Expr, part.Within stmt.expr →
      ∀ child ∈ part.children, part.span.contains child.span = true :=
    fun part within => (covers.nested.encloses part within).children
  cases stmt with
  | declaration decl =>
      exact (decl.value.full_nesting_iff decl.span).mpr ⟨(covers.declared decl rfl).2, holds⟩
  | expression expr => exact (expr.full_nesting_iff program.span).mpr ⟨inside, holds⟩

end Pipewright
