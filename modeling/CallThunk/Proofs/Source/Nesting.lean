import CallThunk.Proofs.Source.Derivation
import CallThunk.Proofs.Source.Parsing
import CallThunk.Proofs.Source.Tiling

/-!
# Spans nest

The nodes of a tree that is parsed stand in its source as the tree says: each one on text of its
own, its children inside of it and one behind the other. Productions are followed from the tokens
upwards: nodes that stand in a row may be put together to one that goes from the first to the last
of them and keeps some of them as children.
-/

namespace CallThunk.Source

/-! ## Nodes -/

/-- A node of a tree. -/
inductive Node where
  | ident (name : Ident)
  | ty (e : TyExpr)
  | typed (field : Typed)
  | expr (e : Expr)
  | stmt (s : Stmt)
  | item (item : Item)

namespace Node

/-- Where a node stands; a field or a parameter stands from its name to its type. -/
def span : Node → Span
  | ident name => name.span
  | ty e => e.span
  | typed field => field.name.span.merge field.ty.span
  | expr e => e.span
  | stmt s => s.span
  | item (.opaqueItem decl) => decl.span
  | item (.structItem decl) => decl.span
  | item (.functionItem decl) => decl.span

/-- The nodes right below a node, in source order. -/
def children : Node → List Node
  | ident _ => []
  | ty (.named name) => [ident name]
  | ty (.pointer pointee _) => [ty pointee]
  | ty (.function params _ ret _) => params.map ty ++ ret.toList.map ty
  | typed field => [ident field.name, ty field.ty]
  | expr (.var name _) => [ident name]
  | expr (.field base field _) => [expr base, ident field]
  | expr (.call callee args _) => expr callee :: args.map expr
  | expr (.cast inner target _) => [expr inner, ty target]
  | stmt (.bind name init _) => [ident name, expr init]
  | stmt (.assign place value _) => [expr place, expr value]
  | stmt (.eval value) => [expr value]
  | stmt (.ret _) => []
  | item (.opaqueItem decl) => [ident decl.name]
  | item (.structItem decl) => ident decl.name :: decl.fields.map typed
  | item (.functionItem decl) => ident decl.name :: (decl.params.map typed ++ decl.body.map stmt)

/-- A node is another one or stands below it. -/
inductive Has (root : Node) : Node → Prop where
  | self : Has root root
  | child {node child : Node} (has : Has root node) (next : child ∈ node.children) : Has root child

theorem Has.through {root node child : Node} (h : child.Has node) (next : child ∈ root.children) :
    root.Has node := by
  induction h with
  | self => exact .child .self next
  | child _ next' ih => exact .child ih next'

end Node

/-- A node of a unit. -/
def SourceUnit.Has (unit : SourceUnit) (node : Node) : Prop :=
  ∃ item ∈ unit.items, (Node.item item).Has node

namespace Span

/-- A span contains another one. -/
def Contains (outer inner : Span) : Prop := outer.start ≤ inner.start ∧ inner.stop ≤ outer.stop

/-- A span ends before another one starts. -/
def Before (a b : Span) : Prop := a.stop ≤ b.start

theorem merge_eq {a b : Span} (start : a.start ≤ b.start) (stop : a.stop ≤ b.stop) :
    a.merge b = ⟨a.start, b.stop⟩ := by
  unfold merge
  rw [Nat.min_eq_left start, Nat.max_eq_right stop]

end Span

/-! ## Offsets in a source -/

/-- An offset between two characters of a source, or at one of its ends. -/
def Boundary (source : String) (offset : Nat) : Prop :=
  ∃ before behind, source = before ++ behind ∧ offset = before.utf8ByteSize

theorem Span.Covers.boundaries {span : Span} {source text : String} (h : span.Covers source text) :
    Boundary source span.start ∧ Boundary source span.stop := by
  obtain ⟨before, behind, whole, rfl⟩ := h
  refine ⟨⟨before, text ++ behind, ?_, rfl⟩, ⟨before ++ text, behind, whole, rfl⟩⟩
  rw [whole, String.append_assoc]

theorem Span.Covers.stop_le {span : Span} {source text : String} (h : span.Covers source text) :
    span.stop ≤ source.utf8ByteSize := by
  obtain ⟨before, behind, rfl, rfl⟩ := h
  rw [String.utf8ByteSize_append (t := behind)]
  exact Nat.le_add_right ..

/-- Between two offsets of a source there is text. -/
theorem exists_covers {source : String} {span : Span} (start : Boundary source span.start)
    (stop : Boundary source span.stop) (pos : span.start < span.stop) :
    ∃ text, text ≠ "" ∧ span.Covers source text := by
  obtain ⟨before, rest, whole, startAt⟩ := start
  obtain ⟨front, behind, whole', stopAt⟩ := stop
  have same : before.toList ++ rest.toList = front.toList ++ behind.toList := by
    rw [← String.toList_append, ← String.toList_append, ← whole, ← whole']
  rcases List.append_eq_append_iff.mp same with ⟨text, frontEq, -⟩ | ⟨text, beforeEq, -⟩
  · have joined : front = before ++ String.ofList text := by
      rw [← String.toList_inj, frontEq]
      simp
    subst joined
    refine ⟨String.ofList text, ?_, before, behind, whole', ?_⟩
    · intro empty
      rw [empty, String.append_empty] at stopAt
      omega
    · rw [← startAt, ← stopAt]
  · -- the front of the source that ends earlier is not the longer one
    have joined : before = front ++ String.ofList text := by
      rw [← String.toList_inj, beforeEq]
      simp
    rw [joined, String.utf8ByteSize_append] at startAt
    omega

/-! ## Rows of nodes -/

/-- A name stands at its span. -/
def Node.Named (source : String) : Node → Prop
  | .ident name => name.span.Covers source name.name
  | _ => True

mutual
/-- A node stands on text of a source, and its children stand inside of it. -/
inductive Node.Placed (source : String) : Node → Prop where
  | mk {node : Node} (start : Boundary source node.span.start)
      (stop : Boundary source node.span.stop) (pos : node.span.start < node.span.stop)
      (named : node.Named source)
      (inside : Row source node.span.start node.span.stop node.children) : node.Placed source
/-- Nodes stand between two offsets, one behind the other. -/
inductive Row (source : String) : Nat → Nat → List Node → Prop where
  | nil {lo hi : Nat} (le : lo ≤ hi) : Row source lo hi []
  | cons {lo hi : Nat} {node : Node} {nodes : List Node} (before : lo ≤ node.span.start)
      (placed : node.Placed source) (rest : Row source node.span.stop hi nodes) :
      Row source lo hi (node :: nodes)
end

variable {source : String} {lo hi lo' hi' : Nat} {nodes : List Node}

theorem Node.Placed.pos {node : Node} (h : node.Placed source) :
    node.span.start < node.span.stop := by
  obtain ⟨_, _, pos, _, _⟩ := h
  exact pos

namespace Row

theorem le (h : Row source lo hi nodes) : lo ≤ hi := by
  induction nodes generalizing lo with
  | nil =>
      obtain le | _ := h
      exact le
  | cons node nodes ih =>
      obtain _ | ⟨before, placed, rest⟩ := h
      exact Nat.le_trans before (Nat.le_trans (Nat.le_of_lt placed.pos) (ih rest))

theorem mono (h : Row source lo hi nodes) (start : lo' ≤ lo) (stop : hi ≤ hi') :
    Row source lo' hi' nodes := by
  induction nodes generalizing lo lo' with
  | nil => exact .nil (Nat.le_trans start (Nat.le_trans h.le stop))
  | cons node nodes ih =>
      obtain _ | ⟨before, placed, rest⟩ := h
      exact .cons (Nat.le_trans start before) placed (ih rest (Nat.le_refl _))

theorem append_iff {xs ys : List Node} :
    Row source lo hi (xs ++ ys) ↔ ∃ mid, Row source lo mid xs ∧ Row source mid hi ys := by
  constructor
  · intro h
    induction xs generalizing lo with
    | nil => exact ⟨lo, .nil (Nat.le_refl lo), h⟩
    | cons x xs ih =>
        obtain _ | ⟨before, placed, rest⟩ := h
        obtain ⟨mid, front, back⟩ := ih rest
        exact ⟨mid, .cons before placed front, back⟩
  · rintro ⟨mid, front, back⟩
    induction xs generalizing lo with
    | nil => exact back.mono front.le (Nat.le_refl hi)
    | cons x xs ih =>
        obtain _ | ⟨before, placed, rest⟩ := front
        exact .cons before placed (ih rest)

theorem sublist {xs ys : List Node} (h : Row source lo hi ys) (sub : xs.Sublist ys) :
    Row source lo hi xs := by
  induction sub generalizing lo with
  | slnil => exact h
  | cons y _ ih =>
      obtain _ | ⟨before, placed, rest⟩ := h
      -- a node that is left out leaves a gap, which a row may have
      have start := Nat.le_trans before (Nat.le_of_lt placed.pos)
      exact (ih rest).mono start (Nat.le_refl hi)
  | cons_cons y _ ih =>
      obtain _ | ⟨before, placed, rest⟩ := h
      exact .cons before placed (ih rest)

theorem placed_of_mem (h : Row source lo hi nodes) {node : Node} (hnode : node ∈ nodes) :
    node.Placed source ∧ lo ≤ node.span.start ∧ node.span.stop ≤ hi := by
  obtain _ | ⟨before, placed, rest⟩ := h.sublist (List.singleton_sublist.mpr hnode)
  exact ⟨placed, before, rest.le⟩

theorem pairwise (h : Row source lo hi nodes) :
    nodes.Pairwise fun a b => a.span.Before b.span := by
  induction nodes generalizing lo with
  | nil => exact .nil
  | cons node nodes ih =>
      obtain _ | ⟨_, _, rest⟩ := h
      exact .cons (fun next hnext => (rest.placed_of_mem hnext).2.1) (ih rest)

end Row

/-- Every node below one that stands in the source stands there too. -/
theorem Node.Has.placed {root node : Node} (h : root.Has node) (placed : root.Placed source) :
    node.Placed source := by
  induction h with
  | self => exact placed
  | child _ next ih =>
      obtain ⟨_, _, _, _, inside⟩ := ih
      exact (inside.placed_of_mem next).1

/-! ## Putting nodes together -/

/-- Wherever some nodes stand in a row, others do. -/
def Joins (source : String) (parts nodes : List Node) : Prop :=
  ∀ lo hi, Row source lo hi parts → Row source lo hi nodes

namespace Joins

variable {parts parts' nodes' : List Node}

theorem refl (nodes : List Node) : Joins source nodes nodes := fun _ _ h => h

theorem trans (h : Joins source parts nodes) (h' : Joins source nodes nodes') :
    Joins source parts nodes' := fun lo hi row => h' lo hi (h lo hi row)

theorem append (h : Joins source parts nodes) (h' : Joins source parts' nodes') :
    Joins source (parts ++ parts') (nodes ++ nodes') := by
  intro lo hi row
  obtain ⟨mid, front, back⟩ := Row.append_iff.mp row
  exact Row.append_iff.mpr ⟨mid, h lo mid front, h' mid hi back⟩

theorem cons (node : Node) (h : Joins source parts nodes) :
    Joins source (node :: parts) (node :: nodes) := (refl [node]).append h

theorem sublist (h : nodes.Sublist parts) : Joins source parts nodes :=
  fun _ _ row => row.sublist h

/-- A node that stands where its only child stands. -/
theorem only {node child : Node} (span : node.span = child.span)
    (children : node.children = [child]) (named : node.Named source) :
    Joins source [child] [node] := by
  intro lo hi row
  obtain _ | ⟨before, placed, rest⟩ := row
  have whole : Row source child.span.start child.span.stop [child] :=
    .cons (Nat.le_refl _) placed (.nil (Nat.le_refl _))
  obtain ⟨start, stop, pos, _, _⟩ := placed
  rw [← span] at before start stop pos rest whole
  rw [← children] at whole
  exact .cons before ⟨start, stop, pos, named, whole⟩ rest

/-- A node from the first to the last one of a row, with some of them as its children. -/
theorem node {first node : Node} {rest : List Node} (last : Node) (ends : rest.getLast? = some last)
    (span : node.span = first.span.merge last.span)
    (children : node.children.Sublist (first :: rest)) (named : node.Named source) :
    Joins source (first :: rest) [node] := by
  intro lo hi row
  obtain ⟨middle, rfl⟩ := List.getLast?_eq_some_iff.mp ends
  obtain _ | ⟨before, placed, rest⟩ := row
  obtain ⟨mid, front, _ | ⟨next, placed', behind⟩⟩ := Row.append_iff.mp rest
  have order : first.span.stop ≤ last.span.start := Nat.le_trans front.le next
  have pos := placed.pos
  have pos' := placed'.pos
  -- the last node starts behind the first one, so both ends of the merged span are known
  rw [Span.merge_eq (by omega) (by omega)] at span
  have whole : Row source first.span.start last.span.stop (first :: (middle ++ [last])) := by
    have back : Row source mid last.span.stop [last] := .cons next placed' (.nil (Nat.le_refl _))
    exact .cons (Nat.le_refl _) placed (Row.append_iff.mpr ⟨mid, front, back⟩)
  have inside := whole.sublist children
  obtain ⟨start, _, _, _, _⟩ := placed
  obtain ⟨_, stop, _, _, _⟩ := placed'
  refine .cons ?_ ⟨?_, ?_, ?_, named, ?_⟩ ?_
  all_goals rw [span]
  · exact before
  · exact start
  · exact stop
  · show first.span.start < last.span.stop
    omega
  · exact inside
  · exact .nil behind.le

end Joins

/-! ## Productions -/

/-- A token as the name at it. -/
def Token.node (t : Token) : Node := .ident t.ident

mutual
theorem joins_ty : (d : TyDerivation) → Joins source (d.tokens.map Token.node) [.ty d.tree]
  | .named _ => .only rfl rfl trivial
  | .pointer star pointee => by
      have inner := (joins_ty pointee).cons star.token.node
      exact inner.trans (.node (.ty pointee.tree) rfl rfl (.cons _ (.refl _)) trivial)
  | .function start opens params closes .none => by
      have inner := ((joins_params params).append (.refl [closes.token.node])).cons opens.token.node
      simp only [TyDerivation.tokens, ResultDerivation.tokens, List.map_cons, List.map_append]
      refine (inner.cons start.token.node).trans (.node closes.token.node ?_ rfl ?_ trivial)
      · simp [List.getLast?_cons]
      · exact .cons _ (.cons _ ((List.Sublist.refl _).append (List.nil_sublist _)))
  | .function start opens params closes (.given arrow ret) => by
      have result := ((joins_ty ret).cons arrow.token.node).cons closes.token.node
      have inner := ((joins_params params).append result).cons opens.token.node
      simp only [TyDerivation.tokens, ResultDerivation.tokens, List.map_cons, List.map_append]
      refine (inner.cons start.token.node).trans (.node (.ty ret.tree) ?_ rfl ?_ trivial)
      · simp [List.getLast?_cons]
      · exact .cons _ (.cons _ ((List.Sublist.refl _).append (.cons _ (.cons _ (.refl _)))))
theorem joins_params : (d : ParamsDerivation) →
    Joins source (d.tokens.map Token.node) (d.trees.map .ty)
  | .nil => .refl []
  | .variadic _ => .sublist (List.nil_sublist _)
  | .last only => joins_ty only
  | .cons first comma rest => by
      have all := (joins_ty first).append ((joins_params rest).cons comma.token.node)
      simp only [ParamsDerivation.tokens, List.map_cons, List.map_append]
      exact all.trans (.sublist (.cons_cons _ (.cons _ (.refl _))))
end

theorem joins_typed (d : TypedDerivation) :
    Joins source (d.tokens.map Token.node) [.typed d.tree] := by
  have parts : Joins source _ _ := ((joins_ty d.ty).cons d.colon.token.node).cons d.name.token.node
  exact parts.trans (.node (.ty d.ty.tree) rfl rfl (.cons_cons _ (.cons _ (.refl _))) trivial)

theorem joins_list {α β : Type} {written : α → List Token} {tree : α → β} {kind : β → Node}
    (element : ∀ x, Joins source ((written x).map Token.node) [kind (tree x)])
    (l : ListDerivation α) :
    Joins source ((l.tokens written).map Token.node) ((l.elements.map tree).map kind) := by
  induction l with
  | nil => exact .refl []
  | last only => exact element only
  | cons first comma rest ih =>
      have all := (element first).append (ih.cons comma.token.node)
      simp only [ListDerivation.tokens, List.map_cons, List.map_append]
      exact all.trans (.sublist (.cons_cons _ (.cons _ (.refl _))))

theorem joins_casts (d : CastsDerivation) (e : Expr) :
    Joins source (.expr e :: d.tokens.map Token.node) [.expr (d.tree e)] := by
  induction d generalizing e with
  | nil => exact .refl _
  | cons mark ty rest ih =>
      have cast : Joins source (.expr e :: mark.token.node :: ty.tokens.map Token.node)
          [.expr (.cast e ty.tree (e.span.merge ty.tree.span))] := by
        have parts : Joins source _ _ := ((joins_ty ty).cons mark.token.node).cons (.expr e)
        exact parts.trans (.node (.ty ty.tree) rfl rfl (.cons_cons _ (.cons _ (.refl _))) trivial)
      have all := cast.append (.refl (rest.tokens.map Token.node))
      simp only [CastsDerivation.tokens, List.map_cons, List.map_append]
      exact all.trans (ih _)

mutual
theorem joins_atom : (d : AtomDerivation) → Joins source (d.tokens.map Token.node) [.expr d.tree]
  | .var _ => .only rfl rfl trivial
  | .parens opens inner closes => by
      have parts := ((joins_expr inner).append (.refl [closes.token.node])).cons opens.token.node
      -- the parentheses are passed over: the node keeps the span of what is in them
      simp only [AtomDerivation.tokens, List.map_cons, List.map_append]
      exact parts.trans (.sublist (.cons _ (.cons_cons _ (List.nil_sublist _))))
theorem joins_selections : (d : SelectionsDerivation) → (e : Expr) →
    Joins source (.expr e :: d.tokens.map Token.node) [.expr (d.tree e)]
  | .nil, _ => .refl _
  | .field dot name rest, e => by
      have field : Joins source [.expr e, dot.token.node, name.token.node]
          [.expr (.field e name.token.ident (e.span.merge name.token.span))] :=
        .node name.token.node rfl rfl (.cons_cons _ (.cons _ (.refl _))) trivial
      -- the selection stands in front of the rest where its base has stood
      have all := field.append (.refl (rest.tokens.map Token.node))
      exact all.trans (joins_selections rest _)
  | .call opens args closes rest, e => by
      have call : Joins source
          (.expr e :: opens.token.node ::
            ((argumentTokens args).map Token.node ++ [closes.token.node]))
          [.expr (.call e (argumentTrees args) (e.span.merge closes.token.span))] := by
        have inner := (joins_arguments args).append (.refl [closes.token.node])
        refine ((inner.cons opens.token.node).cons (.expr e)).trans
          (.node closes.token.node ?_ rfl ?_ trivial)
        · simp [List.getLast?_cons]
        · exact .cons_cons _ (.cons _ (List.sublist_append_left _ _))
      have all := call.append (.refl (rest.tokens.map Token.node))
      simp only [SelectionsDerivation.tokens, List.map_cons, List.map_append]
      simp only [List.cons_append, List.append_assoc, List.nil_append] at all
      exact all.trans (joins_selections rest _)
theorem joins_expr : (d : ExprDerivation) → Joins source (d.tokens.map Token.node) [.expr d.tree]
  | .mk atom selected casts => by
      have first := (joins_atom atom).append (.refl (selected.tokens.map Token.node))
      have all := (first.trans (joins_selections selected _)).append
        (.refl (casts.tokens.map Token.node))
      simp only [ExprDerivation.tokens, List.map_append]
      rw [List.append_assoc] at all
      exact all.trans (joins_casts casts _)
theorem joins_arguments : (args : ListDerivation ExprDerivation) →
    Joins source ((argumentTokens args).map Token.node) ((argumentTrees args).map .expr)
  | .nil => .refl []
  | .last only => joins_expr only
  | .cons first comma rest => by
      have all := (joins_expr first).append ((joins_arguments rest).cons comma.token.node)
      simp only [argumentTokens, List.map_cons, List.map_append]
      exact all.trans (.sublist (.cons_cons _ (.cons _ (.refl _))))
end

theorem joins_stmt (d : StmtDerivation) :
    Joins source (d.tokens.map Token.node) [.stmt d.tree] := by
  cases d with
  | bind start name eq init stop =>
      have inner : Joins source _ _ := (joins_expr init).append (.refl [stop.token.node])
      have parts := ((inner.cons eq.token.node).cons name.token.node).cons start.token.node
      simp only [StmtDerivation.tokens, List.map_cons, List.map_append]
      refine parts.trans (.node stop.token.node rfl rfl ?_ trivial)
      exact .cons _ (.cons_cons _ (.cons _ (.cons_cons _ (List.nil_sublist _))))
  | ret start stop => exact .node stop.token.node rfl rfl (List.nil_sublist _) trivial
  | eval place assigned stop =>
      cases assigned with
      | none =>
          have parts : Joins source _ _ := (joins_expr place).append (.refl [stop.token.node])
          have value : Joins source [.expr place.tree, stop.token.node] [.expr place.tree] :=
            .sublist (.cons_cons _ (List.nil_sublist _))
          simp only [StmtDerivation.tokens, AssignedDerivation.tokens, List.nil_append,
            List.map_append]
          -- the span of the statement is that of its expression, without the semicolon
          exact (parts.trans value).trans (.only rfl rfl trivial)
      | given eq value =>
          have stored : Joins source _ _ :=
            ((joins_expr value).append (.refl [stop.token.node])).cons eq.token.node
          have parts := (joins_expr place).append stored
          simp only [StmtDerivation.tokens, AssignedDerivation.tokens, List.cons_append,
            List.map_cons, List.map_append]
          refine parts.trans (.node stop.token.node rfl rfl ?_ trivial)
          exact .cons_cons _ (.cons _ (.cons_cons _ (List.nil_sublist _)))

/-- What is written one behind the other stands so. -/
theorem joins_flatMap {α β : Type} {written : α → List Token} {tree : α → β} {kind : β → Node}
    (element : ∀ x, Joins source ((written x).map Token.node) [kind (tree x)]) (xs : List α) :
    Joins source ((xs.flatMap written).map Token.node) ((xs.map tree).map kind) := by
  induction xs with
  | nil => exact .refl []
  | cons x xs ih =>
      rw [List.flatMap_cons, List.map_append]
      exact (element x).append ih

theorem joins_item (d : ItemDerivation) :
    Joins source (d.tokens.map Token.node) [.item d.tree] := by
  cases d with
  | opaqueItem start name _ _ _ _ _ _ stop =>
      exact .node stop.token.node rfl rfl (.cons _ (.cons_cons _ (List.nil_sublist _))) trivial
  | structItem start name opens fields closes =>
      have inner : Joins source _ _ :=
        (joins_list joins_typed fields).append (.refl [closes.token.node])
      have parts := ((inner.cons opens.token.node).cons name.token.node).cons start.token.node
      simp only [ItemDerivation.tokens, List.map_cons, List.map_append]
      refine parts.trans (.node closes.token.node ?_ rfl ?_ trivial)
      · simp [List.getLast?_cons]
      · exact .cons _ (.cons_cons _ (.cons _ (List.sublist_append_left _ _)))
  | functionItem start name opens params closes left body right =>
      have block : Joins source _ _ :=
        (joins_flatMap joins_stmt body).append (.refl [right.token.node])
      have inner : Joins source _ _ := (joins_list joins_typed params).append
        ((block.cons left.token.node).cons closes.token.node)
      have parts := ((inner.cons opens.token.node).cons name.token.node).cons start.token.node
      simp only [ItemDerivation.tokens, List.map_cons, List.map_append]
      refine parts.trans (.node right.token.node ?_ rfl ?_ trivial)
      · simp [List.getLast?_cons]
      · have stmts := List.sublist_append_left ((body.map StmtDerivation.tree).map Node.stmt)
          [right.token.node]
        have block := (stmts.cons left.token.node).cons closes.token.node
        exact .cons _ (.cons_cons _ (.cons _ ((List.Sublist.refl _).append block)))

/-! ## Units -/

theorem row_of_pairwise {ts : List Token} (le : lo ≤ hi)
    (marks : ∀ t ∈ ts, t.span.start < t.span.stop ∧ t.span.Covers source t.lexeme ∧
      lo ≤ t.span.start ∧ t.span.stop ≤ hi)
    (order : ts.Pairwise fun a b => a.span.stop ≤ b.span.start) :
    Row source lo hi (ts.map Token.node) := by
  induction ts generalizing lo with
  | nil => exact .nil le
  | cons t ts ih =>
      obtain ⟨⟨pos, covers, start, stop⟩, marks⟩ := List.forall_mem_cons.mp marks
      obtain ⟨first, order⟩ := List.pairwise_cons.mp order
      have edges := covers.boundaries
      refine .cons start ⟨edges.1, edges.2, pos, covers, .nil (Nat.le_of_lt pos)⟩ (ih stop ?_ order)
      intro u hu
      obtain ⟨pos', covers', -, stop'⟩ := marks u hu
      exact ⟨pos', covers', first u hu, stop'⟩

/-- The tokens of a source stand in it. -/
theorem row_cut (source : String) :
    Row source 0 source.utf8ByteSize ((cut 0 0 source.toList).tokens.map Token.node) := by
  obtain ⟨marks, tiling⟩ := exists_tiling 0 source.toList
  have order : (marks.filterMap Mark.token?).Pairwise fun a b => a.span.stop ≤ b.span.start := by
    refine tiling.pairwise.filterMap Mark.token? ?_
    intro m m' before t ht u hu
    cases m <;> cases ht
    cases m' <;> cases hu
    exact before
  rw [tiling.cut_eq]
  refine row_of_pairwise (Nat.zero_le _) ?_ order
  intro t ht
  obtain ⟨m, hm, same⟩ := List.mem_filterMap.mp ht
  cases m with
  | bad => cases same
  | token =>
      cases same
      have covers := tiling.covers hm
      exact ⟨tiling.span_pos hm, covers, Nat.zero_le _, covers.stop_le⟩

/-- The items of a unit stand in its source, one behind the other. -/
theorem row_items {unit : SourceUnit} {reports : Diagnostics}
    (h : SourceUnit.parse source = (some unit, reports)) :
    Row source 0 source.utf8ByteSize (unit.items.map Node.item) := by
  obtain ⟨-, derives, -⟩ := parse_eq_some.mp h
  obtain ⟨d, tokens, tree⟩ := derives.derivable
  have items : d.items.map ItemDerivation.tree = unit.items := congrArg SourceUnit.items tree
  have joins : Joins source _ _ := joins_flatMap joins_item d.items
  rw [items, show d.items.flatMap ItemDerivation.tokens = _ from tokens] at joins
  exact joins _ _ (row_cut source)

end CallThunk.Source
