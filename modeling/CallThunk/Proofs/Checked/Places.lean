import CallThunk.Proofs.Checked.Declarations
import CallThunk.Proofs.Source.Nesting

/-!
# Places of reports

Checking a unit reports only at nodes of the unit. As the nodes of a parsed unit stand on text of
its source, so do the reports.
-/

namespace CallThunk.Checked

open Source (Node Span)

variable {α β : Type} {env : Env} {S : Span → Prop}

/-! ## Reports at given spans -/

/-- All reports are at spans of a kind, those apart that have none. -/
def ReportsAt (S : Span → Prop) (reports : Diagnostics) : Prop :=
  ∀ report ∈ reports, ∀ span ∈ report.span, S span

theorem reportsAt_append {reports : Diagnostics} {report : Diagnostic} (h : ReportsAt S reports)
    (new : ∀ span ∈ report.span, S span) : ReportsAt S (reports ++ [report]) := by
  intro r hr
  rcases List.mem_append.mp hr with old | hr
  · exact h r old
  · rw [List.mem_singleton.mp hr]
    exact new

theorem reportsAt_add {s : State} {p : Problem} {span : Span} (h : ReportsAt S s.reports)
    (hspan : S span) : ReportsAt S (s.add p (some span)).reports := by
  refine reportsAt_append h ?_
  rintro _ ⟨⟩
  exact hspan

/-- A check that reports only at spans of a kind. -/
def Check.At (S : Span → Prop) (x : Check α) : Prop :=
  ∀ s, ReportsAt S s.reports → ReportsAt S (x.exec s).2.reports

namespace Check.At

theorem pure (a : α) : (Pure.pure a : Check α).At S := fun _ h => h

theorem bind {x : Check α} {f : α → Check β} (hx : x.At S) (hf : ∀ a, (f a).At S) :
    (x >>= f).At S := by
  intro s h
  have first := hx s h
  rw [exec_bind]
  rcases hr : x.exec s with ⟨_ | a, t⟩ <;> rw [hr] at first
  · exact first
  · exact hf a t first

theorem reject {p : Problem} {span : Span} (hspan : S span) :
    (Checked.reject p span : Check α).At S := by
  intro s h
  rw [exec_reject]
  exact reportsAt_add h hspan

theorem report {p : Problem} {span : Span} (hspan : S span) :
    Check.At S (Checked.report p (some span) : Check PUnit) := by
  intro s h
  rw [exec_report]
  exact reportsAt_add h hspan

theorem get : (MonadState.get : Check State).At S := fun _ h => h

theorem cons {x : Check α} {xs : Check (List α)} (hx : x.At S) (hxs : xs.At S) :
    (x.cons xs).At S := by
  intro s h
  rw [exec_cons]
  exact hxs _ (hx s h)

end Check.At

/-- All nodes below a node stand on spans of a kind. -/
def OnSpans (S : Span → Prop) (root : Node) : Prop := ∀ node, root.Has node → S node.span

theorem OnSpans.self {root : Node} (h : OnSpans S root) : S root.span := h root .self

theorem OnSpans.child {root child : Node} (h : OnSpans S root) (next : child ∈ root.children) :
    OnSpans S child := fun node has => h node (has.through next)

theorem OnSpans.first {root child : Node} {others : List Node} (h : OnSpans S root)
    (children : root.children = child :: others) : OnSpans S child :=
  h.child (children ▸ List.mem_cons_self)

theorem OnSpans.second {root first child : Node} {others : List Node} (h : OnSpans S root)
    (children : root.children = first :: child :: others) : OnSpans S child :=
  h.child (children ▸ List.mem_cons_of_mem _ List.mem_cons_self)

/-! ## Types -/

theorem namedTy_at {ident : Source.Ident} (h : S ident.span) : (namedTy env ident).At S := by
  intro s hs
  rw [exec_namedTy]
  split
  · exact hs
  · split
    · exact hs
    · split
      · exact hs
      · exact reportsAt_add hs h

theorem admitParam_at {span : Span} (h : S span) (ty : Ty) : (admitParam ty span).At S := by
  unfold admitParam
  split
  · exact .reject h
  · exact .reject h
  · exact .pure _

mutual
theorem tyOf_at : (e : Source.TyExpr) → OnSpans S (.ty e) → (tyOf env e).At S
  | .named ident, h => by
      rw [tyOf]
      exact namedTy_at h.self
  | .pointer pointee _, h => by
      rw [tyOf]
      exact (tyOf_at pointee (h.first rfl)).bind fun _ => .pure _
  | .function params variadic ret span, h => by
      intro s hs
      rw [exec_tyOf_function]
      refine resultTy_at ret ?_ _ (paramTys_at params ?_ s hs)
      · intro e he
        refine h.child (List.mem_append_right _ ?_)
        exact List.mem_map_of_mem (Option.mem_toList.mpr he)
      · intro e he
        exact h.child (List.mem_append_left _ (List.mem_map_of_mem he))
theorem paramTys_at : (es : List Source.TyExpr) → (∀ e ∈ es, OnSpans S (.ty e)) →
    Check.At S (.mk (paramTys env es))
  | [], _ => .pure []
  | e :: es, h => by
      obtain ⟨first, others⟩ := List.forall_mem_cons.mp h
      rw [paramTys_cons]
      refine .cons ?_ (paramTys_at es others)
      exact (tyOf_at e first).bind fun _ => admitParam_at first.self _
theorem resultTy_at : (ret : Option Source.TyExpr) → (∀ e ∈ ret, OnSpans S (.ty e)) →
    (resultTy env ret).At S
  | some ret, h => by
      rw [resultTy]
      exact tyOf_at ret (h ret rfl)
  | none, _ => .pure _
end

/-! ## Expressions -/

theorem selectField_at {field : Source.Ident} (h : S field.span) (base : Ty) :
    (selectField base field).At S := by
  unfold selectField
  split
  · refine .bind .get fun s => ?_
    split
    · exact .pure _
    · exact .reject h
  · exact .reject h

theorem adapt_at {span : Span} (h : S span) (value : Expr) (target : Ty) :
    (adapt value target span).At S := by
  unfold adapt
  split
  · exact .pure _
  · exact .bind (.report h) fun _ => .pure _
  · exact .reject h

theorem calleeSignature_at {span : Span} (h : S span) (callee : Expr) :
    (calleeSignature callee span).At S := by
  unfold calleeSignature
  split
  · exact .pure _
  · exact .reject h

mutual
theorem inferExpr_at (scope : Scope) : (e : Source.Expr) → OnSpans S (.expr e) →
    (inferExpr env scope e).At S
  | .var ident _, h => by
      have name := h.first rfl
      rw [inferExpr]
      split
      · exact .pure _
      · exact .reject name.self
  | .cast inner ty _, h => by
      have value := inferExpr_at scope inner (h.first rfl)
      have target : (tyOf env ty).At S := tyOf_at ty (h.second rfl)
      rw [inferExpr]
      refine value.bind fun value => target.bind fun target => ?_
      split
      · exact .pure _
      · exact .reject h.self
  | .field base field _, h => by
      have value := inferExpr_at scope base (h.first rfl)
      have name := h.second rfl
      rw [inferExpr]
      refine value.bind fun base => (selectField_at name.self base.ty).bind fun ⟨ty, offset⟩ => ?_
      dsimp only
      split
      · exact .bind (.reject name.self) fun _ => .pure _
      · exact .pure _
  | .call callee args _, h => by
      have target := h.first rfl
      have passed : ∀ arg ∈ args, OnSpans S (.expr arg) := by
        intro arg harg
        exact h.child (List.mem_cons_of_mem _ (List.mem_map_of_mem harg))
      rw [inferExpr]
      refine (inferExpr_at scope callee target).bind fun value =>
        (calleeSignature_at target.self value).bind fun signature => ?_
      -- where the number of arguments is as declared, and in form also behind the refusal
      have checked : ∀ u : PUnit, Check.At S (do
          let args ← OptionT.mk (inferArgs env scope signature.params args)
          return Expr.call value signature args) :=
        fun _ => (inferArgs_at scope signature.params args passed).bind fun _ => .pure _
      dsimp only
      split <;> split
      · exact checked ()
      · exact .bind (.reject h.self) checked
      · exact checked ()
      · exact .bind (.reject h.self) checked
theorem inferArgs_at (scope : Scope) : (params : List Ty) → (args : List Source.Expr) →
    (∀ arg ∈ args, OnSpans S (.expr arg)) → Check.At S (.mk (inferArgs env scope params args))
  | _, [], _ => .pure []
  | params, arg :: args, h => by
      obtain ⟨first, others⟩ := List.forall_mem_cons.mp h
      rw [inferArgs_cons]
      refine .cons ((inferExpr_at scope arg first).bind fun value => ?_)
        (inferArgs_at scope params.tail args others)
      split
      · exact adapt_at first.self _ _
      · exact .pure _
end

/-! ## Statements -/

theorem inferStmt_at (scope : Scope) : (stmt : Source.Stmt) → OnSpans S (.stmt stmt) →
    (inferStmt env scope stmt).At S
  | .bind name init _, h => by
      have named := h.first rfl
      have value := h.second rfl
      rw [inferStmt]
      refine (inferExpr_at scope init value).bind fun init => ?_
      have bound : ∀ u : PUnit, Check.At S (do
          if init.ty.isVoid then
            reject (.voidLocal name.name) name.span
          return (Stmt.bind scope.locals.length init,
            { scope with locals := (name.name, init.ty) :: scope.locals })) := by
        intro _
        split
        · exact .bind (.reject named.self) fun _ => .pure _
        · exact .pure _
      dsimp only
      split
      · exact .bind (.reject named.self) bound
      · exact bound ()
  | .assign (.field base field _) value _, h => by
      have place := h.first rfl
      have stored := h.second rfl
      have name := place.second rfl
      rw [inferStmt]
      refine (inferExpr_at scope base (place.first rfl)).bind fun base =>
        (selectField_at name.self base.ty).bind fun ⟨ty, offset⟩ =>
        (inferExpr_at scope value stored).bind fun result => ?_
      have adapted : ∀ u : PUnit, Check.At S (do
          let result ← adapt result ty value.span
          return (Stmt.store base offset result, scope)) :=
        fun _ => (adapt_at stored.self _ _).bind fun _ => .pure _
      dsimp only
      split
      · split
        · exact .pure _
        · exact adapted ()
      · exact adapted ()
  | .assign (.var ..) _ _, h | .assign (.call ..) _ _, h | .assign (.cast ..) _ _, h => by
      simp only [inferStmt]
      exact .reject (h.first rfl).self
  | .eval expr, h => by
      have value := h.first rfl
      rw [inferStmt]
      refine (inferExpr_at scope expr value).bind fun result => ?_
      have kept : ∀ u : PUnit, Check.At S (do
          unless result.isCall do
            Checked.report .unusedResult (some expr.span)
          return (Stmt.eval result, scope)) := by
        intro _
        dsimp only
        split
        · exact .pure _
        · exact .bind (.report value.self) fun _ => .pure _
      dsimp only
      split
      · exact .bind (.reject value.self) kept
      · exact kept ()
  | .ret _, _ => by
      rw [inferStmt]
      exact .pure _

theorem inferBody_at {stmts : List Source.Stmt} (h : ∀ stmt ∈ stmts, OnSpans S (.stmt stmt))
    (scope : Scope) : Check.At S (OptionT.lift (inferBody env scope stmts)) := by
  intro s hs
  rw [Check.exec_lift]
  induction stmts generalizing scope s with
  | nil => exact hs
  | cons stmt stmts ih =>
      obtain ⟨first, others⟩ := List.forall_mem_cons.mp h
      have found : ReportsAt S ((inferStmt env scope stmt).exec s).2.reports :=
        inferStmt_at scope stmt first s hs
      rw [run_inferBody_cons]
      rcases hr : (inferStmt env scope stmt).exec s with ⟨_ | ⟨checked, scope'⟩, t⟩ <;>
        rw [hr] at found
      · exact ih others scope t found
      · cases checked with
        | ret =>
            cases stmts with
            | nil => exact found
            | cons next stmts =>
                have unreached := others next List.mem_cons_self
                exact reportsAt_add found unreached.self
        | bind | store | storeCall | eval => exact ih others scope' t found

/-! ## Items -/

theorem fieldTy_at {field : Source.Typed} (h : OnSpans S (.ty field.ty)) :
    Check.At S (do
      let ty ← tyOf env field.ty
      match env.storage? ty with
      | some (size, align) => return (ty, size, align)
      | none => reject .voidField field.ty.span) := by
  refine (tyOf_at field.ty h).bind fun ty => ?_
  split
  · exact .pure _
  · exact .reject h.self

theorem inferField_at {field : Source.Typed} (h : OnSpans S (.typed field)) (placed : Placement) :
    (inferField env placed field).At S := by
  have named := h.first rfl
  have written := h.second rfl
  unfold inferField
  dsimp only
  split
  · exact .bind (.reject named.self) fun _ => fieldTy_at written
  · exact fieldTy_at written

theorem placeFields_at {fields : List Source.Typed} (h : ∀ field ∈ fields, OnSpans S (.typed field))
    (placed : Placement) : Check.At S (OptionT.lift (placeFields env placed fields)) := by
  intro s hs
  rw [Check.exec_lift]
  induction fields generalizing placed s with
  | nil => exact hs
  | cons field fields ih =>
      obtain ⟨first, others⟩ := List.forall_mem_cons.mp h
      have found : ReportsAt S ((inferField env placed field).exec s).2.reports :=
        inferField_at first placed s hs
      rw [run_placeFields_cons]
      rcases hr : (inferField env placed field).exec s with ⟨_ | ⟨ty, size, align⟩, t⟩ <;>
        rw [hr] at found
      · exact ih others placed t found
      · dsimp only
        cases placed.add? field.name.name ty size align with
        | some placed => exact ih others placed t found
        | none => exact found

theorem declareItem_at {item : Source.Item} (h : OnSpans S (.item item)) :
    (declareItem env item).At S := by
  intro s hs
  cases item with
  | opaqueItem decl =>
      have named := h.first rfl
      rw [declareItem, exec_declareOpaque]
      split
      · exact reportsAt_add hs named.self
      · split
        · exact hs
        · exact reportsAt_add hs h.self
  | structItem decl =>
      have named := h.first rfl
      have fields : ∀ field ∈ decl.fields, OnSpans S (.typed field) := by
        intro field hfield
        exact h.child (List.mem_cons_of_mem _ (List.mem_map_of_mem hfield))
      have placing : Check.At S (OptionT.lift (placeFields env .empty decl.fields)) :=
        placeFields_at fields .empty
      have found := placing s hs
      rw [Check.exec_lift] at found
      rw [declareItem, exec_declareStruct]
      split
      · exact reportsAt_add hs named.self
      · dsimp only
        split
        · exact found
        · exact reportsAt_add found named.self
  | functionItem decl => exact hs

theorem declareAll_at {items : List Source.Item} (h : ∀ item ∈ items, OnSpans S (.item item)) :
    Check.At S (OptionT.lift (declareAll env items)) := by
  intro s hs
  rw [Check.exec_lift]
  induction items generalizing s with
  | nil => exact hs
  | cons item items ih =>
      obtain ⟨first, others⟩ := List.forall_mem_cons.mp h
      rw [run_declareAll_cons]
      exact ih others _ (declareItem_at first s hs)

theorem inferFunction_at {decl : Source.FunctionDecl} (h : OnSpans S (.item (.functionItem decl))) :
    (inferFunction env decl).At S := by
  have named := h.first rfl
  have stmts : ∀ stmt ∈ decl.body, OnSpans S (.stmt stmt) := by
    intro stmt hstmt
    refine h.child (List.mem_cons_of_mem _ (List.mem_append_right _ ?_))
    exact List.mem_map_of_mem hstmt
  have body (param : String × Ty) : Check.At S (do
      let body ← inferBody env ⟨param, []⟩ decl.body
      return Function.mk decl.name.name body) :=
    .bind (inferBody_at stmts _) fun _ => .pure _
  unfold inferFunction
  split
  next param only =>
    have typed : OnSpans S (.typed param) := by
      refine h.child (List.mem_cons_of_mem _ (List.mem_append_left _ ?_))
      rw [only]
      exact List.mem_cons_self
    have written := typed.second rfl
    refine (tyOf_at param.ty written).bind fun ty => ?_
    dsimp only
    split
    · exact body _
    · exact .bind (.reject written.self) fun _ => body _
  next => exact .reject named.self

theorem inferWrapper_at {unit : Source.SourceUnit}
    (h : ∀ item ∈ unit.items, OnSpans S (.item item)) : (inferWrapper env unit).At S := by
  have functions : ∀ decl ∈ unit.functions, OnSpans S (.item (.functionItem decl)) := by
    intro decl hdecl
    obtain ⟨item, hitem, is⟩ := List.mem_filterMap.mp hdecl
    cases item <;> cases is
    exact h _ hitem
  unfold inferWrapper
  split
  next decl only => exact inferFunction_at (functions decl (only ▸ List.mem_cons_self))
  next =>
    intro s hs
    exact reportsAt_append hs nofun
  next first second others all =>
    have decl := functions second (all ▸ List.mem_cons_of_mem _ List.mem_cons_self)
    exact .reject (decl.first rfl).self

/-- Whatever checking a unit reports is at a node of the unit. -/
theorem check_at (env : Env) (unit : Source.SourceUnit) :
    ReportsAt (fun span => ∃ node, unit.Has node ∧ node.span = span) (check env unit).2 := by
  have items : ∀ item ∈ unit.items,
      OnSpans (fun span => ∃ node, unit.Has node ∧ node.span = span) (.item item) :=
    fun item hitem node has => ⟨node, ⟨item, hitem, has⟩, rfl⟩
  have declares := @declareAll_at env _ _ items ⟨[], []⟩ nofun
  have final := @inferWrapper_at env _ _ items _ declares
  rw [check_eq]
  dsimp only
  split
  · exact final
  · exact final

end CallThunk.Checked

namespace CallThunk.Source

open Checked (Env)

/-- The spans of a parsed unit nest: each node stands on text of the source that is not empty and
contains its children, which stand one behind the other as the items of the unit do; an identifier
stands on its name. So every report of a checker that has a span is on text of the source. -/
theorem SourceUnit.spans_nest {source : String} {unit : SourceUnit} {reports : Diagnostics}
    (parsed : SourceUnit.parse source = (some unit, reports)) :
    (∀ node, unit.Has node →
      (∃ text, text ≠ "" ∧ node.span.Covers source text) ∧
      (∀ child ∈ node.children, node.span.Contains child.span) ∧
      node.children.Pairwise fun a b => a.span.Before b.span) ∧
    (∀ name, unit.Has (.ident name) → name.span.Covers source name.name) ∧
    ((unit.items.map Node.item).Pairwise fun a b => a.span.Before b.span) ∧
    ∀ env : Env, ∀ report ∈ (Checked.check env unit).2, ∀ span ∈ report.span,
      ∃ text, text ≠ "" ∧ span.Covers source text := by
  have row := row_items parsed
  have placed : ∀ node, unit.Has node → node.Placed source := by
    rintro node ⟨item, hitem, has⟩
    exact has.placed (row.placed_of_mem (List.mem_map_of_mem hitem)).1
  have covers : ∀ node, unit.Has node → ∃ text, text ≠ "" ∧ node.span.Covers source text := by
    intro node has
    obtain ⟨start, stop, pos, _, _⟩ := placed node has
    exact exists_covers start stop pos
  refine ⟨?_, ?_, row.pairwise, ?_⟩
  · intro node has
    obtain ⟨_, _, _, _, inside⟩ := placed node has
    exact ⟨covers node has, fun child next => (inside.placed_of_mem next).2, inside.pairwise⟩
  · intro name has
    obtain ⟨_, _, _, named, _⟩ := placed (.ident name) has
    exact named
  · intro env report hreport span hspan
    obtain ⟨node, has, rfl⟩ := Checked.check_at env unit report hreport span hspan
    exact covers node has

/-- A selection behind parentheses, and the wrapper around it. -/
def selection : Expr := .field (.var ⟨"p", ⟨14, 15⟩⟩ ⟨14, 15⟩) ⟨"x", ⟨17, 18⟩⟩ ⟨14, 18⟩

def selecting : SourceUnit :=
  ⟨[.functionItem ⟨⟨"w", ⟨3, 4⟩⟩, [⟨⟨"p", ⟨5, 6⟩⟩, .named ⟨"ptr", ⟨8, 11⟩⟩⟩], [.eval selection],
    ⟨0, 20⟩⟩]⟩

theorem parse_selecting :
    SourceUnit.parse "fn w(p: ptr)\x7b(p).x;\x7d" = (some selecting, []) := by
  have clean : (cut 0 0 "fn w(p: ptr)\x7b(p).x;\x7d".toList).errors = [] := by decide
  have tokens : (cut 0 0 "fn w(p: ptr)\x7b(p).x;\x7d".toList).tokens =
      [⟨.kwFn, ⟨0, 2⟩, "fn"⟩, ⟨.ident, ⟨3, 4⟩, "w"⟩, ⟨.lParen, ⟨4, 5⟩, "("⟩, ⟨.ident, ⟨5, 6⟩, "p"⟩,
        ⟨.colon, ⟨6, 7⟩, ":"⟩, ⟨.ident, ⟨8, 11⟩, "ptr"⟩, ⟨.rParen, ⟨11, 12⟩, ")"⟩,
        ⟨.lBrace, ⟨12, 13⟩, "\x7b"⟩, ⟨.lParen, ⟨13, 14⟩, "("⟩, ⟨.ident, ⟨14, 15⟩, "p"⟩,
        ⟨.rParen, ⟨15, 16⟩, ")"⟩, ⟨.dot, ⟨16, 17⟩, "."⟩, ⟨.ident, ⟨17, 18⟩, "x"⟩,
        ⟨.semi, ⟨18, 19⟩, ";"⟩, ⟨.rBrace, ⟨19, 20⟩, "\x7d"⟩] := by decide
  unfold SourceUnit.parse
  dsimp only
  rw [clean, tokens]
  rfl

theorem SourceUnit.spans_nest_selecting :
    SourceUnit.parse "fn w(p: ptr)\x7b(p).x;\x7d" = (some selecting, []) ∧
      selecting.Has (.expr selection) ∧
      (∃ text, text ≠ "" ∧ Span.Covers ⟨14, 18⟩ "fn w(p: ptr)\x7b(p).x;\x7d" text) ∧
      (Checked.check ⟨8, fun _ => none⟩ selecting).2.map (·.span) = [some ⟨17, 18⟩] ∧
      ∃ text, text ≠ "" ∧ Span.Covers ⟨17, 18⟩ "fn w(p: ptr)\x7b(p).x;\x7d" text := by
  have has : selecting.Has (.expr selection) := by
    have inside : Node.Has (.stmt (.eval selection)) (.expr selection) :=
      .child .self List.mem_cons_self
    refine ⟨_, List.mem_cons_self, inside.through ?_⟩
    exact List.mem_cons_of_mem _ (List.mem_cons_of_mem _ List.mem_cons_self)
  have reported : (Checked.check ⟨8, fun _ => none⟩ selecting).2.map (·.span) =
      [some ⟨17, 18⟩] := by
    decide +kernel
  obtain ⟨nodes, -, -, found⟩ := SourceUnit.spans_nest parse_selecting
  have member : some ⟨17, 18⟩ ∈ (Checked.check ⟨8, fun _ => none⟩ selecting).2.map (·.span) :=
    reported ▸ List.mem_cons_self
  obtain ⟨report, hreport, at_name⟩ := List.mem_map.mp member
  exact ⟨parse_selecting, has, (nodes _ has).1, reported, found _ report hreport _ at_name⟩

end CallThunk.Source
