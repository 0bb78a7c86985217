import CallThunk.Checked.Check
import Mathlib.Logic.Relation

/-!
# Runs of a check

What a check does to the state, said once for all checks behind the declarations: it reports
problems, and it adopts aggregates that the type system knows. A check without a result has
reported an error. Everything that checking preserves follows from these two facts.
-/

namespace CallThunk.Checked

variable {α β : Type} {env : Env}

/-! ## Results of a run -/

/-- Runs a check: its result, if it has one, and the state behind it. -/
def Check.exec (x : Check α) (s : State) : Option α × State := x.run.run s

/-- A run that has a result. -/
def Check.Gives (x : Check α) (s : State) (a : α) (s' : State) : Prop :=
  x.exec s = (some a, s')

/-- The state with one more report. -/
def State.add (s : State) (p : Problem) (span : Option Source.Span) : State :=
  { s with reports := s.reports ++ [p.diagnostic span] }

@[simp] theorem State.records_add (s : State) (p : Problem) (span : Option Source.Span) :
    (s.add p span).records = s.records := rfl

@[simp] theorem State.reports_add (s : State) (p : Problem) (span : Option Source.Span) :
    (s.add p span).reports = s.reports ++ [p.diagnostic span] := rfl

theorem run_stateBind (x : StateM State α) (f : α → StateM State β) (s : State) :
    ((x >>= f).run s : β × State) = (f (x.run s : α × State).1).run (x.run s : α × State).2 := rfl

namespace Check

theorem run_run (x : Check α) (s : State) : (x.run.run s : Option α × State) = x.exec s := rfl

theorem exec_bind (x : Check α) (f : α → Check β) (s : State) :
    (x >>= f).exec s =
      match x.exec s with
      | (some a, s') => (f a).exec s'
      | (none, s') => (none, s') := by
  unfold exec
  rw [OptionT.run_bind]
  show (match x.run.run s with
    | (a, s') => (Option.elim a (pure none) fun a => (f a).run).run s') = _
  rcases x.run.run s with ⟨_ | a, s'⟩ <;> rfl

theorem exec_liftM_bind (x : StateM State α) (f : α → Check β) (s : State) :
    Check.exec (liftM x >>= f) s =
      (f (x.run s : α × State).1).exec (x.run s : α × State).2 := rfl

@[simp] theorem exec_pure (a : α) (s : State) : (pure a : Check α).exec s = (some a, s) := rfl

@[simp] theorem exec_reject (p : Problem) (span : Source.Span) (s : State) :
    (reject p span : Check α).exec s = (none, s.add p (some span)) := rfl

@[simp] theorem exec_report (p : Problem) (span : Option Source.Span) (s : State) :
    Check.exec (report p span) s = (some (), s.add p span) := rfl

@[simp] theorem exec_get (s : State) : (get : Check State).exec s = (some s, s) := rfl

@[simp] theorem exec_set (s t : State) : (set t : Check PUnit).exec s = (some (), t) := rfl

@[simp] theorem exec_failure (s : State) : (failure : Check α).exec s = (none, s) := rfl

@[simp] theorem exec_lift (x : StateM State α) (s : State) :
    Check.exec (OptionT.lift x) s = (some (x.run s).1, (x.run s).2) := rfl

@[simp] theorem exec_mk (x : StateM State (Option α)) (s : State) :
    Check.exec (OptionT.mk x) s = x.run s := rfl

@[simp] theorem gives_pure {s s' : State} {a b : α} :
    Check.Gives (pure a) s b s' ↔ b = a ∧ s' = s := by
  simp [Gives, eq_comm]

@[simp] theorem gives_bind {x : Check α} {f : α → Check β} {s s' : State} {b : β} :
    Check.Gives (x >>= f) s b s' ↔ ∃ a t, x.Gives s a t ∧ (f a).Gives t b s' := by
  unfold Gives
  rw [exec_bind]
  rcases x.exec s with ⟨_ | a, t⟩
  · simp
  · simp only [Prod.mk.injEq, Option.some.injEq]
    constructor
    · exact fun h => ⟨a, t, ⟨rfl, rfl⟩, h⟩
    · rintro ⟨_, _, ⟨rfl, rfl⟩, h⟩
      exact h

@[simp] theorem not_gives_reject {p : Problem} {span : Source.Span} {s s' : State} {a : α} :
    ¬ Check.Gives (reject p span) s a s' := by
  simp [Gives]

theorem not_gives_reject_bind {p : Problem} {span : Source.Span} {s s' : State} {f : α → Check β}
    {b : β} : ¬ ((reject p span : Check α) >>= f).Gives s b s' := by
  intro h
  obtain ⟨_, _, rejected, -⟩ := gives_bind.mp h
  exact not_gives_reject rejected

@[simp] theorem not_gives_failure {s s' : State} {a : α} :
    ¬ Check.Gives (failure : Check α) s a s' := by
  simp [Gives]

@[simp] theorem gives_report {p : Problem} {span : Option Source.Span} {s s' : State}
    {u : PUnit} : Check.Gives (report p span) s u s' ↔ s' = s.add p span := by
  simp [Gives, eq_comm]

@[simp] theorem gives_get {s s' t : State} : Check.Gives get s t s' ↔ t = s ∧ s' = s := by
  simp [Gives, eq_comm]

@[simp] theorem gives_set {s s' t : State} {u : PUnit} :
    Check.Gives (set t) s u s' ↔ s' = t := by
  simp [Gives, eq_comm]

@[simp] theorem gives_lift {x : StateM State α} {s s' : State} {a : α} :
    Check.Gives (OptionT.lift x) s a s' ↔ (x.run s : α × State) = (a, s') := by
  simp only [Gives, exec_lift, Prod.mk.injEq, Option.some.injEq]
  exact (@Prod.ext_iff α State (x.run s) (a, s')).symm

@[simp] theorem gives_liftM {x : StateM State α} {s s' : State} {a : α} :
    Check.Gives (liftM x) s a s' ↔ (x.run s : α × State) = (a, s') := gives_lift

@[simp] theorem gives_mk {x : StateM State (Option α)} {s s' : State} {a : α} :
    Check.Gives (OptionT.mk x) s a s' ↔ (x.run s : Option α × State) = (some a, s') := Iff.rfl

end Check

/-! ## What a check does -/

/-- One effect of a check behind the declarations. -/
inductive Step (env : Env) : State → State → Prop where
  | report (s : State) (p : Problem) (span : Option Source.Span) : Step env s (s.add p span)
  /-- An aggregate that the type system knows becomes a record. -/
  | adopt (s : State) {name : String} {size align : UInt32}
      (undeclared : s.records.find? name = none)
      (known : env.external? name = some (size, align)) :
      Step env s { s with records := s.records.insert ⟨name, size, align, []⟩ }

/-- The effects of a check, one after the other. -/
abbrev Steps (env : Env) : State → State → Prop := Relation.ReflTransGen (Step env)

theorem errorCount_append (ds ds' : Diagnostics) :
    Diagnostics.errorCount (ds ++ ds') = ds.errorCount + ds'.errorCount := by
  simp [Diagnostics.errorCount, Diagnostics.count]

theorem State.errorCount_lt_add (s : State) {p : Problem} (hp : p.severity = .error)
    (span : Option Source.Span) :
    s.reports.errorCount < (s.add p span).reports.errorCount := by
  rw [State.reports_add, errorCount_append]
  simp [Diagnostics.errorCount, Diagnostics.count, Problem.diagnostic, hp]

theorem Step.errorCount_le {s s' : State} (h : Step env s s') :
    s.reports.errorCount ≤ s'.reports.errorCount := by
  cases h with
  | report p span =>
      rw [State.reports_add, errorCount_append]
      omega
  | adopt => exact Nat.le_refl _

theorem Steps.errorCount_le {s s' : State} (h : Steps env s s') :
    s.reports.errorCount ≤ s'.reports.errorCount := by
  induction h with
  | refl => exact Nat.le_refl _
  | tail _ step ih => exact Nat.le_trans ih step.errorCount_le

/-- A check that only has the effects above, and that has reported an error when it fails. -/
structure Check.Lawful (env : Env) (x : Check α) : Prop where
  steps : ∀ s, Steps env s (x.exec s).2
  loud : ∀ s, (x.exec s).1 = none →
    s.reports.errorCount < (x.exec s).2.reports.errorCount

namespace Check.Lawful

theorem steps_of_gives {x : Check α} (hx : x.Lawful env) {s s' : State} {a : α}
    (h : x.Gives s a s') : Steps env s s' := by
  have run := hx.steps s
  rwa [show x.exec s = (some a, s') from h] at run

theorem pure (a : α) : (Pure.pure a : Check α).Lawful env where
  steps _ := .refl
  loud s h := by simp at h

theorem bind {x : Check α} {f : α → Check β} (hx : x.Lawful env)
    (hf : ∀ a, (f a).Lawful env) : (x >>= f).Lawful env where
  steps s := by
    have first := hx.steps s
    rw [exec_bind]
    rcases hr : x.exec s with ⟨_ | a, t⟩ <;> rw [hr] at first
    · exact first
    · exact first.trans ((hf a).steps t)
  loud s h := by
    have first := hx.steps s
    have failed := hx.loud s
    rw [exec_bind] at h ⊢
    rcases hr : x.exec s with ⟨_ | a, t⟩ <;> rw [hr] at first failed h
    · exact failed rfl
    · exact Nat.lt_of_le_of_lt (Steps.errorCount_le first) ((hf a).loud t h)

theorem reject {p : Problem} (hp : p.severity = .error) (span : Source.Span) :
    (Checked.reject p span : Check α).Lawful env where
  steps s := .single (.report s p (some span))
  loud s _ := s.errorCount_lt_add hp (some span)

theorem report (p : Problem) (span : Option Source.Span) :
    Check.Lawful env (Checked.report p span : Check PUnit) where
  steps s := .single (.report s p span)
  loud s h := by simp at h

theorem get : (MonadState.get : Check State).Lawful env where
  steps _ := .refl
  loud s h := by simp at h

end Check.Lawful

/-! ## Types -/

theorem exec_namedTy (env : Env) (ident : Source.Ident) (s : State) :
    (namedTy env ident).exec s =
      match Ty.builtin? ident.name with
      | some ty => (some ty, s)
      | none =>
        match s.records.find? ident.name with
        | some record => (some (.record record.recordTy), s)
        | none =>
          match env.external? ident.name with
          | some (size, align) =>
            (some (.record ⟨ident.name, size, align⟩),
              { s with records := s.records.insert ⟨ident.name, size, align, []⟩ })
          | none => (none, s.add (.unknownType ident.name) (some ident.span)) := by
  unfold namedTy
  cases Ty.builtin? ident.name with
  | some ty => rfl
  | none =>
      simp only [Check.exec_bind, Check.exec_get]
      cases s.records.find? ident.name with
      | some record => rfl
      | none =>
          cases env.external? ident.name with
          | some known => rfl
          | none => rfl

theorem lawful_namedTy (ident : Source.Ident) : (namedTy env ident).Lawful env where
  steps s := by
    rw [exec_namedTy]
    cases Ty.builtin? ident.name with
    | some ty => exact .refl
    | none =>
        cases undeclared : s.records.find? ident.name with
        | some record => exact .refl
        | none =>
            cases known : env.external? ident.name with
            | some decl => exact .single (.adopt s undeclared known)
            | none => exact .single (.report s _ _)
  loud s := by
    rw [exec_namedTy]
    cases Ty.builtin? ident.name with
    | some ty => simp
    | none =>
        cases s.records.find? ident.name with
        | some record => simp
        | none =>
            cases env.external? ident.name with
            | some decl => simp
            | none => exact fun _ =>
                (@Check.Lawful.reject Ty env _ rfl ident.span).loud s rfl

theorem lawful_admitParam (ty : Ty) (span : Source.Span) : (admitParam ty span).Lawful env := by
  unfold admitParam
  split
  · exact .reject rfl span
  · exact .reject rfl span
  · exact .pure _

/-- A check of a list: it goes on behind an element that fails, but then it fails as a whole. -/
def Check.cons (x : Check α) (xs : Check (List α)) : Check (List α) := OptionT.mk do
  let a ← x.run
  let as ← xs.run
  match a, as with
  | some a, some as => return some (a :: as)
  | _, _ => return none

theorem Check.exec_cons (x : Check α) (xs : Check (List α)) (s : State) :
    (x.cons xs).exec s =
      ((x.exec s).1.bind fun a => (xs.exec (x.exec s).2).1.map (a :: ·),
        (xs.exec (x.exec s).2).2) := by
  show StateT.run (m := Id)
      (match (x.exec s).1, (xs.exec (x.exec s).2).1 with
        | some a, some as => (Pure.pure (some (a :: as)) : StateM State _)
        | _, _ => Pure.pure none) (xs.exec (x.exec s).2).2 = _
  cases (x.exec s).1 with
  | none => rfl
  | some a => cases (xs.exec (x.exec s).2).1 <;> rfl

theorem Check.gives_cons {x : Check α} {xs : Check (List α)} {s s' : State} {bs : List α} :
    (x.cons xs).Gives s bs s' ↔
      ∃ a t as, x.Gives s a t ∧ xs.Gives t as s' ∧ bs = a :: as := by
  unfold Gives
  rw [exec_cons]
  constructor
  · intro h
    obtain ⟨result, rfl⟩ := Prod.mk.injEq .. ▸ h
    obtain ⟨a, ha, rest⟩ := Option.bind_eq_some_iff.mp result
    obtain ⟨as, has, rfl⟩ := Option.map_eq_some_iff.mp rest
    exact ⟨a, _, as, Prod.ext ha rfl, Prod.ext has rfl, rfl⟩
  · rintro ⟨a, t, as, ha, has, rfl⟩
    rw [ha, has]
    rfl

theorem Check.Lawful.cons {x : Check α} {xs : Check (List α)} (hx : x.Lawful env)
    (hxs : xs.Lawful env) : (x.cons xs).Lawful env where
  steps s := by
    rw [exec_cons]
    exact (hx.steps s).trans (hxs.steps _)
  loud s h := by
    rw [exec_cons] at h ⊢
    have first := (hx.steps s).errorCount_le
    have second := (hxs.steps (x.exec s).2).errorCount_le
    cases ha : (x.exec s).1 with
    | none => exact Nat.lt_of_lt_of_le (hx.loud s ha) second
    | some a =>
        rw [ha] at h
        exact Nat.lt_of_le_of_lt first (hxs.loud _ (Option.map_eq_none_iff.mp h))

theorem paramTys_cons (p : Source.TyExpr) (ps : List Source.TyExpr) :
    (OptionT.mk (paramTys env (p :: ps)) : Check _) =
      Check.cons (tyOf env p >>= fun ty => admitParam ty p.span) (.mk (paramTys env ps)) := by
  rw [paramTys, Check.cons]
  congr 2
  funext ty
  congr 1
  funext tys
  cases ty <;> cases tys <;> rfl

theorem exec_tyOf_function (params : List Source.TyExpr) (variadic : Bool)
    (ret : Option Source.TyExpr) (span : Source.Span) (s : State) :
    (tyOf env (.function params variadic ret span)).exec s =
      let tys := Check.exec (.mk (paramTys env params)) s
      let result := (resultTy env ret).exec tys.2
      (result.1.bind fun ret => tys.1.map fun tys => .function ret tys variadic, result.2) := by
  rw [tyOf]
  simp only [Check.exec_bind, Check.exec_lift, Check.exec_mk]
  rcases (resultTy env ret).exec _ with ⟨_ | result, t⟩
  · rfl
  · cases ((paramTys env params).run s).1 <;> rfl

mutual
theorem lawful_tyOf : (ty : Source.TyExpr) → (tyOf env ty).Lawful env
  | .named ident => by
      rw [tyOf]
      exact lawful_namedTy ident
  | .pointer pointee _ => by
      rw [tyOf]
      exact (lawful_tyOf pointee).bind fun _ => .pure _
  | .function params variadic ret span => by
      have first := lawful_paramTys params
      have second := lawful_resultTy ret
      constructor
      · intro s
        rw [exec_tyOf_function]
        exact (first.steps s).trans (second.steps _)
      · intro s h
        rw [exec_tyOf_function] at h ⊢
        have before := (first.steps s).errorCount_le
        have behind := (second.steps (Check.exec (.mk (paramTys env params)) s).2).errorCount_le
        cases hr : ((resultTy env ret).exec (Check.exec (.mk (paramTys env params)) s).2).1 with
        | none => exact Nat.lt_of_le_of_lt before (second.loud _ hr)
        | some result =>
            simp only [hr, Option.bind_some, Option.map_eq_none_iff] at h
            exact Nat.lt_of_lt_of_le (first.loud s h) behind
theorem lawful_paramTys : (tys : List Source.TyExpr) →
    Check.Lawful env (.mk (paramTys env tys))
  | [] => .pure []
  | ty :: tys => by
      rw [paramTys_cons]
      exact ((lawful_tyOf ty).bind fun _ => lawful_admitParam _ _).cons (lawful_paramTys tys)
theorem lawful_resultTy : (ret : Option Source.TyExpr) → (resultTy env ret).Lawful env
  | some ret => by
      rw [resultTy]
      exact lawful_tyOf ret
  | none => .pure _
end

/-! ## Expressions -/

theorem lawful_selectField (base : Ty) (field : Source.Ident) :
    (selectField base field).Lawful env := by
  unfold selectField
  split
  · refine .bind .get fun s => ?_
    split
    · exact .pure _
    · exact .reject rfl _
  · exact .reject rfl _

theorem lawful_adapt (value : Expr) (target : Ty) (span : Source.Span) :
    (adapt value target span).Lawful env := by
  unfold adapt
  split
  · exact .pure _
  · exact .bind (.report _ _) fun _ => .pure _
  · exact .reject rfl _

theorem lawful_calleeSignature (callee : Expr) (span : Source.Span) :
    (calleeSignature callee span).Lawful env := by
  unfold calleeSignature
  split
  · exact .pure _
  · exact .reject rfl _

theorem inferArgs_cons (scope : Scope) (params : List Ty) (arg : Source.Expr)
    (args : List Source.Expr) :
    (OptionT.mk (inferArgs env scope params (arg :: args)) : Check _) =
      Check.cons (inferExpr env scope arg >>= fun value =>
        match params.head? with
        | some param => adapt value param arg.span
        | none => pure value) (.mk (inferArgs env scope params.tail args)) := by
  rw [inferArgs, Check.cons]
  congr 2
  funext value
  congr 1
  funext values
  cases value <;> cases values <;> rfl

mutual
theorem lawful_inferExpr (scope : Scope) : (e : Source.Expr) → (inferExpr env scope e).Lawful env
  | .var ident _ => by
      rw [inferExpr]
      split
      · exact .pure _
      · exact .reject rfl _
  | .cast inner ty _ => by
      rw [inferExpr]
      refine (lawful_inferExpr scope inner).bind fun value => (lawful_tyOf ty).bind fun target => ?_
      split
      · exact .pure _
      · exact .reject rfl _
  | .field base field _ => by
      rw [inferExpr]
      refine (lawful_inferExpr scope base).bind fun base =>
        (lawful_selectField base.ty field).bind fun ⟨ty, offset⟩ => ?_
      dsimp only
      split
      · exact .bind (.reject rfl _) fun _ => .pure _
      · exact .pure _
  | .call callee args _ => by
      rw [inferExpr]
      refine (lawful_inferExpr scope callee).bind fun target =>
        (lawful_calleeSignature target callee.span).bind fun signature => ?_
      have checked : ∀ u : PUnit, Check.Lawful env (do
          let args ← OptionT.mk (inferArgs env scope signature.params args)
          return Expr.call target signature args) :=
        fun _ => (lawful_inferArgs scope signature.params args).bind fun _ => .pure _
      dsimp only
      split <;> split
      · exact checked ()
      · exact .bind (.reject rfl _) checked
      · exact checked ()
      · exact .bind (.reject rfl _) checked
theorem lawful_inferArgs (scope : Scope) : (params : List Ty) → (args : List Source.Expr) →
    Check.Lawful env (.mk (inferArgs env scope params args))
  | _, [] => .pure []
  | params, arg :: args => by
      rw [inferArgs_cons]
      refine .cons ((lawful_inferExpr scope arg).bind fun value => ?_)
        (lawful_inferArgs scope params.tail args)
      split
      · exact lawful_adapt _ _ _
      · exact .pure _
end

/-! ## Statements -/

theorem lawful_inferStmt (scope : Scope) : (stmt : Source.Stmt) →
    (inferStmt env scope stmt).Lawful env
  | .bind name init _ => by
      rw [inferStmt]
      refine (lawful_inferExpr scope init).bind fun init => ?_
      have bound : ∀ u : PUnit, Check.Lawful env (do
          if init.ty.isVoid then
            reject (.voidLocal name.name) name.span
          return (Stmt.bind scope.locals.length init,
            { scope with locals := (name.name, init.ty) :: scope.locals })) := by
        intro _
        split
        · exact .bind (.reject rfl _) fun _ => .pure _
        · exact .pure _
      dsimp only
      split
      · exact .bind (.reject rfl _) bound
      · exact bound ()
  | .assign (.field base field _) value _ => by
      rw [inferStmt]
      refine (lawful_inferExpr scope base).bind fun base =>
        (lawful_selectField base.ty field).bind fun ⟨ty, offset⟩ =>
        (lawful_inferExpr scope value).bind fun result => ?_
      have stored : ∀ u : PUnit, Check.Lawful env (do
          let result ← adapt result ty value.span
          return (Stmt.store base offset result, scope)) :=
        fun _ => (lawful_adapt _ _ _).bind fun _ => .pure _
      dsimp only
      split
      · split
        · exact .pure _
        · exact stored ()
      · exact stored ()
  | .assign (.var ..) _ _ | .assign (.call ..) _ _ | .assign (.cast ..) _ _ => by
      simp only [inferStmt]
      exact .reject rfl _
  | .eval expr => by
      rw [inferStmt]
      refine (lawful_inferExpr scope expr).bind fun result => ?_
      have kept : ∀ u : PUnit, Check.Lawful env (do
          unless result.isCall do
            Checked.report .unusedResult (some expr.span)
          return (Stmt.eval result, scope)) := by
        intro _
        dsimp only
        split
        · exact .pure _
        · exact .bind (.report _ _) fun _ => .pure _
      dsimp only
      split
      · exact .bind (.reject rfl _) kept
      · exact kept ()
  | .ret _ => by
      rw [inferStmt]
      exact .pure _

theorem run_inferBody_cons (scope : Scope) (stmt : Source.Stmt) (stmts : List Source.Stmt)
    (s : State) :
    ((inferBody env scope (stmt :: stmts)).run s : List Stmt × State) =
      match (inferStmt env scope stmt).exec s with
      | (some (.ret, _), t) =>
        ([.ret], match stmts.head? with
          | some next => t.add .unreachable (some next.span)
          | none => t)
      | (some (checked, scope'), t) =>
        let rest : List Stmt × State := (inferBody env scope' stmts).run t
        (checked :: rest.1, rest.2)
      | (none, t) => (inferBody env scope stmts).run t := by
  rw [inferBody, run_stateBind, Check.run_run]
  rcases (inferStmt env scope stmt).exec s with ⟨_ | ⟨checked, scope'⟩, t⟩
  · rfl
  · cases checked with
    | ret => cases stmts <;> rfl
    | bind | store | storeCall | eval => rfl

theorem steps_inferBody (scope : Scope) (stmts : List Source.Stmt) (s : State) :
    Steps env s ((inferBody env scope stmts).run s : List Stmt × State).2 := by
  induction stmts generalizing scope s with
  | nil => exact .refl
  | cons stmt stmts ih =>
      have first := (@lawful_inferStmt env scope stmt).steps s
      rw [run_inferBody_cons]
      rcases hr : (inferStmt env scope stmt).exec s with ⟨_ | ⟨checked, scope'⟩, t⟩ <;>
        rw [hr] at first
      · exact first.trans (ih scope t)
      · cases checked with
        | ret =>
            cases stmts with
            | nil => exact first
            | cons next stmts => exact first.tail (.report t _ _)
        | bind | store | storeCall | eval => exact first.trans (ih scope' t)

/-- A total operation that only has the effects above, as a check. -/
theorem Check.Lawful.lift {x : StateM State α}
    (steps : ∀ s, Steps env s (x.run s : α × State).2) :
    Check.Lawful env (OptionT.lift x) where
  steps := steps
  loud s h := by simp at h

theorem lawful_inferFunction (decl : Source.FunctionDecl) :
    (inferFunction env decl).Lawful env := by
  unfold inferFunction
  split
  · refine (lawful_tyOf _).bind fun ty => ?_
    have body (param : String × Ty) : Check.Lawful env (do
        let body ← inferBody env ⟨param, []⟩ decl.body
        return Function.mk decl.name.name body) :=
      (Check.Lawful.lift (steps_inferBody _ decl.body)).bind fun _ => .pure _
    dsimp only
    split
    · exact body _
    · exact .bind (.reject rfl _) fun _ => body _
  · exact .reject rfl _

theorem lawful_inferWrapper (unit : Source.SourceUnit) : (inferWrapper env unit).Lawful env := by
  unfold inferWrapper
  split
  · exact lawful_inferFunction _
  · exact ⟨fun s => .single (.report s _ _), fun s _ => s.errorCount_lt_add rfl none⟩
  · exact .reject rfl _

end CallThunk.Checked
