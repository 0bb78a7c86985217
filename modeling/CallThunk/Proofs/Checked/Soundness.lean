import CallThunk.Proofs.Checked.Declarations
import CallThunk.Proofs.Checked.Typing
import CallThunk.Proofs.Record.Placement

/-!
# Checked bodies are typed

The types that checking meets are well formed, the fields of records are never `void`, and the
bodies that checking gives are typed, whatever the type system adds to the records on the way.
-/

namespace CallThunk

/-- Fields are never `void`, and their types are well formed. -/
def RecordTable.Proper (table : RecordTable) : Prop :=
  ∀ record ∈ table, ∀ field ∈ record.fields, field.ty ≠ .void ∧ field.ty.wellFormed

theorem RecordTable.Proper.insert {table : RecordTable} {record : PlacedRecord}
    (h : table.Proper) (hr : ∀ field ∈ record.fields, field.ty ≠ .void ∧ field.ty.wellFormed) :
    (table.insert record).Proper := by
  intro r hmem
  rcases mem_insert hmem with rfl | hold
  · exact hr
  · exact h r hold

namespace Checked

variable {env : Env} {scope : Scope} {s s' : State}

/-! ## Types -/

theorem wellFormed_of_namedTy {ident : Source.Ident} {ty : Ty}
    (h : (namedTy env ident).Gives s ty s') : ty.wellFormed := by
  unfold Check.Gives at h
  rw [exec_namedTy] at h
  split at h
  next builtin hb =>
    cases h
    exact Ty.wellFormed_of_builtin hb
  next =>
    split at h
    next => cases h; rfl
    next => split at h <;> cases h; rfl

theorem admitParam_gives {ty p : Ty} {span : Source.Span}
    (h : (admitParam ty span).Gives s p s') : p = ty ∧ ty.hasValues ∧ s' = s := by
  unfold admitParam at h
  split at h
  · simp at h
  · simp at h
  next hr hv =>
    obtain ⟨rfl, rfl⟩ := Check.gives_pure.mp h
    exact ⟨rfl, Ty.hasValues_of_ne hv hr, rfl⟩

mutual
theorem wellFormed_of_tyOf : {e : Source.TyExpr} → {ty : Ty} → {s s' : State} →
    (tyOf env e).Gives s ty s' → ty.wellFormed
  | .named ident, _, _, _, h => by
      rw [tyOf] at h
      exact wellFormed_of_namedTy h
  | .pointer pointee _, _, _, _, h => by
      rw [tyOf] at h
      simp only [Check.gives_bind, Check.gives_pure] at h
      obtain ⟨ty, _, hty, rfl, rfl⟩ := h
      rw [Ty.wellFormed]
      exact wellFormed_of_tyOf hty
  | .function params variadic ret span, _, s, s', h => by
      unfold Check.Gives at h
      rw [exec_tyOf_function] at h
      obtain ⟨result, rfl⟩ := Prod.mk.injEq .. ▸ h
      obtain ⟨r, hr, rest⟩ := Option.bind_eq_some_iff.mp result
      obtain ⟨tys, htys, rfl⟩ := Option.map_eq_some_iff.mp rest
      have first : Check.Gives (.mk (paramTys env params)) s tys _ := Prod.ext htys rfl
      have second : (resultTy env ret).Gives _ r _ := Prod.ext hr rfl
      simp [Ty.wellFormed, wellFormed_of_resultTy second, wellFormed_of_paramTys first]
theorem wellFormed_of_paramTys : {es : List Source.TyExpr} → {tys : List Ty} → {s s' : State} →
    Check.Gives (.mk (paramTys env es)) s tys s' → Ty.wellFormedParams tys
  | [], _, _, _, h => by
      obtain ⟨rfl, -⟩ := Check.gives_pure.mp h
      rfl
  | e :: es, _, _, _, h => by
      rw [paramTys_cons, Check.gives_cons] at h
      obtain ⟨p, t, tys, hp, htys, rfl⟩ := h
      obtain ⟨ty, u, hty, hadmit⟩ := Check.gives_bind.mp hp
      obtain ⟨rfl, values, -⟩ := admitParam_gives hadmit
      simp [Ty.wellFormedParams, values, wellFormed_of_tyOf hty, wellFormed_of_paramTys htys]
theorem wellFormed_of_resultTy : {ret : Option Source.TyExpr} → {ty : Ty} → {s s' : State} →
    (resultTy env ret).Gives s ty s' → ty.wellFormed
  | some ret, _, _, _, h => by
      rw [resultTy] at h
      exact wellFormed_of_tyOf h
  | none, _, _, _, h => by
      obtain ⟨rfl, -⟩ := Check.gives_pure.mp h
      rfl
end

/-! ## The state of a check -/

theorem Steps.extends (h : Steps env s s') : s'.records.Extends s.records := by
  induction h with
  | refl => exact RecordTable.Extends.refl _
  | tail _ step ih =>
      cases step with
      | report p span => exact ih
      | adopt undeclared known => exact (RecordTable.extends_insert undeclared).trans ih

theorem Steps.proper (h : Steps env s s') (hs : s.records.Proper) : s'.records.Proper := by
  induction h with
  | refl => exact hs
  | tail _ step ih =>
      cases step with
      | report p span => exact ih
      | adopt undeclared known => exact ih.insert (by simp)

/-! ## Scopes and conversions -/

namespace Scope

/-- The types of the locals, the oldest one first. -/
def localTys (scope : Scope) : List Ty := (scope.locals.map Prod.snd).reverse

/-- The types in scope are well formed, and locals have values. -/
structure Proper (scope : Scope) : Prop where
  param : scope.param.2.wellFormed
  locals : ∀ l ∈ scope.locals, l.2.hasValues ∧ l.2.wellFormed

/-- A name means its latest binding: none behind it has the name, and the ones before it number
it. -/
theorem local?_eq_some {name : String} {locals : List (String × Ty)} {index : Nat} {ty : Ty} :
    local? name locals = some (index, ty) ↔
      ∃ newer older, locals = newer ++ (name, ty) :: older ∧ (∀ l ∈ newer, l.1 ≠ name) ∧
        index = older.length := by
  induction locals with
  | nil => simp [local?]
  | cons l older ih =>
      obtain ⟨n, t⟩ := l
      rw [local?]
      split
      next same =>
        constructor
        · intro h
          cases h
          exact ⟨[], older, by rw [same]; rfl, by simp, rfl⟩
        · rintro ⟨newer, older', heq, fresh, rfl⟩
          cases newer with
          | nil =>
              cases heq
              rfl
          | cons l newer =>
              cases heq
              exact absurd same (fresh _ (List.mem_cons_self ..))
      next different =>
        rw [ih]
        constructor
        · rintro ⟨newer, older', rfl, fresh, hindex⟩
          refine ⟨(n, t) :: newer, older', rfl, ?_, hindex⟩
          rintro l (_ | ⟨_, hl⟩)
          · exact different
          · exact fresh l hl
        · rintro ⟨newer, older', heq, fresh, hindex⟩
          cases newer with
          | nil =>
              cases heq
              exact absurd rfl different
          | cons l newer =>
              cases heq
              exact ⟨newer, older', rfl, fun l hl => fresh l (List.mem_cons_of_mem _ hl), hindex⟩

end Scope

theorem typed_of_lookup {records : RecordTable} {name : String} {e : Expr} (hscope : scope.Proper)
    (h : scope.lookup? name = some e) :
    Typed records scope.param.2 scope.localTys e e.ty ∧ e.ty.wellFormed := by
  unfold Scope.lookup? at h
  split at h
  next index ty found =>
    cases h
    obtain ⟨newer, older, heq, -, rfl⟩ := Scope.local?_eq_some.mp found
    have bound : scope.localTys[older.length]? = some ty := by
      simp [Scope.localTys, heq]
    exact ⟨.localVar bound, (hscope.locals (name, ty) (by simp [heq])).2⟩
  next =>
    split at h <;> cases h
    exact ⟨.param, hscope.param⟩

theorem selectField_gives {base ty : Ty} {field : Source.Ident} {offset : UInt32}
    (h : (selectField base field).Gives s (ty, offset) s') :
    s' = s ∧ ∃ r record f, base = .pointer (.record r) ∧ s.records.find? r.name = some record ∧
      f ∈ record.fields ∧ f.ty = ty ∧ f.offset = offset := by
  unfold selectField at h
  split at h
  next r =>
    simp only [Check.gives_bind, Check.gives_get] at h
    obtain ⟨t, u, ⟨rfl, rfl⟩, h⟩ := h
    split at h
    next f hf =>
      obtain ⟨heq, rfl⟩ := Check.gives_pure.mp h
      obtain ⟨record, known, member⟩ := Option.bind_eq_some_iff.mp hf
      cases heq
      exact ⟨rfl, r, record, f, rfl, known, List.mem_of_find?_eq_some member, rfl, rfl⟩
    next => simp at h
  next => simp at h

theorem typed_of_adapt {records : RecordTable} {param target : Ty} {locals : List Ty}
    {value e : Expr} {span : Source.Span} (h : (adapt value target span).Gives s e s')
    (hvalue : Typed records param locals value value.ty) :
    Typed records param locals e target := by
  have casts (hc : value.ty.convertTo target ≠ .incompatible) (hne : value.ty ≠ target) :
      Typed records param locals (.convert target value) target :=
    .convert hvalue ((Ty.eq_or_castsTo hc).resolve_left hne)
  unfold adapt at h
  split at h
  next hc =>
    obtain ⟨rfl, -⟩ := Check.gives_pure.mp h
    split
    next heq => exact heq ▸ hvalue
    next hne => exact casts (by simp [hc]) hne
  next hc =>
    simp only [Check.gives_bind, Check.gives_pure] at h
    obtain ⟨-, -, -, rfl, -⟩ := h
    refine casts (by simp [hc]) fun heq => ?_
    simp [Ty.convertTo, heq] at hc
  next => simp at h

/-- A type other than `void` that a value becomes one of has values, unless it is a record that the
value has already. -/
theorem hasValues_of_adapt {target : Ty} {value e : Expr} {span : Source.Span}
    (h : (adapt value target span).Gives s e s') (notVoid : target ≠ .void)
    (different : ∀ r, value.ty = .record r → value.ty ≠ target) : target.hasValues := by
  have converts : value.ty.convertTo target ≠ .incompatible := by
    intro hc
    unfold adapt at h
    rw [hc] at h
    exact absurd h Check.not_gives_reject
  rcases Ty.eq_or_castsTo converts with heq | casts
  · cases target with
    | void => exact absurd rfl notVoid
    | record r => exact absurd heq (different r heq)
    | bool | int | float | pointer | function => rfl
  · exact Ty.hasValues_of_castsTo casts

theorem calleeSignature_gives {callee : Expr} {span : Source.Span} {signature : Signature}
    (h : (calleeSignature callee span).Gives s signature s') :
    callee.ty = signature.ty ∧ s' = s := by
  unfold calleeSignature at h
  split at h
  next hty =>
    obtain ⟨rfl, rfl⟩ := Check.gives_pure.mp h
    exact ⟨hty, rfl⟩
  next => simp at h

/-- Whether a number of arguments suits a number of declared parameters. -/
abbrev Suits (variadic : Bool) (params args : Nat) : Prop :=
  if variadic then params ≤ args else args = params

/-! ## What typing gives -/

/-- How an expression is typed, from what its parts are typed as. -/
inductive ExprGives (env : Env) (scope : Scope) : Source.Expr → State → Expr → State → Prop where
  | var {ident : Source.Ident} {span : Source.Span} {s : State} {e : Expr}
      (found : scope.lookup? ident.name = some e) : ExprGives env scope (.var ident span) s e s
  | cast {inner : Source.Expr} {ty : Source.TyExpr} {span : Source.Span} {s t s' : State}
      {value : Expr} {target : Ty} (value_gives : (inferExpr env scope inner).Gives s value t)
      (target_gives : (tyOf env ty).Gives t target s') (source_pointer : value.ty.isPointer)
      (target_pointer : target.isPointer) :
      ExprGives env scope (.cast inner ty span) s (.convert target value) s'
  | field {base : Source.Expr} {field : Source.Ident} {span : Source.Span} {s t s' : State}
      {address : Expr} {ty : Ty} {offset : UInt32}
      (base_gives : (inferExpr env scope base).Gives s address t)
      (field_gives : (selectField address.ty field).Gives t (ty, offset) s')
      (notRecord : ∀ r, ty ≠ .record r) :
      ExprGives env scope (.field base field span) s (.load ty address offset) s'
  | call {callee : Source.Expr} {args : List Source.Expr} {span : Source.Span} {s t u s' : State}
      {target : Expr} {signature : Signature} {values : List Expr}
      (target_gives : (inferExpr env scope callee).Gives s target t)
      (signature_gives : (calleeSignature target callee.span).Gives t signature u)
      (suits : Suits signature.variadic signature.params.length args.length)
      (args_give : Check.Gives (.mk (inferArgs env scope signature.params args)) u values s') :
      ExprGives env scope (.call callee args span) s (.call target signature values) s'

theorem exprGives_of_inferExpr {e : Source.Expr} {c : Expr}
    (h : (inferExpr env scope e).Gives s c s') : ExprGives env scope e s c s' := by
  cases e with
  | var ident span =>
      rw [inferExpr] at h
      split at h
      next found =>
        obtain ⟨rfl, rfl⟩ := Check.gives_pure.mp h
        exact .var found
      next => exact absurd h Check.not_gives_reject
  | cast inner ty span =>
      rw [inferExpr] at h
      simp only [Check.gives_bind] at h
      obtain ⟨value, t, value_gives, target, u, target_gives, h⟩ := h
      split at h
      next pointers =>
        obtain ⟨rfl, rfl⟩ := Check.gives_pure.mp h
        obtain ⟨source_pointer, target_pointer⟩ := Bool.and_eq_true_iff.mp pointers
        exact .cast value_gives target_gives source_pointer target_pointer
      next => exact absurd h Check.not_gives_reject
  | field base field span =>
      rw [inferExpr] at h
      simp only [Check.gives_bind] at h
      obtain ⟨address, t, base_gives, ⟨ty, offset⟩, u, field_gives, h⟩ := h
      dsimp only at h
      split at h
      next => exact absurd h Check.not_gives_reject_bind
      next notRecord =>
        obtain ⟨rfl, rfl⟩ := Check.gives_pure.mp h
        exact .field base_gives field_gives notRecord
  | call callee args span =>
      rw [inferExpr] at h
      simp only [Check.gives_bind] at h
      obtain ⟨target, t, target_gives, signature, u, signature_gives, h⟩ := h
      by_cases suits : Suits signature.variadic signature.params.length args.length
      · rw [if_pos suits] at h
        simp only [Check.gives_bind, Check.gives_pure] at h
        obtain ⟨values, v, args_give, rfl, rfl⟩ := h
        exact .call target_gives signature_gives suits args_give
      · rw [if_neg suits] at h
        exact absurd h Check.not_gives_reject_bind

/-- How a statement is typed, from what its parts are typed as. Only what is discarded without a
call may be reported besides. -/
inductive StmtGives (env : Env) (scope : Scope) :
    Source.Stmt → State → Stmt × Scope → State → Prop where
  | bind {name : Source.Ident} {init : Source.Expr} {span : Source.Span} {s s' : State}
      {value : Expr} (value_gives : (inferExpr env scope init).Gives s value s')
      (values : value.ty.hasValues) :
      StmtGives env scope (.bind name init span) s (.bind scope.locals.length value,
        { scope with locals := (name.name, value.ty) :: scope.locals }) s'
  | store {base value : Source.Expr} {field : Source.Ident} {inner span : Source.Span}
      {s t u v s' : State} {address result adapted : Expr} {ty : Ty} {offset : UInt32}
      (base_gives : (inferExpr env scope base).Gives s address t)
      (field_gives : (selectField address.ty field).Gives t (ty, offset) u)
      (value_gives : (inferExpr env scope value).Gives u result v)
      (different : ∀ r, result.ty = .record r → result.ty ≠ ty)
      (adapts : (adapt result ty value.span).Gives v adapted s') :
      StmtGives env scope (.assign (.field base field inner) value span) s
        (.store address offset adapted, scope) s'
  | storeCall {base value : Source.Expr} {field : Source.Ident} {inner span : Source.Span}
      {s t u s' : State} {address result : Expr} {r : RecordTy} {offset : UInt32}
      (base_gives : (inferExpr env scope base).Gives s address t)
      (field_gives : (selectField address.ty field).Gives t (.record r, offset) u)
      (value_gives : (inferExpr env scope value).Gives u result s')
      (isRecord : result.ty = .record r) :
      StmtGives env scope (.assign (.field base field inner) value span) s
        (.storeCall address offset result, scope) s'
  | eval {e : Source.Expr} {s t s' : State} {result : Expr}
      (value_gives : (inferExpr env scope e).Gives s result t)
      (notRecord : ∀ r, result.ty ≠ .record r) (records : s'.records = t.records) :
      StmtGives env scope (.eval e) s (.eval result, scope) s'
  | ret {span : Source.Span} {s : State} : StmtGives env scope (.ret span) s (.ret, scope) s

theorem stmtGives_of_inferStmt {stmt : Source.Stmt} {given : Stmt × Scope}
    (h : (inferStmt env scope stmt).Gives s given s') : StmtGives env scope stmt s given s' := by
  cases stmt with
  | bind name init span =>
      rw [inferStmt] at h
      simp only [Check.gives_bind] at h
      obtain ⟨value, t, value_gives, h⟩ := h
      split at h
      next => exact absurd h Check.not_gives_reject_bind
      next notRecord =>
        split at h
        next => exact absurd h Check.not_gives_reject_bind
        next notVoid =>
          obtain ⟨rfl, rfl⟩ := Check.gives_pure.mp h
          refine .bind value_gives (Ty.hasValues_of_ne (fun void => ?_) notRecord)
          rw [void] at notVoid
          exact notVoid rfl
  | assign place value span =>
      cases place with
      | field base field inner =>
          rw [inferStmt] at h
          simp only [Check.gives_bind] at h
          obtain ⟨address, t, base_gives, ⟨ty, offset⟩, u, field_gives, result, v, value_gives,
            h⟩ := h
          have stored (different : ∀ r, result.ty = .record r → result.ty ≠ ty)
              (h : Check.Gives (do
                let result ← adapt result ty value.span
                return (Stmt.store address offset result, scope)) v given s') :
              StmtGives env scope (.assign (.field base field inner) value span) s given s' := by
            simp only [Check.gives_bind, Check.gives_pure] at h
            obtain ⟨adapted, w, adapts, rfl, rfl⟩ := h
            exact .store base_gives field_gives value_gives different adapts
          dsimp only at h
          split at h
          next r isRecord =>
            split at h
            next same =>
              obtain ⟨rfl, rfl⟩ := Check.gives_pure.mp h
              rw [← same, isRecord] at field_gives
              exact .storeCall base_gives field_gives value_gives isRecord
            next different => exact stored (fun _ _ => different) h
          next notRecord => exact stored (fun r hr => absurd hr (notRecord r)) h
      | var | call | cast =>
          simp only [inferStmt] at h
          exact absurd h Check.not_gives_reject
  | eval e =>
      rw [inferStmt] at h
      simp only [Check.gives_bind] at h
      obtain ⟨result, t, value_gives, h⟩ := h
      split at h
      next => exact absurd h Check.not_gives_reject_bind
      next notRecord =>
        split at h
        · obtain ⟨rfl, rfl⟩ := Check.gives_pure.mp h
          exact .eval value_gives notRecord rfl
        · simp only [Check.gives_bind, Check.gives_report, Check.gives_pure] at h
          obtain ⟨_, _, rfl, rfl, rfl⟩ := h
          exact .eval value_gives notRecord rfl
  | ret span =>
      obtain ⟨rfl, rfl⟩ := Check.gives_pure.mp h
      exact .ret

/-! ## Expressions -/

mutual
/-- What an expression is typed as has that type, and the type is well formed. -/
theorem typed_of_inferExpr (hscope : scope.Proper) : {e : Source.Expr} → {c : Expr} →
    {s s' : State} → s.records.Proper → (inferExpr env scope e).Gives s c s' →
      Typed s'.records scope.param.2 scope.localTys c c.ty ∧ c.ty.wellFormed
  | .var .., _, _, _, _, h => by
      cases exprGives_of_inferExpr h with
      | var found => exact typed_of_lookup hscope found
  | .cast _ ty _, _, _, _, hs, h => by
      cases exprGives_of_inferExpr h with
      | cast value_gives target_gives source_pointer target_pointer =>
          obtain ⟨typed, -⟩ := typed_of_inferExpr hscope hs value_gives
          have ext := ((lawful_tyOf ty).steps_of_gives target_gives).extends
          obtain ⟨p, hp⟩ := Ty.isPointer_iff.mp source_pointer
          obtain ⟨q, hq⟩ := Ty.isPointer_iff.mp target_pointer
          refine ⟨.convert (typed.extend ext) ?_, wellFormed_of_tyOf target_gives⟩
          rw [hp, hq]
          rfl
  | .field base _ _, _, _, _, hs, h => by
      cases exprGives_of_inferExpr h with
      | field base_gives field_gives notRecord =>
          obtain ⟨typed, -⟩ := typed_of_inferExpr hscope hs base_gives
          have proper := ((lawful_inferExpr scope base).steps_of_gives base_gives).proper hs
          obtain ⟨rfl, r, record, f, hbase, known, member, rfl, rfl⟩ :=
            selectField_gives field_gives
          obtain ⟨notVoid, formed⟩ := proper record (RecordTable.mem_of_find? known) f member
          rw [hbase] at typed
          exact ⟨.load typed known member (Ty.hasValues_of_ne notVoid notRecord), formed⟩
  | .call callee args _, _, _, _, hs, h => by
      cases exprGives_of_inferExpr h with
      | call target_gives signature_gives suits args_give =>
          obtain ⟨typed, formed⟩ := typed_of_inferExpr hscope hs target_gives
          have proper := ((lawful_inferExpr scope callee).steps_of_gives target_gives).proper hs
          obtain ⟨hty, rfl⟩ := calleeSignature_gives signature_gives
          rw [hty] at typed formed
          obtain ⟨formedRet, formedParams⟩ := Bool.and_eq_true_iff.mp formed
          have ext := ((lawful_inferArgs _ _ _).steps_of_gives args_give).extends
          exact ⟨.call (typed.extend ext)
            (typed_of_inferArgs hscope proper formedParams suits args_give), formedRet⟩
theorem typed_of_inferArgs (hscope : scope.Proper) : {params : List Ty} →
    {args : List Source.Expr} → {variadic : Bool} → {values : List Expr} → {s s' : State} →
    s.records.Proper → Ty.wellFormedParams params → Suits variadic params.length args.length →
      Check.Gives (.mk (inferArgs env scope params args)) s values s' →
        ArgsTyped s'.records scope.param.2 scope.localTys variadic params values
  | params, [], variadic, values, s, s', _, _, suits, h => by
      obtain ⟨rfl, rfl⟩ := Check.gives_pure.mp h
      cases params with
      | nil => exact .nil
      | cons p params => cases variadic <;> simp [Suits] at suits
  | params, arg :: args, variadic, values, s, s', hs, formed, suits, h => by
      rw [inferArgs_cons, Check.gives_cons] at h
      obtain ⟨value, t, rest, hvalue, hrest, rfl⟩ := h
      simp only [Check.gives_bind] at hvalue
      obtain ⟨first, u, hfirst, hvalue⟩ := hvalue
      obtain ⟨typed, -⟩ := typed_of_inferExpr hscope hs hfirst
      have proper := ((lawful_inferExpr scope arg).steps_of_gives hfirst).proper hs
      have ext := ((lawful_inferArgs scope params.tail args).steps_of_gives hrest).extends
      cases params with
      | nil =>
          obtain ⟨rfl, rfl⟩ := Check.gives_pure.mp hvalue
          cases variadic with
          | false => simp [Suits] at suits
          | true =>
              exact .extra (typed.extend ext)
                (typed_of_inferArgs hscope proper rfl (by simp [Suits]) hrest)
      | cons p params =>
          obtain ⟨⟨values, -⟩, formed'⟩ : (p.hasValues ∧ p.wellFormed) ∧
              Ty.wellFormedParams params := by
            simpa [Ty.wellFormedParams] using formed
          have fits := typed_of_adapt hvalue typed
          have steps := (@lawful_adapt env first p arg.span).steps_of_gives hvalue
          refine .declared (fits.extend ?_) values
            (typed_of_inferArgs hscope (steps.proper proper) formed' ?_ hrest)
          · exact ext.trans steps.extends
          · cases variadic <;> simpa [Suits] using suits
end

/-! ## Statements -/

/-- Only calls give records. -/
theorem call_of_typed_record {records : RecordTable} {param : Ty} {locals : List Ty} {e : Expr}
    {r : RecordTy} (hparam : param.hasValues) (hlocals : ∀ ty ∈ locals, ty.hasValues)
    (h : Typed records param locals e (.record r)) :
    ∃ callee signature args, e = .call callee signature args ∧ signature.ret = .record r := by
  generalize hty : Ty.record r = ty at h
  cases h with
  | call target passed => exact ⟨_, _, _, rfl, rfl⟩
  | param =>
      rw [← hty] at hparam
      cases hparam
  | localVar bound =>
      have values := hlocals _ (List.mem_of_getElem? bound)
      rw [← hty] at values
      cases values
  | load address known member values =>
      rw [← hty] at values
      cases values
  | convert value casts =>
      have values := Ty.hasValues_of_castsTo casts
      rw [← hty] at values
      cases values

theorem Scope.Proper.localTys_hasValues (h : scope.Proper) :
    ∀ ty ∈ scope.localTys, ty.hasValues := by
  intro ty hty
  obtain ⟨l, hl, rfl⟩ := List.mem_map.mp (List.mem_reverse.mp hty)
  exact (h.locals l hl).1

/-- A statement is a return or typed, and what it binds is in scope behind it. -/
theorem typed_of_inferStmt (hscope : scope.Proper) (hparam : scope.param.2.hasValues)
    {stmt : Source.Stmt} {c : Stmt} {scope' : Scope} (hs : s.records.Proper)
    (h : (inferStmt env scope stmt).Gives s (c, scope') s') :
    scope'.Proper ∧ scope'.param = scope.param ∧
      (c = .ret ∨ StmtTyped s'.records scope.param.2 scope.localTys c scope'.localTys) := by
  cases stmtGives_of_inferStmt h with
  | bind value_gives values =>
      obtain ⟨typed, formed⟩ := typed_of_inferExpr hscope hs value_gives
      refine ⟨⟨hscope.param, ?_⟩, rfl, .inr ?_⟩
      · rintro l (_ | ⟨_, hl⟩)
        · exact ⟨values, formed⟩
        · exact hscope.locals l hl
      · have bound := StmtTyped.bind typed values
        simpa [Scope.localTys] using bound
  | store base_gives field_gives value_gives different adapts =>
      obtain ⟨typedBase, -⟩ := typed_of_inferExpr hscope hs base_gives
      have proper := ((lawful_inferExpr _ _).steps_of_gives base_gives).proper hs
      obtain ⟨rfl, r, record, f, hbase, known, member, rfl, rfl⟩ := selectField_gives field_gives
      obtain ⟨notVoid, -⟩ := proper record (RecordTable.mem_of_find? known) f member
      obtain ⟨typed, -⟩ := typed_of_inferExpr hscope proper value_gives
      rw [hbase] at typedBase
      have ext := ((lawful_inferExpr _ _).steps_of_gives value_gives).extends
      have ext' := ((@lawful_adapt env _ _ _).steps_of_gives adapts).extends
      refine ⟨hscope, rfl, .inr (.store (typedBase.extend (ext'.trans ext))
        ((ext'.trans ext) _ _ known) member ((typed_of_adapt adapts typed).extend ext') ?_)⟩
      exact hasValues_of_adapt adapts notVoid different
  | storeCall base_gives field_gives value_gives isRecord =>
      obtain ⟨typedBase, -⟩ := typed_of_inferExpr hscope hs base_gives
      have proper := ((lawful_inferExpr _ _).steps_of_gives base_gives).proper hs
      obtain ⟨rfl, r, record, f, hbase, known, member, same, rfl⟩ := selectField_gives field_gives
      obtain ⟨typed, -⟩ := typed_of_inferExpr hscope proper value_gives
      have ext := ((lawful_inferExpr _ _).steps_of_gives value_gives).extends
      rw [hbase] at typedBase
      rw [isRecord] at typed
      obtain ⟨callee, signature, args, rfl, hret⟩ :=
        call_of_typed_record hparam hscope.localTys_hasValues typed
      rw [← hret] at typed
      exact ⟨hscope, rfl, .inr
        (.storeCall (typedBase.extend ext) (ext _ _ known) member same hret typed)⟩
  | eval value_gives notRecord records =>
      obtain ⟨typed, -⟩ := typed_of_inferExpr hscope hs value_gives
      rw [← records] at typed
      refine ⟨hscope, rfl, .inr (.eval typed (Classical.or_iff_not_imp_right.mpr ?_))⟩
      exact fun notVoid => Ty.hasValues_of_ne notVoid notRecord
  | ret => exact ⟨hscope, rfl, .inl rfl⟩

/-- What statements are typed as is a typed body. A statement that fails leaves no trace, and the
scope behind it is the one before it. -/
theorem typed_of_inferBody {stmts : List Source.Stmt} {scope : Scope} {s : State}
    (hscope : scope.Proper) (hparam : scope.param.2.hasValues) (hs : s.records.Proper) :
    BodyTyped ((inferBody env scope stmts).run s : List Stmt × State).2.records scope.param.2
      scope.localTys ((inferBody env scope stmts).run s : List Stmt × State).1 := by
  induction stmts generalizing scope s with
  | nil => exact .nil
  | cons stmt stmts ih =>
      have proper := Steps.proper ((@lawful_inferStmt env scope stmt).steps s) hs
      rw [run_inferBody_cons]
      rcases hr : (inferStmt env scope stmt).exec s with ⟨_ | ⟨checked, scope'⟩, t⟩ <;>
        rw [hr] at proper
      · exact ih hscope hparam proper
      · obtain ⟨hscope', same, typed⟩ := typed_of_inferStmt hscope hparam hs hr
        have rest := ih hscope' (same ▸ hparam) proper
        have ext := (@steps_inferBody env scope' stmts t).extends
        rw [same] at rest
        cases checked with
        | ret => exact .ret
        | bind | store | storeCall | eval =>
            rcases typed with isRet | typed
            · cases isRet
            · exact .cons (typed.extend ext) rest

/-! ## Declarations -/

theorem gives_inferField {placed : Placement} {field : Source.Typed} {ty : Ty}
    {size align : UInt32} :
    (inferField env placed field).Gives s (ty, size, align) s' ↔
      placed.fields.any (·.name = field.name.name) = false ∧
        (tyOf env field.ty).Gives s ty s' ∧ env.storage? ty = some (size, align) := by
  unfold inferField
  dsimp only
  split
  next twice =>
    rw [Check.gives_bind]
    constructor
    · rintro ⟨_, _, rejected, -⟩
      exact absurd rejected Check.not_gives_reject
    · rintro ⟨once, -⟩
      rw [once] at twice
      cases twice
  next once =>
    rw [Check.gives_bind]
    constructor
    · rintro ⟨ty', t, hty, h⟩
      split at h
      next size' align' stored =>
        obtain ⟨heq, rfl⟩ := Check.gives_pure.mp h
        cases heq
        exact ⟨by simpa using once, hty, stored⟩
      next => exact absurd h Check.not_gives_reject
    · rintro ⟨-, hty, stored⟩
      refine ⟨ty, s', hty, ?_⟩
      rw [stored]
      rfl

theorem proper_of_inferField {placed : Placement} {field : Source.Typed} {ty : Ty}
    {size align : UInt32} (h : (inferField env placed field).Gives s (ty, size, align) s') :
    ty ≠ .void ∧ ty.wellFormed := by
  obtain ⟨-, hty, stored⟩ := gives_inferField.mp h
  refine ⟨?_, wellFormed_of_tyOf hty⟩
  rintro rfl
  cases stored

theorem proper_placeFields {placed : Placement} {fields : List Source.Typed} {s : State}
    (hp : ∀ field ∈ placed.fields, field.ty ≠ .void ∧ field.ty.wellFormed) :
    ∀ field ∈ ((placeFields env placed fields).run s : Placement × State).1.fields,
      field.ty ≠ .void ∧ field.ty.wellFormed := by
  induction fields generalizing placed s with
  | nil => exact hp
  | cons field fields ih =>
      rw [run_placeFields_cons]
      rcases hr : (inferField env placed field).exec s with ⟨_ | ⟨ty, size, align⟩, t⟩
      · exact ih hp
      · dsimp only
        cases added : placed.add? field.name.name ty size align with
        | none => exact hp
        | some placed' =>
            refine ih ?_
            obtain ⟨offset, hfields⟩ := Placement.fields_of_add? added
            rw [hfields]
            rintro f hf
            rcases List.mem_append.mp hf with hold | hnew
            · exact hp f hold
            · rw [List.mem_singleton.mp hnew]
              exact proper_of_inferField hr

theorem proper_declareItem (item : Source.Item) (hs : s.records.Proper) :
    ((declareItem env item).exec s).2.records.Proper := by
  cases item with
  | functionItem decl => exact hs
  | opaqueItem decl =>
      rw [declareItem, exec_declareOpaque]
      split
      · exact hs
      · split
        · exact hs.insert (by simp)
        · exact hs
  | structItem decl =>
      have placed := (@steps_placeFields env .empty decl.fields s).proper hs
      rw [declareItem, exec_declareStruct]
      split
      · exact hs
      · dsimp only
        split
        next record finished =>
          refine placed.insert ?_
          rw [Placement.fields_of_finish? finished]
          exact proper_placeFields (by simp [Placement.empty])
        next => exact placed

theorem proper_declareAll (items : List Source.Item) {s : State} (hs : s.records.Proper) :
    ((declareAll env items).run s : PUnit × State).2.records.Proper := by
  induction items generalizing s with
  | nil => exact hs
  | cons item items ih =>
      rw [run_declareAll_cons]
      exact ih (proper_declareItem item hs)

/-! ## Units -/

theorem typed_of_inferFunction {decl : Source.FunctionDecl} {wrapper : Function}
    (hs : s.records.Proper) (h : (inferFunction env decl).Gives s wrapper s') :
    Program.WellTyped ⟨s'.records, wrapper⟩ := by
  unfold inferFunction at h
  split at h
  next param _ =>
    obtain ⟨ty, t, hty, h⟩ := Check.gives_bind.mp h
    have proper := ((lawful_tyOf param.ty).steps_of_gives hty).proper hs
    dsimp only at h
    split at h
    next isPointer =>
      simp only [Check.gives_bind, Check.gives_liftM, Check.gives_pure] at h
      obtain ⟨body, u, hbody, rfl, rfl⟩ := h
      obtain ⟨pointee, rfl⟩ := Ty.isPointer_iff.mp isPointer
      have hscope : Scope.Proper ⟨(param.name.name, .pointer pointee), []⟩ :=
        ⟨wellFormed_of_tyOf hty, by simp⟩
      have typed := @typed_of_inferBody env decl.body _ _ hscope rfl proper
      rw [hbody] at typed
      exact ⟨pointee, typed⟩
    next =>
      obtain ⟨_, _, rejected, -⟩ := Check.gives_bind.mp h
      exact absurd rejected Check.not_gives_reject
  next => exact absurd h Check.not_gives_reject

theorem proper_declared (unit : Source.SourceUnit) : (declared env unit).records.Proper :=
  proper_declareAll unit.items fun _ hrecord => nomatch hrecord

theorem proper_of_check {unit : Source.SourceUnit} {program : Program} {reports : Diagnostics}
    (h : check env unit = (some program, reports)) : program.records.Proper :=
  ((lawful_inferWrapper unit).steps_of_gives (check_eq_some.mp h).1).proper (proper_declared unit)

/-- The wrapper that a unit gives is typed by the records that the unit ends with. -/
theorem typed_of_inferWrapper {unit : Source.SourceUnit} {wrapper : Function}
    (h : (inferWrapper env unit).Gives (declared env unit) wrapper s') :
    Program.WellTyped ⟨s'.records, wrapper⟩ := by
  have proper := @proper_declared env unit
  unfold inferWrapper at h
  split at h
  · exact typed_of_inferFunction proper h
  · simp at h
  · exact absurd h Check.not_gives_reject

/-- A checked body is typed, for every unit, pointer size and type system: checking never lets an
ill-typed body through. -/
theorem check_wellTyped {unit : Source.SourceUnit} {program : Program} {reports : Diagnostics}
    (h : check env unit = (some program, reports)) : program.WellTyped :=
  typed_of_inferWrapper (check_eq_some.mp h).1

/-- A wrapper that calls through `f` with `a`, which is widened, and keeps the result in `r`. -/
def wideningUnit : Source.SourceUnit :=
  let span : Source.Span := ⟨0, 0⟩
  let ident (name : String) : Source.Ident := ⟨name, span⟩
  let ty (name : String) : Source.TyExpr := .named (ident name)
  let slot (name : String) : Source.Expr := .field (.var (ident "args") span) (ident name) span
  ⟨[.structItem ⟨ident "S", [⟨ident "f", .function [ty "i64"] false (some (ty "i64")) span⟩,
      ⟨ident "a", ty "i32"⟩, ⟨ident "r", ty "i64"⟩], span⟩,
    .functionItem ⟨ident "w", [⟨ident "input", ty "ptr"⟩],
      [.bind (ident "args") (.cast (.var (ident "input") span) (.pointer (ty "S") span) span) span,
        .assign (slot "r") (.call (slot "f") [slot "a"] span) span], span⟩]⟩

theorem check_wellTyped_wideningUnit :
    ∃ program reports, check ⟨8, fun _ => none⟩ wideningUnit = (some program, reports) ∧
      program.WellTyped := by
  have checked : (check ⟨8, fun _ => none⟩ wideningUnit).1.isSome := by decide
  obtain ⟨program, hp⟩ := Option.isSome_iff_exists.mp checked
  exact ⟨program, _, Prod.ext hp rfl, check_wellTyped (Prod.ext hp rfl)⟩

end Checked

end CallThunk
