import CallThunk.Proofs.Wrapper.Layout

/-!
# The body of a wrapper

The checked body of a wrapper, written down from its model and the record of its struct: each
argument slot is loaded and converted to its declared parameter, and the call's result is stored.
Checking gives this body exactly when the arguments suit the callee.
-/

namespace CallThunk

open Checked
open WrapperSource (Selects Calls Binds Keeps Wraps)

/-! ## The checked body -/

section
variable (record : PlacedRecord)

/-- The address of the struct, once it is bound. -/
def structBase : Expr := .localVar (.pointer (.record record.recordTy)) 0

def slotLoad (slot : Slot) : Expr :=
  .load slot.ty (structBase record) (fieldPlace record slot).offset

/-- A value as its declared parameter, if it has one. -/
def passAs (value : Expr) : Option Ty → Expr
  | some param => if value.ty = param then value else .convert param value
  | none => value

def passedArgs : List Ty → List Slot → List Expr
  | _, [] => []
  | params, slot :: slots =>
    passAs (slotLoad record slot) params.head? :: passedArgs params.tail slots

def wrapperCall (model : StructModel) : Expr :=
  .call (slotLoad record model.calleeSlot) model.signature
    (passedArgs record model.signature.params model.inputSlots)

/-- The statement that calls and keeps the result. -/
def keepCall (model : StructModel) : Stmt :=
  match model.resultSlot? with
  | some slot =>
    match slot.ty with
    | .record _ => .storeCall (structBase record) (fieldPlace record slot).offset
        (wrapperCall record model)
    | _ => .store (structBase record) (fieldPlace record slot).offset (wrapperCall record model)
  | none => .eval (wrapperCall record model)

def wrapperBody (model : StructModel) : List Stmt :=
  [.bind 0 (.convert (.pointer (.record record.recordTy)) (.param .untypedPointer)),
    keepCall record model]

end

/-- The argument slots suit the callee: there are as many as it takes, and each converts to its
declared parameter. -/
structure StructModel.Passes (model : StructModel) : Prop where
  suits : Suits model.signature.variadic model.signature.params.length model.arity
  converts : ∀ p ∈ model.argumentTys.zip model.signature.params,
    p.1.convertTo p.2 ≠ .incompatible

/-! ## Checking it -/

/-- The scope in which the call is checked. -/
def wrapperScope (record : PlacedRecord) : Scope :=
  ⟨("input", .untypedPointer), [("args", .pointer (.record record.recordTy))]⟩

namespace Checked

variable {env : Env} {s s' : State}

/-- A run has one result. -/
theorem Check.Gives.unique {α : Type} {x : Check α} {a b : α} {t t' : State} (h : x.Gives s a t)
    (h' : x.Gives s b t') : b = a ∧ t' = t := by
  unfold Check.Gives at h h'
  rw [h] at h'
  cases h'
  exact ⟨rfl, rfl⟩

/-- A run that reports nothing but warnings and finds no new record. -/
structure Quiet (s s' : State) : Prop where
  records : s'.records = s.records
  errors : s'.reports.errorCount = s.reports.errorCount

theorem Quiet.refl (s : State) : Quiet s s := ⟨rfl, rfl⟩

theorem Quiet.trans {t : State} (h : Quiet s t) (h' : Quiet t s') : Quiet s s' :=
  ⟨h'.records.trans h.records, h'.errors.trans h.errors⟩

theorem Quiet.warning {p : Problem} (h : p.severity = .warning) (span : Option Source.Span) :
    Quiet s (s.add p span) := by
  refine ⟨rfl, ?_⟩
  rw [State.reports_add, errorCount_append]
  simp [Diagnostics.errorCount, Diagnostics.count, Problem.diagnostic, h]

theorem convertTo_self (ty : Ty) : ty.convertTo ty = .identity := if_pos rfl

theorem gives_adapt {value : Expr} {target : Ty} {span : Source.Span}
    (h : value.ty.convertTo target ≠ .incompatible) :
    ∃ s', (adapt value target span).Gives s (passAs value (some target)) s' ∧ Quiet s s' := by
  unfold adapt
  split
  next => exact ⟨s, Check.gives_pure.mpr ⟨rfl, rfl⟩, .refl s⟩
  next implicit =>
    have different : value.ty ≠ target := by
      intro same
      rw [same, convertTo_self] at implicit
      cases implicit
    rw [show passAs value (some target) = .convert target value from if_neg different]
    have warned : Quiet s (s.add (.implicitConversion value.ty target) (some span)) :=
      .warning rfl _
    refine ⟨_, Check.gives_bind.mpr ⟨(), _, ?_, Check.gives_pure.mpr ⟨rfl, rfl⟩⟩, warned⟩
    exact Check.gives_report.mpr rfl
  next incompatible => exact absurd incompatible h

theorem converts_of_adapt {value e : Expr} {target : Ty} {span : Source.Span}
    (h : (adapt value target span).Gives s e s') : value.ty.convertTo target ≠ .incompatible := by
  intro incompatible
  unfold adapt at h
  rw [incompatible] at h
  exact absurd h Check.not_gives_reject

end Checked

section
variable {env : Env} {s s' : State} {record : PlacedRecord} {slot : Slot} {model : StructModel}

/-- The record of the struct is known, with a field for each slot. -/
structure Serves (records : RecordTable) (record : PlacedRecord) (slots : List Slot) : Prop where
  known : records.find? record.name = some record
  fields : ∀ slot ∈ slots, ∃ f, record.field? slot.field = some f ∧ f.ty = slot.ty

theorem Serves.quiet (h : Serves s.records record slots) (quiet : Quiet s s') :
    Serves s'.records record slots := by
  rw [quiet.records]
  exact h

theorem gives_selectField {field : Source.Ident} {slots : List Slot}
    (serves : Serves s.records record slots) (h : slot ∈ slots) (name : field.name = slot.field) :
    (selectField (structBase record).ty field).Gives s
      (slot.ty, (fieldPlace record slot).offset) s := by
  obtain ⟨f, found, ty⟩ := serves.fields slot h
  have selected : (s.records.find? record.recordTy.name).bind (·.field? field.name) = some f := by
    rw [name, show record.recordTy.name = record.name from rfl, serves.known]
    exact found
  unfold structBase selectField fieldPlace
  simp only [Check.gives_bind, Check.gives_get, Expr.ty]
  refine ⟨s, s, ⟨rfl, rfl⟩, ?_⟩
  rw [selected, found, ← ty]
  exact Check.gives_pure.mpr ⟨rfl, rfl⟩

theorem gives_select {e : Source.Expr} {slots : List Slot} (serves : Serves s.records record slots)
    (h : slot ∈ slots) (values : slot.ty.hasValues) (selects : Selects e slot) :
    (inferExpr env (wrapperScope record) e).Gives s (slotLoad record slot) s := by
  obtain ⟨args, span, field, span', rfl, hargs, hfield⟩ := selects
  have base : (inferExpr env (wrapperScope record) (.var args span)).Gives s
      (structBase record) s := by
    rw [inferExpr, hargs]
    exact Check.gives_pure.mpr ⟨rfl, rfl⟩
  rw [inferExpr]
  simp only [Check.gives_bind]
  refine ⟨_, s, base, _, s, gives_selectField serves h hfield, ?_⟩
  dsimp only
  split
  next r hr =>
    rw [hr] at values
    cases values
  next => exact Check.gives_pure.mpr ⟨rfl, rfl⟩

theorem convertTo_of_passed {e : Source.Expr} {c : Expr} {slots : List Slot} {param : Ty}
    {span : Source.Span} (serves : Serves s.records record slots) (h : slot ∈ slots)
    (values : slot.ty.hasValues) (selects : Selects e slot)
    (gives : Check.Gives (do
      let value ← inferExpr env (wrapperScope record) e
      adapt value param span) s c s') : slot.ty.convertTo param ≠ .incompatible := by
  obtain ⟨value, t, first, adapted⟩ := Check.gives_bind.mp gives
  obtain ⟨rfl, -⟩ := (gives_select serves h values selects).unique first
  exact converts_of_adapt adapted

/-- The arguments of the call are checked as the slots that they select. -/
theorem gives_args {args : List Source.Expr} {slots all : List Slot} {params : List Ty}
    (serves : Serves s.records record all) (member : slots ⊆ all)
    (values : ∀ slot ∈ slots, slot.ty.hasValues) (selects : List.Forall₂ Selects args slots)
    (converts : ∀ p ∈ (slots.map Slot.ty).zip params, p.1.convertTo p.2 ≠ .incompatible) :
    ∃ s', Check.Gives (.mk (inferArgs env (wrapperScope record) params args)) s
      (passedArgs record params slots) s' ∧ Quiet s s' := by
  induction selects generalizing params s with
  | nil => exact ⟨s, Check.gives_pure.mpr ⟨by rw [passedArgs], rfl⟩, .refl s⟩
  | @cons arg slot args slots first _ ih =>
      have load := @gives_select env s record slot arg all serves (member (List.mem_cons_self ..))
        (values slot (List.mem_cons_self ..)) first
      have member' : slots ⊆ all := fun t ht => member (List.mem_cons_of_mem _ ht)
      have values' : ∀ t ∈ slots, t.ty.hasValues := fun t ht => values t (List.mem_cons_of_mem _ ht)
      cases params with
      | nil =>
          obtain ⟨s', rest, quiet⟩ := @ih s [] serves member' values' (by simp)
          refine ⟨s', ?_, quiet⟩
          rw [inferArgs_cons, Check.gives_cons]
          exact ⟨_, s, _, Check.gives_bind.mpr ⟨_, s, load, Check.gives_pure.mpr ⟨rfl, rfl⟩⟩, rest,
            rfl⟩
      | cons p params =>
          rw [List.map_cons, List.zip_cons_cons] at converts
          obtain ⟨t, passed, warned⟩ := @gives_adapt s (slotLoad record slot) p arg.span
            (converts _ (List.mem_cons_self ..))
          obtain ⟨s', rest, quiet⟩ := @ih t params (serves.quiet warned) member' values'
            fun q hq => converts q (List.mem_cons_of_mem _ hq)
          refine ⟨s', ?_, warned.trans quiet⟩
          rw [inferArgs_cons, Check.gives_cons]
          exact ⟨_, t, _, Check.gives_bind.mpr ⟨_, s, load, passed⟩, rest, rfl⟩

/-- Arguments that are checked convert to their declared parameters. -/
theorem converts_of_args {args : List Source.Expr} {cs : List Expr} {slots all : List Slot}
    {params : List Ty} (serves : Serves s.records record all) (member : slots ⊆ all)
    (alone : ∀ name, env.external? name = none)
    (values : ∀ slot ∈ slots, slot.ty.hasValues) (selects : List.Forall₂ Selects args slots)
    (gives : Check.Gives (.mk (inferArgs env (wrapperScope record) params args)) s cs s') :
    ∀ p ∈ (slots.map Slot.ty).zip params, p.1.convertTo p.2 ≠ .incompatible := by
  induction selects generalizing params s cs with
  | nil => simp
  | @cons arg slot args slots first _ ih =>
      have member' : slots ⊆ all := fun t ht => member (List.mem_cons_of_mem _ ht)
      have values' : ∀ t ∈ slots, t.ty.hasValues := fun t ht => values t (List.mem_cons_of_mem _ ht)
      cases params with
      | nil => simp
      | cons p params =>
          rw [inferArgs_cons, Check.gives_cons] at gives
          obtain ⟨c, t, rest, passed, gives, rfl⟩ := gives
          have same := (((lawful_inferExpr (wrapperScope record) arg).bind fun value =>
            lawful_adapt value p arg.span).steps_of_gives passed).records_eq alone
          rw [List.map_cons, List.zip_cons_cons]
          rintro q (_ | ⟨_, hq⟩)
          · exact convertTo_of_passed serves (member (List.mem_cons_self ..))
              (values slot (List.mem_cons_self ..)) first passed
          · exact @ih t rest params (by rw [same]; exact serves) member' values' gives q hq

/-- What the slots of a model must be for its call to be checked. -/
structure Callable (records : RecordTable) (record : PlacedRecord) (model : StructModel) :
    Prop where
  serves : Serves records record model.slots
  values : ∀ ty ∈ model.argumentTys, ty.hasValues

theorem Callable.inputs (h : Callable s.records record model) :
    ∀ slot ∈ model.inputSlots, slot.ty.hasValues := by
  intro slot hslot
  obtain ⟨i, hi, rfl⟩ := List.mem_mapIdx.mp hslot
  exact h.values _ (List.getElem_mem hi)

theorem inputSlots_tys (model : StructModel) :
    model.inputSlots.map Slot.ty = model.argumentTys := by
  refine List.ext_getElem (by simp [StructModel.inputSlots]) fun i _ _ => ?_
  simp [StructModel.inputSlots]

theorem length_inputSlots (model : StructModel) : model.inputSlots.length = model.arity := by
  simp [StructModel.inputSlots, StructModel.arity]

theorem calleeSlot_mem (model : StructModel) : model.calleeSlot ∈ model.slots :=
  mem_slots.mpr (.inl rfl)

theorem inputSlots_subset (model : StructModel) : model.inputSlots ⊆ model.slots :=
  fun _ h => mem_slots.mpr (.inr (.inl h))

/-- The call is checked when the arguments suit the callee. -/
theorem gives_call {e : Source.Expr} (callable : Callable s.records record model)
    (passes : model.Passes) (calls : Calls e model) :
    ∃ s', (inferExpr env (wrapperScope record) e).Gives s (wrapperCall record model) s' ∧
      Quiet s s' := by
  obtain ⟨callee, args, span, rfl, selects, selectsAll⟩ := calls
  have target := @gives_select env s record _ callee _ callable.serves (calleeSlot_mem model) rfl
    selects
  have signature : (calleeSignature (slotLoad record model.calleeSlot) callee.span).Gives s
      model.signature s := Check.gives_pure.mpr ⟨rfl, rfl⟩
  have converts := passes.converts
  rw [← inputSlots_tys] at converts
  obtain ⟨s', passed, quiet⟩ := @gives_args env s record args _ _ model.signature.params
    callable.serves (inputSlots_subset model) callable.inputs selectsAll converts
  have suits : Suits model.signature.variadic model.signature.params.length args.length := by
    rw [selectsAll.length_eq, length_inputSlots]
    exact passes.suits
  refine ⟨s', ?_, quiet⟩
  rw [inferExpr]
  simp only [Check.gives_bind]
  refine ⟨_, s, target, _, s, signature, ?_⟩
  rw [if_pos suits]
  simp only [Check.gives_bind, Check.gives_pure]
  exact ⟨_, s', passed, rfl, rfl⟩

/-- The arguments of a call that is checked suit the callee. -/
theorem passes_of_call {e : Source.Expr} {c : Expr} (alone : ∀ name, env.external? name = none)
    (callable : Callable s.records record model) (calls : Calls e model)
    (gives : (inferExpr env (wrapperScope record) e).Gives s c s') : model.Passes := by
  obtain ⟨callee, args, span, rfl, selects, selectsAll⟩ := calls
  have target := @gives_select env s record _ callee _ callable.serves (calleeSlot_mem model) rfl
    selects
  cases exprGives_of_inferExpr gives with
  | call first called suits passed =>
      obtain ⟨rfl, rfl⟩ := target.unique first
      obtain ⟨rfl, rfl⟩ := Check.gives_pure.mp
        (show Check.Gives (pure model.signature) _ _ _ from called)
      constructor
      · rw [← length_inputSlots, ← selectsAll.length_eq]
        exact suits
      · rw [← inputSlots_tys]
        exact converts_of_args callable.serves (inputSlots_subset model) alone callable.inputs
          selectsAll passed

/-! ## Statements -/

theorem resultSlot?_eq_some (h : model.resultSlot? = some slot) :
    slot.ty = model.signature.ret ∧ slot ∈ model.slots := by
  have member : slot ∈ model.slots := mem_slots.mpr (.inr (.inr h))
  unfold StructModel.resultSlot? at h
  split at h <;> cases h
  exact ⟨rfl, member⟩

theorem resultSlot?_eq_none (h : model.resultSlot? = none) : model.signature.ret = .void := by
  unfold StructModel.resultSlot? at h
  split at h
  next isVoid => exact Ty.isVoid_iff.mp isVoid
  next => cases h

/-- The call and where its result goes are checked when the arguments suit the callee. -/
theorem gives_keep {stmt : Source.Stmt} (callable : Callable s.records record model)
    (passes : model.Passes) (keeps : Keeps stmt model) :
    ∃ s', (inferStmt env (wrapperScope record) stmt).Gives s
      (keepCall record model, wrapperScope record) s' ∧ Quiet s s' := by
  unfold Keeps at keeps
  unfold keepCall
  cases hresult : model.resultSlot? with
  | none =>
      rw [hresult] at keeps
      obtain ⟨call, rfl, calls⟩ := keeps
      obtain ⟨s', called, quiet⟩ := @gives_call env s record model call callable passes calls
      refine ⟨s', ?_, quiet⟩
      rw [inferStmt]
      refine Check.gives_bind.mpr ⟨_, s', called, ?_⟩
      have noValue : (wrapperCall record model).ty = .void := resultSlot?_eq_none hresult
      dsimp only
      rw [noValue]
      exact Check.gives_pure.mpr ⟨rfl, rfl⟩
  | some slot =>
      rw [hresult] at keeps
      obtain ⟨ty, member⟩ := resultSlot?_eq_some hresult
      obtain ⟨place, value, span, rfl, selects, calls⟩ := keeps
      obtain ⟨args, span', field, span'', rfl, hargs, hfield⟩ := selects
      have base : (inferExpr env (wrapperScope record) (.var args span')).Gives s
          (structBase record) s := by
        rw [inferExpr, hargs]
        exact Check.gives_pure.mpr ⟨rfl, rfl⟩
      obtain ⟨s', called, quiet⟩ := @gives_call env s record model value callable passes calls
      refine ⟨s', ?_, quiet⟩
      rw [inferStmt]
      refine Check.gives_bind.mpr ⟨_, s, base, Check.gives_bind.mpr
        ⟨_, s, gives_selectField callable.serves member hfield, ?_⟩⟩
      refine Check.gives_bind.mpr ⟨_, s', called, ?_⟩
      have same : (wrapperCall record model).ty = slot.ty := ty.symm
      have kept : (adapt (wrapperCall record model) slot.ty value.span).Gives s'
          (wrapperCall record model) s' := by
        unfold adapt
        rw [same, convertTo_self]
        exact Check.gives_pure.mpr ⟨(if_pos rfl).symm, rfl⟩
      dsimp only
      rw [same]
      cases hty : slot.ty with
      | record r =>
          dsimp only
          rw [if_pos rfl]
          exact Check.gives_pure.mpr ⟨rfl, rfl⟩
      | void | bool | int | float | pointer | function =>
          rw [hty] at kept
          exact Check.gives_bind.mpr ⟨_, s', kept, Check.gives_pure.mpr ⟨rfl, rfl⟩⟩

theorem passes_of_keep {stmt : Source.Stmt} {c : Stmt} {scope : Scope}
    (alone : ∀ name, env.external? name = none) (callable : Callable s.records record model)
    (keeps : Keeps stmt model)
    (gives : (inferStmt env (wrapperScope record) stmt).Gives s (c, scope) s') : model.Passes := by
  unfold Keeps at keeps
  cases hresult : model.resultSlot? with
  | none =>
      rw [hresult] at keeps
      obtain ⟨call, rfl, calls⟩ := keeps
      cases stmtGives_of_inferStmt gives with
      | eval called => exact passes_of_call alone callable calls called
  | some slot =>
      rw [hresult] at keeps
      obtain ⟨place, value, span, rfl, selects, calls⟩ := keeps
      obtain ⟨args, span', field, span'', rfl, hargs, hfield⟩ := selects
      have behind {base : Expr} {selected : Ty × UInt32} {t u : State}
          (based : (inferExpr env (wrapperScope record) (.var args span')).Gives s base t)
          (select : (selectField base.ty field).Gives t selected u) :
          Callable u.records record model := by
        rw [((lawful_selectField _ _).steps_of_gives select).records_eq alone,
          ((lawful_inferExpr _ _).steps_of_gives based).records_eq alone]
        exact callable
      cases stmtGives_of_inferStmt gives with
      | store based select called => exact passes_of_call alone (behind based select) calls called
      | storeCall based select called =>
          exact passes_of_call alone (behind based select) calls called

theorem gives_bindArgs {stmt : Source.Stmt} (knows : s.records.Knows record.recordTy)
    (binds : Binds stmt record.name) :
    (inferStmt env ⟨("input", .untypedPointer), []⟩ stmt).Gives s
      (.bind 0 (.convert (.pointer (.record record.recordTy)) (.param .untypedPointer)),
        wrapperScope record) s := by
  obtain ⟨args, input, span, ty, span', span'', rfl, hargs, hinput, means⟩ := binds
  have param : (inferExpr env ⟨("input", .untypedPointer), []⟩ (.var input span)).Gives s
      (.param .untypedPointer) s := by
    rw [inferExpr, hinput]
    exact Check.gives_pure.mpr ⟨rfl, rfl⟩
  have target : (tyOf env ty).Gives s (.pointer (.record record.recordTy)) s :=
    gives_tyOf (means record.recordTy rfl)
      (fun r hr => by rw [List.mem_singleton.mp hr]; exact knows) rfl
  have cast : (inferExpr env ⟨("input", .untypedPointer), []⟩
      (.cast (.var input span) ty span')).Gives s
      (.convert (.pointer (.record record.recordTy)) (.param .untypedPointer)) s := by
    rw [inferExpr]
    refine Check.gives_bind.mpr ⟨_, s, param, Check.gives_bind.mpr ⟨_, s, target, ?_⟩⟩
    exact Check.gives_pure.mpr ⟨rfl, rfl⟩
  rw [inferStmt]
  refine Check.gives_bind.mpr ⟨_, s, cast, ?_⟩
  rw [hargs]
  exact Check.gives_pure.mpr ⟨rfl, rfl⟩

theorem run_body_of_passes {bind keep : Source.Stmt} (knows : s.records.Knows record.recordTy)
    (binds : Binds bind record.name) (callable : Callable s.records record model)
    (keeps : Keeps keep model) (passes : model.Passes) :
    ∃ s', (inferBody env ⟨("input", .untypedPointer), []⟩ [bind, keep]).run s =
      (wrapperBody record model, s') ∧ Quiet s s' := by
  obtain ⟨s', kept, quiet⟩ := @gives_keep env s record model keep callable passes keeps
  refine ⟨s', ?_, quiet⟩
  rw [run_inferBody_cons, show Check.exec _ s = _ from gives_bindArgs knows binds]
  dsimp only
  rw [run_inferBody_cons, show Check.exec _ s = _ from kept]
  unfold wrapperBody
  have notRet : keepCall record model ≠ .ret := by
    unfold keepCall
    split
    · split <;> simp
    · simp
  generalize keepCall record model = kept at notRet
  cases kept with
  | ret => exact absurd rfl notRet
  | bind | store | storeCall | eval => rfl

/-- When checking the body reports no error, the arguments suit the callee. -/
theorem passes_of_body {bind keep : Source.Stmt} (alone : ∀ name, env.external? name = none)
    (knows : s.records.Knows record.recordTy) (binds : Binds bind record.name)
    (callable : Callable s.records record model) (keeps : Keeps keep model)
    (clean : ((inferBody env ⟨("input", .untypedPointer), []⟩ [bind, keep]).run s :
      List Stmt × State).2.reports.errorCount = s.reports.errorCount) : model.Passes := by
  have loud := (@lawful_inferStmt env (wrapperScope record) keep).loud s
  rw [run_inferBody_cons, show Check.exec _ s = _ from gives_bindArgs knows binds] at clean
  dsimp only at clean
  rw [run_inferBody_cons] at clean
  rcases hr : (inferStmt env (wrapperScope record) keep).exec s with ⟨_ | ⟨c, scope⟩, t⟩
  · rw [hr] at clean loud
    have worse := loud rfl
    exact absurd clean (Nat.ne_of_gt worse)
  · exact passes_of_keep alone callable keeps hr

end

end CallThunk
