import CallThunk.Proofs.Checked.Runs

/-!
# Runs of declarations

What declaring the records of a unit does to the state. A struct definition first resolves the types
of its fields, which has the effects of any check, and then adds its own record.
-/

namespace CallThunk.Checked

variable {env : Env} {s s' : State}

/-! ## Fields -/

/-- A field's type is one that has a size. -/
theorem lawful_fieldTy (field : Source.Typed) :
    Check.Lawful env (do
      let ty ← tyOf env field.ty
      match env.storage? ty with
      | some (size, align) => return (ty, size, align)
      | none => reject .voidField field.ty.span) := by
  refine (lawful_tyOf field.ty).bind fun ty => ?_
  split
  · exact .pure _
  · exact .reject rfl _

theorem lawful_inferField (placed : Placement) (field : Source.Typed) :
    (inferField env placed field).Lawful env := by
  unfold inferField
  dsimp only
  split
  · exact .bind (.reject rfl _) fun _ => lawful_fieldTy field
  · exact lawful_fieldTy field

theorem run_placeFields_cons (placed : Placement) (field : Source.Typed)
    (fields : List Source.Typed) (s : State) :
    ((placeFields env placed (field :: fields)).run s : Placement × State) =
      match (inferField env placed field).exec s with
      | (none, t) => (placeFields env placed fields).run t
      | (some (ty, size, align), t) =>
        match placed.add? field.name.name ty size align with
        | some placed => (placeFields env placed fields).run t
        | none => ({ placed with stop := none }, t) := by
  rw [placeFields, run_stateBind, Check.run_run]
  rcases (inferField env placed field).exec s with ⟨_ | ⟨ty, size, align⟩, t⟩
  · rfl
  · dsimp only
    cases placed.add? field.name.name ty size align <;> rfl

theorem steps_placeFields (placed : Placement) (fields : List Source.Typed) (s : State) :
    Steps env s ((placeFields env placed fields).run s : Placement × State).2 := by
  induction fields generalizing placed s with
  | nil => exact .refl
  | cons field fields ih =>
      have first := (@lawful_inferField env placed field).steps s
      rw [run_placeFields_cons]
      rcases hr : (inferField env placed field).exec s with ⟨_ | ⟨ty, size, align⟩, t⟩ <;>
        rw [hr] at first
      · exact first.trans (ih placed t)
      · dsimp only
        cases placed.add? field.name.name ty size align with
        | some placed => exact first.trans (ih placed t)
        | none => exact first

/-! ## Items -/

theorem exec_declareOpaque (decl : Source.OpaqueDecl) (s : State) :
    (declareOpaque decl).exec s =
      if s.records.contains decl.name.name then
        (none, s.add (.definedTwice decl.name.name) (some decl.name.span))
      else if isPowerOfTwo decl.align.toNat then
        (some (), { s with
          records := s.records.insert ⟨decl.name.name, decl.size, decl.align, []⟩ })
      else (none, s.add (.badAlignment decl.name.name decl.align) (some decl.span)) := by
  unfold declareOpaque
  simp only [Check.exec_bind, Check.exec_get]
  cases s.records.contains decl.name.name with
  | true => rfl
  | false => cases isPowerOfTwo decl.align.toNat <;> rfl

theorem exec_declareStruct (decl : Source.StructDecl) (s : State) :
    (declareStruct env decl).exec s =
      if s.records.contains decl.name.name then
        (none, s.add (.definedTwice decl.name.name) (some decl.name.span))
      else
        let placed : Placement × State := (placeFields env .empty decl.fields).run s
        match placed.1.finish? decl.name.name with
        | some record =>
          (some (), { placed.2 with records := placed.2.records.insert record })
        | none =>
          (none, placed.2.add (.recordTooLarge decl.name.name) (some decl.name.span)) := by
  unfold declareStruct
  simp only [Check.exec_bind, Check.exec_get]
  cases s.records.contains decl.name.name with
  | true => rfl
  | false =>
      simp only [Bool.false_eq_true, if_false]
      rw [Check.exec_liftM_bind]
      rcases ((placeFields env .empty decl.fields).run s : Placement × State) with ⟨placed, t⟩
      dsimp only
      cases placed.finish? decl.name.name <;> rfl

/-- Declaring an item fails only with an error. -/
theorem loud_declareItem (item : Source.Item) (s : State)
    (h : ((declareItem env item).exec s).1 = none) :
    s.reports.errorCount < ((declareItem env item).exec s).2.reports.errorCount := by
  cases item with
  | opaqueItem decl =>
      rw [declareItem, exec_declareOpaque] at h ⊢
      split
      · exact s.errorCount_lt_add rfl _
      next fresh =>
        rw [if_neg fresh] at h
        split
        next aligned => simp [aligned] at h
        next => exact s.errorCount_lt_add rfl _
  | structItem decl =>
      have fields := (@steps_placeFields env .empty decl.fields s).errorCount_le
      rw [declareItem, exec_declareStruct] at h ⊢
      split
      · exact s.errorCount_lt_add rfl _
      next fresh =>
        rw [if_neg fresh] at h
        dsimp only at h ⊢
        split
        next finished => simp [finished] at h
        next => exact Nat.lt_of_le_of_lt fields (State.errorCount_lt_add _ rfl _)
  | functionItem decl => cases h

theorem run_declareAll_cons (item : Source.Item) (items : List Source.Item) (s : State) :
    ((declareAll env (item :: items)).run s : PUnit × State) =
      (declareAll env items).run ((declareItem env item).exec s).2 := rfl

/-! ## Units -/

/-- The state behind the declarations of a unit. -/
def declared (env : Env) (unit : Source.SourceUnit) : State :=
  ((declareAll env unit.items).run ⟨[], []⟩ : PUnit × State).2

theorem check_eq (env : Env) (unit : Source.SourceUnit) :
    check env unit =
      let checked := (inferWrapper env unit).exec (declared env unit)
      if checked.2.reports.errorCount > 0 then (none, checked.2.reports)
      else (checked.1.map (⟨checked.2.records, ·⟩), checked.2.reports) := rfl

/-- A unit has a checked form when its function is typed and no error is reported. -/
theorem check_eq_some {unit : Source.SourceUnit} {program : Program} {reports : Diagnostics} :
    check env unit = (some program, reports) ↔
      (inferWrapper env unit).Gives (declared env unit) program.wrapper
        ⟨program.records, reports⟩ ∧ reports.errorCount = 0 := by
  rw [check_eq, Check.Gives]
  rcases (inferWrapper env unit).exec (declared env unit) with ⟨wrapper, records, found⟩
  dsimp only
  split
  next errors =>
    constructor
    · intro h
      cases h
    · rintro ⟨h, clean⟩
      cases h
      omega
  next clean =>
    constructor
    · intro h
      obtain ⟨checked, rfl⟩ := Prod.mk.injEq .. ▸ h
      obtain ⟨wrapper, rfl, rfl⟩ := Option.map_eq_some_iff.mp checked
      exact ⟨rfl, by omega⟩
    · rintro ⟨h, -⟩
      cases h
      rfl

end CallThunk.Checked
