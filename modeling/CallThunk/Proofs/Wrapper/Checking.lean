import CallThunk.Proofs.Wrapper.Body

/-!
# Checking a wrapper

The unit of a wrapper is checked exactly when its records are aligned to powers of two, its struct
has a name of its own and fits 32 bits, and its arguments suit the callee. What it is checked as is
known down to every offset.
-/

namespace CallThunk

open Checked
open WrapperSource (Declares Lists Wraps Spells)

/-! ## Declared records -/

/-- The record of which only size and alignment are known. -/
def RecordTy.placed (r : RecordTy) : PlacedRecord := ⟨r.name, r.size, r.align, []⟩

theorem RecordTable.insert_fresh {table : RecordTable} {record : PlacedRecord}
    (h : table.find? record.name = none) : table.insert record = table ++ [record] := by
  unfold insert
  rw [List.map_congr_left (g := id), List.map_id]
  intro r hr
  have different := List.find?_eq_none.mp h r hr
  rw [if_neg (by simpa using different)]
  rfl

namespace Checked

variable {env : Env} {s : State}

theorem run_declareAll_append (items items' : List Source.Item) (s : State) :
    ((declareAll env (items ++ items')).run s : PUnit × State) =
      (declareAll env items').run ((declareAll env items).run s : PUnit × State).2 := by
  induction items generalizing s with
  | nil => rfl
  | cons item items ih =>
      rw [List.cons_append, run_declareAll_cons, ih, run_declareAll_cons]

theorem errorCount_le_declareItem (item : Source.Item) (s : State) :
    s.reports.errorCount ≤ ((declareItem env item).exec s).2.reports.errorCount := by
  cases item with
  | functionItem decl => exact Nat.le_refl _
  | opaqueItem decl =>
      rw [declareItem, exec_declareOpaque]
      split
      · exact (Step.report s _ _ : Step env _ _).errorCount_le
      · split
        · exact Nat.le_refl _
        · exact (Step.report s _ _ : Step env _ _).errorCount_le
  | structItem decl =>
      have fields := (@steps_placeFields env .empty decl.fields s).errorCount_le
      rw [declareItem, exec_declareStruct]
      split
      · exact (Step.report s _ _ : Step env _ _).errorCount_le
      · dsimp only
        split
        · exact fields
        · exact Nat.le_trans fields (Step.report _ _ _ : Step env _ _).errorCount_le

theorem errorCount_le_declareAll (items : List Source.Item) (s : State) :
    s.reports.errorCount ≤
      ((declareAll env items).run s : PUnit × State).2.reports.errorCount := by
  induction items generalizing s with
  | nil => exact Nat.le_refl _
  | cons item items ih =>
      rw [run_declareAll_cons]
      exact Nat.le_trans (errorCount_le_declareItem item s) (ih _)

/-- Records of new names are declared in order when they are aligned to powers of two. -/
theorem run_opaques {items : List Source.Item} {rs : List RecordTy}
    (declares : List.Forall₂ Declares items rs)
    (fresh : ∀ r ∈ rs, s.records.find? r.name = none) (distinct : (rs.map RecordTy.name).Nodup)
    (aligned : ∀ r ∈ rs, isPowerOfTwo r.align.toNat) :
    ((declareAll env items).run s : PUnit × State).2 =
      { s with records := s.records ++ rs.map RecordTy.placed } := by
  induction declares generalizing s with
  | nil =>
      rw [List.map_nil, List.append_nil]
      rfl
  | @cons item r items rs first _ ih =>
      obtain ⟨decl, rfl, name, size, align⟩ := first
      obtain ⟨new, distinct⟩ := List.nodup_cons.mp distinct
      have undeclared := fresh r (List.mem_cons_self ..)
      have declared : (declareItem env (.opaqueItem decl)).exec s =
          (some (), { s with records := s.records ++ [r.placed] }) := by
        rw [declareItem, exec_declareOpaque, name, size, align,
          RecordTable.contains_eq_false_iff.mpr undeclared, aligned r (List.mem_cons_self ..)]
        simp only [Bool.false_eq_true, if_false, if_true]
        rw [RecordTable.insert_fresh undeclared]
        rfl
      rw [run_declareAll_cons, declared,
        ih _ distinct fun r hr => aligned r (List.mem_cons_of_mem _ hr)]
      · simp
      · intro r' hr'
        show List.find? _ (s.records ++ [r.placed]) = none
        rw [List.find?_append, show List.find? _ s.records = none from
          fresh r' (List.mem_cons_of_mem _ hr'), Option.none_or, List.find?_cons_of_neg]
        · rfl
        · rw [decide_eq_true_eq]
          intro same
          exact new (List.mem_map.mpr ⟨r', hr', same.symm⟩)

/-- Records are aligned to powers of two when declaring them reports no error. -/
theorem aligned_of_opaques {items : List Source.Item} {rs : List RecordTy}
    (declares : List.Forall₂ Declares items rs)
    (clean : ((declareAll env items).run s : PUnit × State).2.reports.errorCount =
      s.reports.errorCount) : ∀ r ∈ rs, isPowerOfTwo r.align.toNat := by
  induction declares generalizing s with
  | nil => exact fun _ hr => nomatch hr
  | @cons item r items rs first _ ih =>
      have loud := @loud_declareItem env item s
      have before := @errorCount_le_declareItem env item s
      have behind := @errorCount_le_declareAll env items ((declareItem env item).exec s).2
      rw [run_declareAll_cons] at clean
      rintro r' (_ | ⟨_, hr'⟩)
      · obtain ⟨decl, rfl, -, -, align⟩ := first
        by_contra misaligned
        have failed : ((declareItem env (.opaqueItem decl)).exec s).1 = none := by
          rw [declareItem, exec_declareOpaque, align]
          split
          · rfl
          · rfl
        have worse := loud failed
        omega
      · exact @ih ((declareItem env item).exec s).2 (by omega) r' hr'

/-! ## The function -/

variable {record : PlacedRecord} {model : StructModel} {decl : Source.FunctionDecl}
  {functionName : String}

theorem gives_inferFunction (knows : s.records.Knows record.recordTy)
    (wraps : Wraps decl functionName record.name model)
    (callable : Callable s.records record model) (passes : model.Passes) :
    ∃ s', (inferFunction env decl).Gives s ⟨functionName, wrapperBody record model⟩ s' ∧
      Quiet s s' := by
  obtain ⟨param, hparams, hparam, means⟩ := wraps.params
  obtain ⟨bind, keep, hbody, binds, keeps⟩ := wraps.body
  obtain ⟨s', run, quiet⟩ := @run_body_of_passes env s record model bind keep knows binds callable
    keeps passes
  have ty : (tyOf env param.ty).Gives s .untypedPointer s :=
    gives_tyOf means (fun _ hr => nomatch hr) rfl
  refine ⟨s', ?_, quiet⟩
  unfold inferFunction
  rw [hparams]
  refine Check.gives_bind.mpr ⟨_, s, ty, ?_⟩
  rw [hparam, hbody, ← wraps.name]
  exact Check.gives_bind.mpr ⟨_, s', Check.gives_liftM.mpr run, Check.gives_pure.mpr ⟨rfl, rfl⟩⟩

theorem passes_of_inferFunction {wrapper : Function} {s' : State}
    (alone : ∀ name, env.external? name = none) (knows : s.records.Knows record.recordTy)
    (wraps : Wraps decl functionName record.name model)
    (callable : Callable s.records record model)
    (gives : (inferFunction env decl).Gives s wrapper s')
    (clean : s'.reports.errorCount = s.reports.errorCount) : model.Passes := by
  obtain ⟨param, hparams, hparam, means⟩ := wraps.params
  obtain ⟨bind, keep, hbody, binds, keeps⟩ := wraps.body
  have ty : (tyOf env param.ty).Gives s .untypedPointer s :=
    gives_tyOf means (fun _ hr => nomatch hr) rfl
  unfold inferFunction at gives
  rw [hparams] at gives
  replace gives := Check.gives_bind.mp gives
  obtain ⟨_, t, first, gives⟩ := gives
  obtain ⟨rfl, rfl⟩ := ty.unique first
  rw [hparam, hbody] at gives
  replace gives := Check.gives_bind.mp gives
  obtain ⟨body, u, run, done⟩ := gives
  obtain ⟨-, rfl⟩ := Check.gives_pure.mp done
  refine passes_of_body alone knows binds callable keeps ?_
  rw [Check.gives_liftM.mp run]
  exact clean

end Checked

/-! ## The unit -/

/-- The records that the slots of a model mention. -/
def StructModel.mentions (model : StructModel) : List RecordTy :=
  Ty.mentionsAll (model.slots.map Slot.ty)

/-- What the slots of a model must be for their types to resolve. -/
structure StructModel.Admissible (model : StructModel) : Prop where
  free : ∀ r ∈ model.mentions, Ty.builtin? r.name = none
  consistent : Consistent model.mentions
  formed : ∀ slot ∈ model.slots, slot.ty.wellFormed
  stored : ∀ slot ∈ model.slots, slot.ty ≠ .void
  values : ∀ ty ∈ model.argumentTys, ty.hasValues

namespace WrapperSource

variable {model : StructModel} {r : RecordTy}

theorem mem_records (admissible : model.Admissible) : r ∈ records model ↔ r ∈ model.mentions :=
  (Ty.collects_addRecordsList (model.slots.map Slot.ty) []).mem admissible.consistent

theorem distinct_records (model : StructModel) : ((records model).map RecordTy.name).Nodup :=
  (Ty.collects_addRecordsList (model.slots.map Slot.ty) []).distinct .nil

/-- A declared record is found under its name. -/
theorem find?_placed {rs : List RecordTy} (distinct : (rs.map RecordTy.name).Nodup) (h : r ∈ rs) :
    RecordTable.find? (rs.map RecordTy.placed) r.name = some r.placed := by
  induction rs with
  | nil => cases h
  | cons first rs ih =>
      obtain ⟨new, distinct⟩ := List.nodup_cons.mp distinct
      unfold RecordTable.find? at ih ⊢
      rcases List.mem_cons.mp h with rfl | h
      · exact List.find?_cons_of_pos (by simp [RecordTy.placed])
      · rw [List.map_cons, List.find?_cons_of_neg, ih distinct h]
        rw [decide_eq_true_eq]
        intro same
        exact new (List.mem_map.mpr ⟨r, h, same.symm⟩)

theorem find?_placed_eq_none {rs : List RecordTy} {name : String} :
    RecordTable.find? (rs.map RecordTy.placed) name = none ↔ ∀ r ∈ rs, r.name ≠ name := by
  simp only [RecordTable.find?, List.find?_eq_none, List.forall_mem_map, decide_eq_true_eq]
  rfl

theorem knows_placed (admissible : model.Admissible) :
    ∀ slot ∈ model.slots, ∀ r ∈ slot.ty.mentions,
      RecordTable.Knows ((records model).map RecordTy.placed) r := by
  intro slot hslot r hr
  have mentioned : r ∈ model.mentions :=
    Ty.mem_mentionsAll.mpr ⟨slot.ty, List.mem_map.mpr ⟨slot, hslot, rfl⟩, hr⟩
  exact ⟨admissible.free r mentioned, r.placed,
    find?_placed (distinct_records model) ((mem_records admissible).mpr mentioned), rfl⟩

/-! ## Checking the unit -/

theorem builtin?_structName {name : String} :
    Ty.builtin? (ofModel name model).structName = none := by
  have start : (ofModel name model).structName.toList =
      '_' :: '_' :: ("fncall_args_".toList ++ (identifierPart name).toList) :=
    String.toList_append
  unfold Ty.builtin?
  split
  any_goals rfl
  all_goals
    next same =>
      rw [same] at start
      cases start

/-- What it takes for an admissible model to be checked, apart from its types. -/
structure Accepted (pointerSize : UInt32) (structName : String) (model : StructModel) : Prop where
  aligned : ∀ r ∈ model.mentions, isPowerOfTwo r.align.toNat
  unlike : ∀ r ∈ model.mentions, r.name ≠ structName
  fits : structSize pointerSize (model.slots.map Slot.ty) < 2 ^ 32
  passes : model.Passes

/-- The records of a checked wrapper. -/
def checkedRecords (pointerSize : UInt32) (structName : String) (model : StructModel) :
    RecordTable :=
  (records model).map RecordTy.placed ++ [structRecord pointerSize structName model.slots]

/-- The checked form of a wrapper. -/
def checkedProgram (pointerSize : UInt32) (name : String) (model : StructModel) : Program where
  records := checkedRecords pointerSize (ofModel name model).structName model
  wrapper := ⟨(ofModel name model).functionName,
    wrapperBody (structRecord pointerSize (ofModel name model).structName model.slots) model⟩

section
variable {env : Env} {s : State} {unit : Source.SourceUnit} {name structName : String}

theorem placeable_placed (admissible : model.Admissible) :
    Placeable ((records model).map RecordTy.placed) model.slots where
  known := knows_placed admissible
  formed := admissible.formed
  stored := admissible.stored
  distinct := model.distinct

theorem find?_structName (unlike : ∀ r ∈ records model, r.name ≠ structName)
    (pointerSize : UInt32) :
    (checkedRecords pointerSize structName model).find? structName =
      some (structRecord pointerSize structName model.slots) := by
  show List.find? _ ((records model).map RecordTy.placed ++ [_]) = _
  rw [List.find?_append, show List.find? _ ((records model).map RecordTy.placed) = none from
    find?_placed_eq_none.mpr unlike, Option.none_or]
  exact List.find?_cons_of_pos (by simp [structRecord])

theorem callable_checked (admissible : model.Admissible)
    (unlike : ∀ r ∈ records model, r.name ≠ structName) (pointerSize : UInt32) :
    Callable (checkedRecords pointerSize structName model)
      (structRecord pointerSize structName model.slots) model where
  serves := {
    known := find?_structName unlike pointerSize
    fields := fun slot hslot => by
      obtain ⟨f, -, found, stores⟩ := @field?_structRecord structName pointerSize model slot hslot
      exact ⟨f, found, stores.ty⟩ }
  values := admissible.values

theorem functions_of_declares {declarations : List Source.Item} {rs : List RecordTy}
    (declares : List.Forall₂ Declares declarations rs) (struct : Source.StructDecl)
    (function : Source.FunctionDecl) :
    Source.SourceUnit.functions ⟨declarations ++ [.structItem struct, .functionItem function]⟩ =
      [function] := by
  induction declares with
  | nil => rfl
  | cons first _ ih =>
      obtain ⟨decl, rfl, -⟩ := first
      exact ih

theorem knows_structRecord (admissible : model.Admissible) (pointerSize : UInt32)
    (unlike : ∀ r ∈ records model, r.name ≠ (ofModel name model).structName) :
    RecordTable.Knows (checkedRecords pointerSize (ofModel name model).structName model)
      (structRecord pointerSize (ofModel name model).structName model.slots).recordTy :=
  ⟨@builtin?_structName model name, _,
    (callable_checked admissible unlike pointerSize).serves.known, rfl⟩

/-- The struct is declared behind the records that its slots mention. -/
theorem exec_declareStruct_placed {struct : Source.StructDecl} (admissible : model.Admissible)
    (lists : Lists struct structName model) (unlike : ∀ r ∈ records model, r.name ≠ structName)
    (fits : structSize env.pointerSize (model.slots.map Slot.ty) < 2 ^ 32) :
    (declareStruct env struct).exec ⟨(records model).map RecordTy.placed, []⟩ =
      (some (), ⟨checkedRecords env.pointerSize structName model, []⟩) := by
  have undeclared := find?_placed_eq_none.mpr unlike
  rw [exec_declareStruct_of_fits lists (placeable_placed admissible) undeclared fits,
    RecordTable.insert_fresh undeclared]
  rfl

/-- The unit of a wrapper is checked when its model is accepted. -/
theorem check_of_accepted (spells : Spells unit name model) (admissible : model.Admissible)
    (accepted : Accepted env.pointerSize (ofModel name model).structName model) :
    ∃ reports, check env unit = (some (checkedProgram env.pointerSize name model), reports) ∧
      reports.errorCount = 0 := by
  obtain ⟨declarations, struct, function, items, declares, lists, wraps⟩ := spells
  have mentioned {r : RecordTy} (hr : r ∈ records model) : r ∈ model.mentions :=
    (mem_records admissible).mp hr
  have unlike : ∀ r ∈ records model, r.name ≠ (ofModel name model).structName :=
    fun r hr => accepted.unlike r (mentioned hr)
  have declaredState : declared env unit =
      ⟨checkedRecords env.pointerSize (ofModel name model).structName model, []⟩ := by
    rw [declared, items, run_declareAll_append,
      run_opaques declares (fun _ _ => rfl) (distinct_records model)
        fun r hr => accepted.aligned r (mentioned hr),
      run_declareAll_cons, List.nil_append,
      show declareItem env (.structItem struct) = declareStruct env struct from rfl,
      exec_declareStruct_placed admissible lists unlike accepted.fits]
    rfl
  obtain ⟨s', gives, quiet⟩ := @gives_inferFunction env ⟨_, []⟩ _ model function _
    (knows_structRecord admissible env.pointerSize unlike) wraps
    (callable_checked admissible unlike env.pointerSize) accepted.passes
  have functions : unit.functions = [function] := by
    rw [show unit = ⟨unit.items⟩ from rfl, items]
    exact functions_of_declares declares struct function
  have final : s' = ⟨checkedRecords env.pointerSize (ofModel name model).structName model,
      s'.reports⟩ := congrArg (State.mk · s'.reports) quiet.records
  rw [final] at gives
  refine ⟨s'.reports, check_eq_some.mpr ⟨?_, quiet.errors⟩, quiet.errors⟩
  unfold inferWrapper
  rw [functions, declaredState]
  exact gives

/-- The model of a wrapper whose unit is checked is accepted. -/
theorem accepted_of_check {program : Program} {reports : Diagnostics}
    (alone : ∀ name, env.external? name = none) (spells : Spells unit name model)
    (admissible : model.Admissible) (checked : check env unit = (some program, reports)) :
    Accepted env.pointerSize (ofModel name model).structName model := by
  obtain ⟨declarations, struct, function, items, declares, lists, wraps⟩ := spells
  obtain ⟨gives, clean⟩ := check_eq_some.mp checked
  have functions : unit.functions = [function] := by
    rw [show unit = ⟨unit.items⟩ from rfl, items]
    exact functions_of_declares declares struct function
  have atEnd : declared env unit = ((declareStruct env struct).exec
      ((declareAll env declarations).run ⟨[], []⟩ : PUnit × State).2).2 := by
    rw [declared, items, run_declareAll_append, run_declareAll_cons]
    rfl
  -- no stage reports an error, because none is left at the end
  have late := ((lawful_inferWrapper unit).steps_of_gives gives).errorCount_le
  have middle := @errorCount_le_declareItem env (.structItem struct)
    ((declareAll env declarations).run ⟨[], []⟩ : PUnit × State).2
  have early := @errorCount_le_declareAll env declarations ⟨[], []⟩
  rw [show declareItem env (.structItem struct) = declareStruct env struct from rfl, ← atEnd]
    at middle
  have start : Diagnostics.errorCount [] = 0 := rfl
  dsimp only at late early
  have aligned := @aligned_of_opaques env ⟨[], []⟩ _ _ declares (by dsimp only; omega)
  have opaques := @run_opaques env ⟨[], []⟩ declarations _ declares (fun _ _ => rfl)
    (distinct_records model) aligned
  rw [List.nil_append] at opaques
  rw [opaques] at atEnd
  have laid : ((declareStruct env struct).exec
      ⟨(records model).map RecordTy.placed, []⟩).1 ≠ none := by
    intro failed
    have loud := loud_declareItem (.structItem struct) _ failed
    rw [show declareItem env (.structItem struct) = declareStruct env struct from rfl, ← atEnd]
      at loud
    omega
  have unlike : ∀ r ∈ records model, r.name ≠ (ofModel name model).structName := by
    refine find?_placed_eq_none.mp (RecordTable.contains_eq_false_iff.mp ?_)
    rw [← Bool.not_eq_true]
    intro taken
    refine laid ?_
    rw [exec_declareStruct, lists.name, if_pos taken]
  have fits : structSize env.pointerSize (model.slots.map Slot.ty) < 2 ^ 32 := by
    refine Nat.lt_of_not_le fun overflow => laid ?_
    exact exec_declareStruct_of_overflow lists (placeable_placed admissible) overflow
  rw [exec_declareStruct_placed admissible lists unlike fits] at atEnd
  unfold inferWrapper at gives
  rw [functions, atEnd] at gives
  exact {
    aligned := fun r hr => aligned r ((mem_records admissible).mpr hr)
    unlike := fun r hr => unlike r ((mem_records admissible).mpr hr)
    fits
    passes := passes_of_inferFunction alone (knows_structRecord admissible env.pointerSize unlike)
      wraps (callable_checked admissible unlike env.pointerSize) gives clean }

end

end WrapperSource

end CallThunk
