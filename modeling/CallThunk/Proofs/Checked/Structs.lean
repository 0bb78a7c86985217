import CallThunk.Proofs.Checked.Soundness
import CallThunk.Proofs.Record.Shape
import Mathlib.Data.List.Nodup

/-!
# Layout of structs

A struct of which no field fails is declared with the shape that C gives to its fields if that fits
32 bits, and it is refused as too large if it does not, wherever a number becomes too large.
-/

namespace CallThunk.Checked

variable {α β : Type} {env : Env} {s s' : State}

/-! ## Results report nothing -/

/-- A check that reports nothing when it has a result. -/
def Check.Quiet (x : Check α) : Prop := ∀ s a s', x.Gives s a s' → s'.reports = s.reports

namespace Check.Quiet

theorem pure (a : α) : (Pure.pure a : Check α).Quiet := by
  intro s b s' h
  obtain ⟨-, rfl⟩ := gives_pure.mp h
  rfl

theorem reject (p : Problem) (span : Source.Span) : (Checked.reject p span : Check α).Quiet :=
  fun _ _ _ h => absurd h not_gives_reject

theorem bind {x : Check α} {f : α → Check β} (hx : x.Quiet) (hf : ∀ a, (f a).Quiet) :
    (x >>= f).Quiet := by
  intro s b s' h
  obtain ⟨a, t, first, second⟩ := gives_bind.mp h
  exact (hf a t b s' second).trans (hx s a t first)

theorem cons {x : Check α} {xs : Check (List α)} (hx : x.Quiet) (hxs : xs.Quiet) :
    (x.cons xs).Quiet := by
  intro s as s' h
  obtain ⟨a, t, rest, first, second, -⟩ := gives_cons.mp h
  exact (hxs t rest s' second).trans (hx s a t first)

end Check.Quiet

theorem quiet_namedTy (ident : Source.Ident) : (namedTy env ident).Quiet := by
  intro s ty s' h
  unfold Check.Gives at h
  rw [exec_namedTy] at h
  split at h
  next => cases h; rfl
  next =>
    split at h
    next => cases h; rfl
    next => split at h <;> cases h; rfl

theorem quiet_admitParam (ty : Ty) (span : Source.Span) : (admitParam ty span).Quiet := by
  unfold admitParam
  split
  · exact .reject _ _
  · exact .reject _ _
  · exact .pure _

mutual
theorem quiet_tyOf : (e : Source.TyExpr) → (tyOf env e).Quiet
  | .named ident => by
      rw [tyOf]
      exact quiet_namedTy ident
  | .pointer pointee _ => by
      rw [tyOf]
      exact (quiet_tyOf pointee).bind fun _ => .pure _
  | .function params variadic ret span => by
      intro s ty s' h
      unfold Check.Gives at h
      rw [exec_tyOf_function] at h
      obtain ⟨result, rfl⟩ := Prod.mk.injEq .. ▸ h
      obtain ⟨r, hr, rest⟩ := Option.bind_eq_some_iff.mp result
      obtain ⟨tys, htys, -⟩ := Option.map_eq_some_iff.mp rest
      have first := quiet_paramTys params s tys _ (Prod.ext htys rfl)
      exact (quiet_resultTy ret _ _ _ (Prod.ext hr rfl)).trans first
theorem quiet_paramTys : (es : List Source.TyExpr) → Check.Quiet (.mk (paramTys env es))
  | [] => .pure []
  | e :: es => by
      rw [paramTys_cons]
      exact ((quiet_tyOf e).bind fun _ => quiet_admitParam _ _).cons (quiet_paramTys es)
theorem quiet_resultTy : (ret : Option Source.TyExpr) → (resultTy env ret).Quiet
  | none => .pure _
  | some ret => by
      rw [resultTy]
      exact quiet_tyOf ret
end

/-! ## Resolving fields -/

/-- The fields of a struct resolve, one after the other, to types that have a size. -/
inductive Resolves (env : Env) : State → List Source.Typed → List SizedField → State → Prop where
  | nil {s : State} : Resolves env s [] [] s
  | cons {s t u : State} {field : Source.Typed} {fields : List Source.Typed} {ty : Ty}
      {size align : UInt32} {sized : List SizedField}
      (resolved : (tyOf env field.ty).Gives s ty t)
      (stored : env.storage? ty = some (size, align)) (rest : Resolves env t fields sized u) :
      Resolves env s (field :: fields) (⟨field.name.name, ty, size, align⟩ :: sized) u

theorem Resolves.reports_eq {fields : List Source.Typed} {sized : List SizedField}
    (h : Resolves env s fields sized s') : s'.reports = s.reports := by
  induction h with
  | nil => rfl
  | cons resolved _ _ ih => exact ih.trans (quiet_tyOf _ _ _ _ resolved)

theorem Resolves.steps {fields : List Source.Typed} {sized : List SizedField}
    (h : Resolves env s fields sized s') : Steps env s s' := by
  induction h with
  | nil => exact .refl
  | cons resolved _ _ ih => exact ((lawful_tyOf _).steps_of_gives resolved).trans ih

/-- Between two states a field of a struct is resolved, and it is aligned as its type is. -/
structure FieldResolves (env : Env) (s s' : State) (field : Source.Typed) (f : SizedField) :
    Prop where
  align : f.align = f.ty.align env.pointerSize
  resolved : ∃ u u', Steps env s u ∧ (tyOf env field.ty).Gives u f.ty u' ∧ Steps env u' s'

/-- Each field of a struct is resolved, and there are no others. -/
theorem Resolves.each {fields : List Source.Typed} {sized : List SizedField}
    (h : Resolves env s fields sized s') :
    (∀ f ∈ sized, ∃ field ∈ fields, FieldResolves env s s' field f) ∧
      ∀ field ∈ fields, ∃ f ∈ sized, FieldResolves env s s' field f := by
  induction h with
  | nil => exact ⟨nofun, nofun⟩
  | @cons s t u field fields ty size align sized resolved stored rest ih =>
      have first := (lawful_tyOf field.ty).steps_of_gives resolved
      have here : FieldResolves env s u field ⟨field.name.name, ty, size, align⟩ := by
        refine ⟨?_, s, t, .refl, resolved, rest.steps⟩
        have inhabited : ty ≠ .void := by
          rintro rfl
          cases stored
        rw [Ty.storage?_eq inhabited] at stored
        cases stored
        rfl
      have later {field' : Source.Typed} {f : SizedField} (h : FieldResolves env t u field' f) :
          FieldResolves env s u field' f := by
        obtain ⟨v, v', before, gives, behind⟩ := h.resolved
        exact ⟨h.align, v, v', first.trans before, gives, behind⟩
      constructor
      · rintro f (_ | ⟨_, hf⟩)
        · exact ⟨field, List.mem_cons_self .., here⟩
        · obtain ⟨field', member, resolves⟩ := ih.1 f hf
          exact ⟨field', List.mem_cons_of_mem _ member, later resolves⟩
      · rintro field' (_ | ⟨_, member⟩)
        · exact ⟨_, List.mem_cons_self .., here⟩
        · obtain ⟨f, hf, resolves⟩ := ih.2 field' member
          exact ⟨f, List.mem_cons_of_mem _ hf, later resolves⟩

/-- When no field fails, those that are looked at resolve, and they are placed one after the other.
Some are not looked at only if placing has stopped before. -/
theorem resolves_of_placeFields {placed : Placement} {fields : List Source.Typed}
    (clean : ((placeFields env placed fields).run s : Placement × State).2.reports.errorCount =
      s.reports.errorCount) (distinct : (placed.fields.map PlacedField.name).Nodup) :
    ∃ looked rest sized t, fields = looked ++ rest ∧ Resolves env s looked sized t ∧
      (placeFields env placed fields).run s = (placed.addAll sized, t) ∧
      (placed.fields.map PlacedField.name ++ sized.map SizedField.name).Nodup ∧
      (rest ≠ [] → (placed.addAll sized).stop = none) := by
  induction fields generalizing placed s with
  | nil => exact ⟨[], [], [], s, rfl, .nil, rfl, by simpa using distinct, fun h => absurd rfl h⟩
  | cons field fields ih =>
      have before := ((@lawful_inferField env placed field).steps s).errorCount_le
      have loud := (@lawful_inferField env placed field).loud s
      rw [run_placeFields_cons] at clean ⊢
      rcases hr : (inferField env placed field).exec s with ⟨_ | ⟨ty, size, align⟩, t⟩ <;>
        rw [hr] at before loud clean
      · -- The field has reported an error, and nothing takes it back.
        have behind := (@steps_placeFields env placed fields t).errorCount_le
        have failed := loud rfl
        dsimp only at clean failed
        omega
      obtain ⟨once, resolved, stored⟩ := gives_inferField.mp hr
      have fresh : field.name.name ∉ placed.fields.map PlacedField.name := by
        intro member
        obtain ⟨f, hf, same⟩ := List.mem_map.mp member
        exact List.any_eq_false.mp once f hf (decide_eq_true same)
      have distinct' : (placed.fields.map PlacedField.name ++ [field.name.name]).Nodup :=
        List.nodup_append.mpr ⟨distinct, List.nodup_singleton _, by
          rintro name old _ new rfl
          rw [List.mem_singleton.mp new] at old
          exact fresh old⟩
      dsimp only at clean before ⊢
      cases added : placed.add? field.name.name ty size align with
      | none =>
          -- This field has been looked at, and the ones behind it never are.
          refine ⟨[field], fields, [⟨field.name.name, ty, size, align⟩], t, rfl,
            .cons resolved stored .nil, ?_, distinct', fun _ => ?_⟩
          · rw [Placement.addAll, added]
          · rw [Placement.addAll, added]
      | some placed' =>
          rw [added] at clean
          have behind := (@steps_placeFields env placed' fields t).errorCount_le
          dsimp only at clean
          obtain ⟨offset, appended⟩ := Placement.fields_of_add? added
          have names : placed'.fields.map PlacedField.name =
              placed.fields.map PlacedField.name ++ [field.name.name] := by
            rw [appended, List.map_append, List.map_singleton]
          obtain ⟨looked, rest, sized, u, split, resolves, run, distinct, stopped⟩ :=
            @ih t placed' (by omega) (names ▸ distinct')
          have unfolded : placed.addAll (⟨field.name.name, ty, size, align⟩ :: sized) =
              placed'.addAll sized := by
            rw [Placement.addAll, added]
          refine ⟨field :: looked, rest, _, u, by rw [split]; rfl, .cons resolved stored resolves,
            ?_, ?_, ?_⟩
          · rw [unfolded]
            exact run
          · rw [names, List.append_assoc] at distinct
            exact distinct
          · rw [unfolded]
            exact stopped

/-! ## Declaring structs -/

/-- A struct of which no field fails comes from the sizes and alignments of its fields alone. -/
theorem exec_declareStruct_of_clean {decl : Source.StructDecl}
    (fresh : s.records.find? decl.name.name = none)
    (clean : ((placeFields env .empty decl.fields).run s : Placement × State).2.reports.errorCount =
      s.reports.errorCount) :
    ∃ looked rest sized t, decl.fields = looked ++ rest ∧ Resolves env s looked sized t ∧
      (sized.map SizedField.name).Nodup ∧
      (rest ≠ [] → (Placement.empty.addAll sized).stop = none) ∧
      (declareStruct env decl).exec s =
        match (Placement.empty.addAll sized).finish? decl.name.name with
        | some record => (some (), { t with records := t.records.insert record })
        | none => (none, t.add (.recordTooLarge decl.name.name) (some decl.name.span)) := by
  obtain ⟨looked, rest, sized, t, split, resolves, run, distinct, stopped⟩ :=
    resolves_of_placeFields clean .nil
  refine ⟨looked, rest, sized, t, split, resolves, distinct, stopped, ?_⟩
  rw [exec_declareStruct, RecordTable.contains_eq_false_iff.mpr fresh, run]
  rfl

/-- A struct of which no field fails has the shape that C gives to it. It is declared with just
these numbers if its size fits 32 bits, and it is refused as too large, and for nothing else, if
not. The fields that are not looked at do not matter: whatever they are, the size does not fit. -/
theorem declareStruct_exact {decl : Source.StructDecl}
    (fresh : s.records.find? decl.name.name = none)
    (clean : ((placeFields env .empty decl.fields).run s : Placement × State).2.reports.errorCount =
      s.reports.errorCount) :
    ∃ looked rest sized t, ∃ shape : Shape, decl.fields = looked ++ rest ∧
      Resolves env s looked sized t ∧ t.reports = s.reports ∧
      (sized.map SizedField.name).Nodup ∧ shape.Natural ∧ SizedField.Has sized shape.fields ∧
      (rest ≠ [] →
        ∀ whole : Shape, whole.Natural → shape.fields <+: whole.fields → 2 ^ 32 ≤ whole.size) ∧
      (shape.size < 2 ^ 32 → rest = [] ∧ ∃ record : PlacedRecord,
        (declareStruct env decl).exec s = (some (), { t with records := t.records.insert record }) ∧
          record.name = decl.name.name ∧ record.fields.map PlacedField.sized = sized ∧
          record.shape = shape ∧
          record.fields.Pairwise (fun f g => f.extent.stop ≤ g.extent.offset) ∧
          ∀ f ∈ record.fields, f.extent.stop ≤ record.size.toNat) ∧
      (2 ^ 32 ≤ shape.size → (declareStruct env decl).exec s =
        (none, t.add (.recordTooLarge decl.name.name) (some decl.name.span))) := by
  obtain ⟨looked, rest, sized, t, split, resolves, distinct, stopped, exec⟩ :=
    exec_declareStruct_of_clean fresh clean
  obtain ⟨shape, natural, sizes, made, overflow⟩ := Placement.finish?_addAll sized decl.name.name
  have unlooked : rest ≠ [] → ∀ whole : Shape, whole.Natural → shape.fields <+: whole.fields →
      2 ^ 32 ≤ whole.size := fun more => overflow (stopped more)
  refine ⟨looked, rest, sized, t, shape, split, resolves, resolves.reports_eq, distinct, natural,
    sizes, unlooked, fun small => ?_, fun large => ?_⟩
  · rcases made with ⟨record, finished, name, fields, same⟩ | ⟨-, large⟩
    · obtain ⟨behind, inside⟩ := natural.pairwise
      rw [← same] at behind inside
      refine ⟨?_, record, by rw [exec, finished], name, fields, same,
        List.pairwise_map.mp behind, fun f hf => inside _ (List.mem_map_of_mem hf)⟩
      by_contra more
      have large := unlooked more shape natural (List.prefix_refl _)
      omega
    · omega
  · rcases made with ⟨record, -, -, -, same⟩ | ⟨unfinished, -⟩
    · rw [← same] at large
      exact absurd record.size.toNat_lt (Nat.not_lt.mpr large)
    · rw [exec, unfinished]

/-- A table that knows an aggregate of seven bytes less than 32 bits have numbers for. -/
def blobs : State := ⟨[⟨"Blob", 4294967289, 8, []⟩], []⟩

/-- A struct around that aggregate. -/
def boxing : Source.StructDecl :=
  let ident (name : String) : Source.Ident := ⟨name, ⟨0, 0⟩⟩
  ⟨ident "S", [⟨ident "blob", .named (ident "Blob")⟩], ⟨0, 0⟩⟩

/-- The end of the field fits 32 bits, and what the struct is filled up to does not. -/
theorem declareStruct_exact_boxing :
    let env : Env := ⟨8, fun _ => none⟩
    blobs.records.find? boxing.name.name = none ∧
      ((placeFields env .empty boxing.fields).run blobs).2.reports.errorCount =
        blobs.reports.errorCount ∧
      ∃ (shape : Shape) (t : State), shape.Natural ∧ 2 ^ 32 ≤ shape.size ∧
        t.reports = blobs.reports ∧
        (declareStruct env boxing).exec blobs =
          (none, t.add (.recordTooLarge "S") (some ⟨0, 0⟩)) := by
  intro env
  have fresh : blobs.records.find? boxing.name.name = none := by decide
  have clean : ((placeFields env .empty boxing.fields).run blobs :
      Placement × State).2.reports.errorCount = blobs.reports.errorCount := by decide
  have refused : ((declareStruct env boxing).exec blobs).1 = none := by decide
  obtain ⟨_, _, _, t, shape, -, -, quiet, -, natural, -, -, accepted, tooLarge⟩ :=
    declareStruct_exact fresh clean
  have large : 2 ^ 32 ≤ shape.size := by
    by_contra small
    obtain ⟨-, _, exec, -⟩ := accepted (Nat.lt_of_not_le small)
    rw [exec] at refused
    cases refused
  exact ⟨fresh, clean, shape, t, natural, large, quiet, tooLarge large⟩

end CallThunk.Checked
