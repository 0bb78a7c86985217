import CallThunk.Proofs.Checked.Soundness
import CallThunk.Proofs.Source.Parsing
import CallThunk.Proofs.Ty.Spelling

/-!
# Resolving names of records

A type expression is resolved to the type it means when the records of that type are known. When
the type system adds nothing, the other direction holds as well: all records that a field mentions
were known before, under names that are identifiers.
-/

namespace CallThunk

open Source (Token TyExpr TyDerives ParamsDerive TypedDerives ListDerives ItemDerives UnitDerives
  isIdentifier)

namespace RecordTable

variable {table later : RecordTable} {r r' : RecordTy}

/-- A table knows a record: its name is no builtin type, and the table has a record of its name, its
size and its alignment. -/
structure Knows (table : RecordTable) (r : RecordTy) : Prop where
  free : Ty.builtin? r.name = none
  found : ∃ record, table.find? r.name = some record ∧ record.recordTy = r

theorem Knows.extend (ext : later.Extends table) (h : table.Knows r) : later.Knows r := by
  obtain ⟨record, found, same⟩ := h.found
  exact ⟨h.free, record, ext _ _ found, same⟩

/-- Known records of one name are the same record. -/
theorem Knows.unique (h : table.Knows r) (h' : table.Knows r') (name : r.name = r'.name) :
    r = r' := by
  obtain ⟨record, found, same⟩ := h.found
  obtain ⟨record', found', same'⟩ := h'.found
  rw [← name, found] at found'
  cases found'
  rw [← same, same']

/-- The records that fields mention are known, and their names are identifiers. -/
def Closed (table : RecordTable) : Prop :=
  ∀ record ∈ table, ∀ field ∈ record.fields, ∀ r ∈ field.ty.mentions,
    table.Knows r ∧ isIdentifier r.name

theorem Closed.insert {record : PlacedRecord} (h : table.Closed)
    (fresh : table.find? record.name = none)
    (fields : ∀ field ∈ record.fields, ∀ r ∈ field.ty.mentions,
      table.Knows r ∧ isIdentifier r.name) : (table.insert record).Closed := by
  have ext := extends_insert fresh
  intro found hmem field hfield r hr
  rcases mem_insert hmem with rfl | hold
  · obtain ⟨known, name⟩ := fields field hfield r hr
    exact ⟨known.extend ext, name⟩
  · obtain ⟨known, name⟩ := h found hold field hfield r hr
    exact ⟨known.extend ext, name⟩

end RecordTable

namespace Checked

variable {env : Env} {s s' : State}

/-! ## Known records resolve -/

theorem gives_named {ident : Source.Ident} {r : RecordTy} (name : ident.name = r.name)
    (known : s.records.Knows r) : (namedTy env ident).Gives s (.record r) s := by
  obtain ⟨record, found, same⟩ := known.found
  unfold Check.Gives
  rw [exec_namedTy, name, known.free, found]
  exact congrArg (fun r => (some (Ty.record r), s)) same

theorem gives_admitParam {ty : Ty} {span : Source.Span} (values : ty.hasValues) :
    (admitParam ty span).Gives s ty s := by
  cases ty with
  | void | record r => cases values
  | bool | int | float | pointer | function => rfl

mutual
/-- A type expression resolves to the type it means, and nothing is reported. -/
theorem gives_tyOf : {e : TyExpr} → {ty : Ty} → Means e ty →
    (∀ r ∈ ty.mentions, s.records.Knows r) → ty.wellFormed → (tyOf env e).Gives s ty s
  | .named ident, ty, .builtin h, _, _ => by
      rw [tyOf]
      unfold Check.Gives
      rw [exec_namedTy, h]
  | .named ident, _, .record name, known, _ => by
      rw [tyOf]
      exact gives_named name (known _ (List.mem_singleton_self _))
  | .pointer e _, _, .pointer h, known, formed => by
      rw [tyOf, Check.gives_bind]
      exact ⟨_, s, gives_tyOf h known formed, rfl⟩
  | .function es _ (some e) _, .function ret tys variadic, .function params result, known,
      formed => by
      obtain ⟨formedRet, formedParams⟩ := Bool.and_eq_true_iff.mp formed
      have takes := gives_paramTys params (fun r hr => known r (List.mem_append_right _ hr))
        formedParams
      have gives := gives_tyOf result (fun r hr => known r (List.mem_append_left _ hr)) formedRet
      unfold Check.Gives at takes gives ⊢
      rw [exec_tyOf_function, takes]
      dsimp only
      rw [resultTy, gives]
      rfl
  | .function es _ none _, .function .void tys variadic, .procedure params, known, formed => by
      obtain ⟨-, formedParams⟩ := Bool.and_eq_true_iff.mp formed
      have takes := gives_paramTys params (fun r hr => known r (List.mem_append_right _ hr))
        formedParams
      unfold Check.Gives at takes ⊢
      rw [exec_tyOf_function, takes]
      rfl
theorem gives_paramTys : {es : List TyExpr} → {tys : List Ty} → MeansAll es tys →
    (∀ r ∈ Ty.mentionsAll tys, s.records.Knows r) → Ty.wellFormedParams tys →
      Check.Gives (.mk (paramTys env es)) s tys s
  | [], _, .nil, _, _ => rfl
  | e :: es, ty :: tys, .cons head tail, known, formed => by
      obtain ⟨formed, formedRest⟩ := Bool.and_eq_true_iff.mp formed
      obtain ⟨values, formed⟩ := Bool.and_eq_true_iff.mp formed
      have first := gives_tyOf head (fun r hr => known r (List.mem_append_left _ hr)) formed
      have rest := gives_paramTys tail (fun r hr => known r (List.mem_append_right _ hr)) formedRest
      rw [paramTys_cons, Check.gives_cons]
      exact ⟨ty, s, tys, Check.gives_bind.mpr ⟨ty, s, first, gives_admitParam values⟩, rest, rfl⟩
end

/-! ## Resolved records were known -/

/-- Nothing is adopted when the type system adds nothing. -/
theorem Steps.records_eq (alone : ∀ name, env.external? name = none) (h : Steps env s s') :
    s'.records = s.records := by
  induction h with
  | refl => rfl
  | tail _ step ih =>
      cases step with
      | report p span => exact ih
      | adopt undeclared known =>
          rw [alone] at known
          cases known

theorem mentions_of_builtin {name : String} {ty : Ty} (h : Ty.builtin? name = some ty) :
    ty.mentions = [] := by
  unfold Ty.builtin? at h
  split at h <;> cases h <;> rfl

/-- All tokens that are identifiers are spelled as ones. -/
def Clean (ts : List Token) : Prop := ∀ t ∈ ts, t.kind = .ident → isIdentifier t.lexeme

theorem Clean.mono {ts us : List Token} (h : Clean ts) (sub : us ⊆ ts) : Clean us :=
  fun t ht => h t (sub ht)

theorem mem_of_listDerives {α : Type} {D : List Token → α → Prop} {ts : List Token} {xs : List α}
    (h : ListDerives D ts xs) {x : α} (hx : x ∈ xs) : ∃ us, D us x ∧ us ⊆ ts := by
  induction h with
  | nil => cases hx
  | last only =>
      rw [List.mem_singleton.mp hx]
      exact ⟨_, only, fun _ ht => ht⟩
  | cons first _ _ ih =>
      rcases List.mem_cons.mp hx with rfl | hx
      · exact ⟨_, first, fun t ht => by simp [ht]⟩
      · obtain ⟨us, derived, sub⟩ := ih hx
        exact ⟨us, derived, fun t ht => by simp [sub ht]⟩

/-- The types of fields are written with clean tokens. -/
def CleanFields (fields : List Source.Typed) : Prop :=
  ∀ field ∈ fields, ∃ ts, TyDerives ts field.ty ∧ Clean ts

theorem cleanFields_of_derives {ts : List Token} {fields : List Source.Typed}
    (h : ListDerives TypedDerives ts fields) (clean : Clean ts) : CleanFields fields := by
  intro field hfield
  obtain ⟨us, derived, sub⟩ := mem_of_listDerives h hfield
  cases derived with
  | mk _ _ typed => exact ⟨_, typed, clean.mono fun t ht => sub (by simp [ht])⟩

section
variable (alone : ∀ name, env.external? name = none)
include alone

theorem knows_of_namedTy {t : Token} {ty : Ty} (kind : t.kind = .ident) (clean : Clean [t])
    (h : (namedTy env t.ident).Gives s ty s') :
    ∀ r ∈ ty.mentions, s.records.Knows r ∧ isIdentifier r.name := by
  unfold Check.Gives at h
  rw [exec_namedTy] at h
  split at h
  next builtin =>
    cases h
    rw [mentions_of_builtin builtin]
    exact fun _ hr => absurd hr List.not_mem_nil
  next free =>
    split at h
    next record found =>
      cases h
      intro r hr
      rw [List.mem_singleton.mp hr]
      have name : record.name = t.lexeme := RecordTable.name_of_find? found
      refine ⟨⟨?_, record, ?_, rfl⟩, ?_⟩
      · exact (congrArg Ty.builtin? name).trans free
      · exact (congrArg s.records.find? name).trans found
      · show isIdentifier record.name
        rw [name]
        exact clean t (List.mem_singleton_self t) kind
    next =>
      rw [alone] at h
      cases h

mutual
/-- A type expression only resolves to a type with known records. -/
theorem knows_of_tyOf : {ts : List Token} → {e : TyExpr} → {ty : Ty} → {s s' : State} →
    TyDerives ts e → Clean ts → (tyOf env e).Gives s ty s' →
      ∀ r ∈ ty.mentions, s.records.Knows r ∧ isIdentifier r.name
  | _, _, _, _, _, .named kind, clean, h => by
      rw [tyOf] at h
      exact knows_of_namedTy alone kind clean h
  | _, _, _, _, _, .pointer _ inner, clean, h => by
      rw [tyOf] at h
      simp only [Check.gives_bind, Check.gives_pure] at h
      obtain ⟨ty, _, hty, rfl, -⟩ := h
      intro r hr
      rw [Ty.mentions] at hr
      exact knows_of_tyOf inner (clean.mono fun t ht => by simp [ht]) hty r hr
  | _, .function params variadic none _, _, s, _, .function _ _ takes _, clean, h => by
      unfold Check.Gives at h
      rw [exec_tyOf_function] at h
      obtain ⟨result, -⟩ := Prod.mk.injEq .. ▸ h
      obtain ⟨ret, hret, rest⟩ := Option.bind_eq_some_iff.mp result
      obtain ⟨tys, htys, rfl⟩ := Option.map_eq_some_iff.mp rest
      have passed : Check.Gives (.mk (paramTys env params)) s tys _ := Prod.ext htys rfl
      cases hret
      intro r hr
      exact knows_of_paramTys takes (clean.mono fun t ht => by simp [ht]) passed r hr
  | _, .function params variadic (some ret) _, _, s, _, .functionTo _ _ takes _ _ gives, clean,
      h => by
      unfold Check.Gives at h
      rw [exec_tyOf_function] at h
      obtain ⟨result, -⟩ := Prod.mk.injEq .. ▸ h
      obtain ⟨ty, hty, rest⟩ := Option.bind_eq_some_iff.mp result
      obtain ⟨tys, htys, rfl⟩ := Option.map_eq_some_iff.mp rest
      have passed : Check.Gives (.mk (paramTys env params)) s tys _ := Prod.ext htys rfl
      have given : (tyOf env ret).Gives _ ty _ := Prod.ext hty rfl
      have same := ((lawful_paramTys params).steps_of_gives passed).records_eq alone
      intro r hr
      rcases List.mem_append.mp hr with hr | hr
      · have known := knows_of_tyOf gives (clean.mono fun t ht => by simp [ht]) given r hr
        rwa [same] at known
      · exact knows_of_paramTys takes (clean.mono fun t ht => by simp [ht]) passed r hr
theorem knows_of_paramTys : {ts : List Token} → {es : List TyExpr} → {variadic : Bool} →
    {tys : List Ty} → {s s' : State} → ParamsDerive ts es variadic → Clean ts →
      Check.Gives (.mk (paramTys env es)) s tys s' →
        ∀ r ∈ Ty.mentionsAll tys, s.records.Knows r ∧ isIdentifier r.name
  | _, _, _, _, _, _, .nil, _, h | _, _, _, _, _, _, .variadic _, _, h => by
      obtain ⟨rfl, -⟩ := Check.gives_pure.mp h
      exact fun _ hr => nomatch hr
  | _, _, _, _, _, _, .last only, clean, h => by
      rw [paramTys_cons, Check.gives_cons] at h
      obtain ⟨p, t, tys, hp, htys, rfl⟩ := h
      obtain ⟨rfl, -⟩ := Check.gives_pure.mp htys
      obtain ⟨ty, u, hty, hadmit⟩ := Check.gives_bind.mp hp
      obtain ⟨rfl, -, -⟩ := admitParam_gives hadmit
      intro r hr
      rw [Ty.mentionsAll, Ty.mentionsAll, List.append_nil] at hr
      exact knows_of_tyOf only clean hty r hr
  | _, _, _, _, _, _, .cons first _ rest, clean, h => by
      rw [paramTys_cons, Check.gives_cons] at h
      obtain ⟨p, t, tys, hp, htys, rfl⟩ := h
      have same := (((lawful_tyOf _).bind fun _ => lawful_admitParam _ _).steps_of_gives
        hp).records_eq alone
      obtain ⟨ty, u, hty, hadmit⟩ := Check.gives_bind.mp hp
      obtain ⟨rfl, -, -⟩ := admitParam_gives hadmit
      intro r hr
      rcases List.mem_append.mp hr with hr | hr
      · exact knows_of_tyOf first (clean.mono fun t ht => by simp [ht]) hty r hr
      · have known := knows_of_paramTys rest (clean.mono fun t ht => by simp [ht]) htys r hr
        rwa [same] at known
end

/-! ## Declarations -/

theorem knows_of_placeFields {placed : Placement} {fields : List Source.Typed} {s : State}
    (clean : CleanFields fields)
    (hp : ∀ field ∈ placed.fields, ∀ r ∈ field.ty.mentions,
      s.records.Knows r ∧ isIdentifier r.name) :
    ∀ field ∈ ((placeFields env placed fields).run s : Placement × State).1.fields,
      ∀ r ∈ field.ty.mentions, s.records.Knows r ∧ isIdentifier r.name := by
  induction fields generalizing placed s with
  | nil => exact hp
  | cons field fields ih =>
      obtain ⟨ts, derived, cleanTy⟩ := clean field (List.mem_cons_self ..)
      have cleanRest : CleanFields fields := fun f hf => clean f (List.mem_cons_of_mem _ hf)
      have same := ((@lawful_inferField env placed field).steps s).records_eq alone
      rw [run_placeFields_cons]
      rcases hr : (inferField env placed field).exec s with ⟨_ | ⟨ty, size, align⟩, t⟩ <;>
        rw [hr] at same
      · rw [← same] at hp ⊢
        exact ih cleanRest hp
      · dsimp only
        cases added : placed.add? field.name.name ty size align with
        | none => exact hp
        | some placed' =>
            obtain ⟨-, resolved, -⟩ := gives_inferField.mp hr
            have known := knows_of_tyOf alone derived cleanTy resolved
            obtain ⟨offset, hfields⟩ := Placement.fields_of_add? added
            rw [← same] at hp known ⊢
            refine ih cleanRest ?_
            rw [hfields]
            intro f hf
            rcases List.mem_append.mp hf with hold | hnew
            · exact hp f hold
            · rw [List.mem_singleton.mp hnew]
              exact known

theorem closed_declareItem {ts : List Token} {item : Source.Item} (derived : ItemDerives ts item)
    (clean : Clean ts) (hs : s.records.Closed) :
    ((declareItem env item).exec s).2.records.Closed := by
  cases derived with
  | functionItem => exact hs
  | opaqueItem =>
      rw [declareItem, exec_declareOpaque]
      split
      · exact hs
      next fresh =>
        split
        · exact hs.insert (RecordTable.contains_eq_false_iff.mp (by simpa using fresh)) (by simp)
        · exact hs
  | @structItem _ name _ _ _ fields _ _ _ written _ =>
      have cleanFields := cleanFields_of_derives written (clean.mono fun t ht => by simp [ht])
      rw [declareItem, exec_declareStruct]
      split
      · exact hs
      next fresh =>
        have known := @knows_of_placeFields env alone .empty fields s cleanFields
          (by simp [Placement.empty])
        have same := (@steps_placeFields env .empty fields s).records_eq alone
        dsimp only
        split
        next record finished =>
          dsimp only
          rw [same]
          refine hs.insert ?_ ?_
          · rw [Placement.name_of_finish? finished]
            exact RecordTable.contains_eq_false_iff.mp (by simpa using fresh)
          · rw [Placement.fields_of_finish? finished]
            exact known
        next =>
          rw [State.records_add, same]
          exact hs

theorem closed_declareAll {ts : List Token} {items : List Source.Item}
    (derived : UnitDerives ts items) (clean : Clean ts) {s : State} (hs : s.records.Closed) :
    ((declareAll env items).run s : PUnit × State).2.records.Closed := by
  induction derived generalizing s with
  | nil => exact hs
  | cons first _ ih =>
      rw [run_declareAll_cons]
      exact ih (clean.mono fun t ht => by simp [ht])
        (closed_declareItem alone first (clean.mono fun t ht => by simp [ht]) hs)

/-- The records of a checked unit that was parsed mention known records only. -/
theorem closed_of_check {source : String} {unit : Source.SourceUnit} {program : Program}
    {reports reports' : Diagnostics}
    (parsed : Source.SourceUnit.parse source = (some unit, reports))
    (checked : check env unit = (some program, reports')) : program.records.Closed := by
  obtain ⟨-, derived, -⟩ := Source.parse_eq_some.mp parsed
  obtain ⟨gives, -⟩ := check_eq_some.mp checked
  have clean : Clean (Source.cut 0 0 source.toList).tokens := fun t ht =>
    Source.isIdentifier_of_mem_cut ht
  have declared := closed_declareAll alone derived clean
    (show RecordTable.Closed (State.mk [] []).records from fun _ hr => nomatch hr)
  have same := ((lawful_inferWrapper unit).steps_of_gives gives).records_eq alone
  show RecordTable.Closed (State.mk program.records reports').records
  rw [same]
  exact declared

end

end Checked

end CallThunk
