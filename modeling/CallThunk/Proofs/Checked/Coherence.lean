import CallThunk.Proofs.Checked.Resolution
import CallThunk.Proofs.Wrapper.Checking

/-!
# Coherent tables of records

A table of records is coherent when no name is used twice and the fields of its records only mention
records that the table knows. Checking adds a record when it meets its declaration, and also when it
meets a name that only the type system knows; the second way is open while the fields of a struct
are resolved, after the name of the struct has been found to be new. So declaring keeps a table
coherent for every struct but one that mentions its own name.
-/

namespace CallThunk

/-! ## Names in type expressions -/

namespace Source

mutual
/-- The names in a type expression that must be names of records, the result of a function type
before its parameters. -/
def TyExpr.recordNames : TyExpr → List String
  | .named ident => if (Ty.builtin? ident.name).isSome then [] else [ident.name]
  | .pointer pointee _ => pointee.recordNames
  | .function params _ ret _ => TyExpr.recordNamesResult ret ++ TyExpr.recordNamesAll params
def TyExpr.recordNamesAll : List TyExpr → List String
  | [] => []
  | ty :: tys => ty.recordNames ++ TyExpr.recordNamesAll tys
def TyExpr.recordNamesResult : Option TyExpr → List String
  | none => []
  | some ty => ty.recordNames
end

/-- A struct definition of which a field mentions the struct. -/
def StructDecl.MentionsItself (decl : StructDecl) : Prop :=
  decl.name.name ∈ decl.fields.flatMap fun field => field.ty.recordNames

instance (decl : StructDecl) : Decidable decl.MentionsItself :=
  inferInstanceAs (Decidable (decl.name.name ∈ _))

end Source

/-! ## Tables -/

namespace RecordTable

variable {table later : RecordTable} {record : PlacedRecord} {ty : Ty}

/-- The names of the records, in the order in which they became known. -/
def names (table : RecordTable) : List String := table.map PlacedRecord.name

/-- An insertion keeps all names in place and appends one, whether it is new or not. -/
theorem names_insert (table : RecordTable) (record : PlacedRecord) :
    (table.insert record).names = table.names ++ [record.name] := by
  unfold names insert
  rw [List.map_append, List.map_map, List.map_singleton]
  congr 1
  refine List.map_congr_left fun r _ => ?_
  show (if r.name = record.name then record else r).name = r.name
  split
  next same => exact same.symm
  next => rfl

theorem mem_names_iff {name : String} :
    name ∈ table.names ↔ ∃ record, table.find? name = some record := by
  constructor
  · intro h
    rw [← Option.ne_none_iff_exists']
    obtain ⟨record, member, named⟩ := List.mem_map.mp h
    exact fun none => List.find?_eq_none.mp none record member (decide_eq_true named)
  · rintro ⟨record, found⟩
    exact List.mem_map.mpr ⟨record, mem_of_find? found, name_of_find? found⟩

theorem find?_eq_none_iff {name : String} : table.find? name = none ↔ name ∉ table.names := by
  rw [mem_names_iff, ← Option.ne_none_iff_exists', not_not]

/-- A table knows all records that a type mentions. -/
def Covers (table : RecordTable) (ty : Ty) : Prop := ∀ r ∈ ty.mentions, table.Knows r

theorem Covers.extend (ext : later.Extends table) (h : table.Covers ty) : later.Covers ty :=
  fun r hr => (h r hr).extend ext

/-- No two records have the same name, and all records that fields mention are known. -/
structure Coherent (table : RecordTable) : Prop where
  distinct : table.names.Nodup
  closed : ∀ record ∈ table, ∀ field ∈ record.fields, table.Covers field.ty

namespace Coherent

theorem nil : Coherent [] := ⟨List.nodup_nil, nofun⟩

theorem insert (h : table.Coherent) (fresh : table.find? record.name = none)
    (covered : ∀ field ∈ record.fields, table.Covers field.ty) :
    (table.insert record).Coherent where
  distinct := by
    rw [names_insert, List.nodup_append]
    refine ⟨h.distinct, List.nodup_singleton _, ?_⟩
    rintro name old _ new rfl
    rw [List.mem_singleton.mp new] at old
    exact find?_eq_none_iff.mp fresh old
  closed r hr field hfield := by
    have ext := extends_insert fresh
    rcases mem_insert hr with rfl | old
    · exact (covered field hfield).extend ext
    · exact (h.closed r old field hfield).extend ext

/-- A record without fields mentions nothing. -/
theorem insert_opaque (h : table.Coherent) {name : String} (fresh : table.find? name = none)
    (size align : UInt32) : (table.insert ⟨name, size, align, []⟩).Coherent :=
  h.insert fresh fun _ hf => absurd hf List.not_mem_nil

/-- A name that is inserted a second time stays double. -/
theorem not_insert (known : record.name ∈ table.names) :
    ¬ (table.insert record).names.Nodup := by
  rw [names_insert, List.nodup_append]
  rintro ⟨-, -, apart⟩
  exact apart _ known _ (List.mem_singleton_self _) rfl

end Coherent

end RecordTable

namespace Checked

variable {α β : Type} {env : Env} {s s' : State}

/-! ## What checks do to a table -/

theorem Steps.coherent (h : Steps env s s') (hs : s.records.Coherent) : s'.records.Coherent := by
  induction h with
  | refl => exact hs
  | tail _ step ih =>
      cases step with
      | report p span => exact ih
      | adopt undeclared known => exact ih.insert_opaque undeclared _ _

theorem Steps.names_kept (h : Steps env s s') : s.records.names <+: s'.records.names := by
  induction h with
  | refl => exact List.prefix_rfl
  | tail _ step ih =>
      cases step with
      | report p span => exact ih
      | adopt undeclared known =>
          rw [RecordTable.names_insert]
          exact ih.trans (List.prefix_append ..)

/-- A check that adopts no record of a name. -/
def Check.Spares (name : String) (x : Check α) : Prop :=
  ∀ s, s.records.find? name = none → (x.exec s).2.records.find? name = none

namespace Check.Spares

variable {name : String}

theorem pure (a : α) : (Pure.pure a : Check α).Spares name := fun _ h => h

theorem reject (p : Problem) (span : Source.Span) : (Checked.reject p span : Check α).Spares name :=
  fun _ h => h

theorem bind {x : Check α} {f : α → Check β} (hx : x.Spares name)
    (hf : ∀ a, (f a).Spares name) : (x >>= f).Spares name := by
  intro s h
  have first := hx s h
  rw [exec_bind]
  rcases hr : x.exec s with ⟨_ | a, t⟩ <;> rw [hr] at first
  · exact first
  · exact hf a t first

theorem cons {x : Check α} {xs : Check (List α)} (hx : x.Spares name) (hxs : xs.Spares name) :
    (x.cons xs).Spares name := by
  intro s h
  rw [exec_cons]
  exact hxs _ (hx s h)

end Check.Spares

/-! ## Resolving types -/

theorem spares_namedTy {name : String} {ident : Source.Ident}
    (h : name ∉ (Source.TyExpr.named ident).recordNames) : (namedTy env ident).Spares name := by
  intro s undeclared
  rw [exec_namedTy]
  split
  next => exact undeclared
  next free =>
    split
    next => exact undeclared
    next =>
      split
      next size align known =>
        rw [Source.TyExpr.recordNames, free, if_neg (by simp), List.mem_singleton] at h
        dsimp only
        rw [RecordTable.find?_insert, if_neg fun same => h same.symm]
        exact undeclared
      next => exact undeclared

theorem spares_admitParam {name : String} (ty : Ty) (span : Source.Span) :
    (admitParam ty span).Spares name := by
  unfold admitParam
  split
  · exact .reject _ _
  · exact .reject _ _
  · exact .pure _

mutual
/-- Resolving a type expression adopts records of its own names only. -/
theorem spares_tyOf {name : String} : {e : Source.TyExpr} → name ∉ e.recordNames →
    (tyOf env e).Spares name
  | .named ident, h => by
      rw [tyOf]
      exact spares_namedTy h
  | .pointer pointee _, h => by
      rw [Source.TyExpr.recordNames] at h
      rw [tyOf]
      exact (spares_tyOf h).bind fun _ => .pure _
  | .function params variadic ret span, h => by
      rw [Source.TyExpr.recordNames, List.mem_append, not_or] at h
      intro s undeclared
      rw [exec_tyOf_function]
      exact spares_resultTy h.1 _ (spares_paramTys h.2 s undeclared)
theorem spares_paramTys {name : String} : {es : List Source.TyExpr} →
    name ∉ Source.TyExpr.recordNamesAll es → Check.Spares name (.mk (paramTys env es))
  | [], _ => .pure []
  | e :: es, h => by
      rw [Source.TyExpr.recordNamesAll, List.mem_append, not_or] at h
      rw [paramTys_cons]
      exact ((spares_tyOf h.1).bind fun _ => spares_admitParam _ _).cons (spares_paramTys h.2)
theorem spares_resultTy {name : String} : {ret : Option Source.TyExpr} →
    name ∉ Source.TyExpr.recordNamesResult ret → (resultTy env ret).Spares name
  | none, _ => .pure _
  | some ret, h => by
      rw [resultTy]
      exact spares_tyOf h
end

/-- A name is resolved to a record that is known from then on. -/
theorem covers_of_namedTy {ident : Source.Ident} {ty : Ty}
    (h : (namedTy env ident).Gives s ty s') :
    s'.records.Covers ty ∧
      ty.mentions.map RecordTy.name = (Source.TyExpr.named ident).recordNames := by
  unfold Check.Gives at h
  rw [exec_namedTy] at h
  rw [Source.TyExpr.recordNames]
  split at h
  next builtin =>
    cases h
    rw [if_pos (by simp [builtin])]
    unfold RecordTable.Covers
    rw [mentions_of_builtin builtin]
    exact ⟨fun _ hr => absurd hr List.not_mem_nil, rfl⟩
  next free =>
    rw [if_neg (by simp [free])]
    split at h
    next record found =>
      cases h
      have name := RecordTable.name_of_find? found
      refine ⟨fun r hr => ?_, congrArg (fun name => [name]) name⟩
      rw [List.mem_singleton.mp hr]
      exact ⟨(congrArg Ty.builtin? name).trans free, record,
        (congrArg s.records.find? name).trans found, rfl⟩
    next =>
      split at h
      next size align known =>
        cases h
        refine ⟨fun r hr => ?_, rfl⟩
        rw [List.mem_singleton.mp hr]
        exact ⟨free, _, by rw [RecordTable.find?_insert, if_pos rfl], rfl⟩
      next => cases h

mutual
/-- All records of a resolved type are known from then on, and their names are those in the type
expression. -/
theorem covers_of_tyOf : {e : Source.TyExpr} → {ty : Ty} → {s s' : State} →
    (tyOf env e).Gives s ty s' →
      s'.records.Covers ty ∧ ty.mentions.map RecordTy.name = e.recordNames
  | .named ident, _, _, _, h => by
      rw [tyOf] at h
      exact covers_of_namedTy h
  | .pointer pointee _, _, _, _, h => by
      rw [tyOf] at h
      simp only [Check.gives_bind, Check.gives_pure] at h
      obtain ⟨ty, _, hty, rfl, rfl⟩ := h
      obtain ⟨covered, names⟩ := covers_of_tyOf hty
      rw [Source.TyExpr.recordNames]
      exact ⟨covered, names⟩
  | .function params variadic ret span, _, s, s', h => by
      unfold Check.Gives at h
      rw [exec_tyOf_function] at h
      obtain ⟨result, rfl⟩ := Prod.mk.injEq .. ▸ h
      obtain ⟨r, hr, rest⟩ := Option.bind_eq_some_iff.mp result
      obtain ⟨tys, htys, rfl⟩ := Option.map_eq_some_iff.mp rest
      have first : Check.Gives (.mk (paramTys env params)) s tys _ := Prod.ext htys rfl
      have second : (resultTy env ret).Gives _ r _ := Prod.ext hr rfl
      have ext := ((lawful_resultTy ret).steps_of_gives second).extends
      obtain ⟨takes, takenNames⟩ := covers_of_paramTys first
      obtain ⟨gives, givenNames⟩ := covers_of_resultTy second
      constructor
      · intro record hrecord
        rcases List.mem_append.mp hrecord with result | param
        · exact gives record result
        · exact (takes record param).extend ext
      · rw [Source.TyExpr.recordNames, ← givenNames, ← takenNames, Ty.mentions, List.map_append]
theorem covers_of_paramTys : {es : List Source.TyExpr} → {tys : List Ty} → {s s' : State} →
    Check.Gives (.mk (paramTys env es)) s tys s' →
      (∀ r ∈ Ty.mentionsAll tys, s'.records.Knows r) ∧
        (Ty.mentionsAll tys).map RecordTy.name = Source.TyExpr.recordNamesAll es
  | [], _, _, _, h => by
      obtain ⟨rfl, -⟩ := Check.gives_pure.mp h
      exact ⟨nofun, rfl⟩
  | e :: es, _, _, _, h => by
      rw [paramTys_cons, Check.gives_cons] at h
      obtain ⟨p, t, tys, hp, htys, rfl⟩ := h
      obtain ⟨ty, u, hty, hadmit⟩ := Check.gives_bind.mp hp
      obtain ⟨rfl, -, rfl⟩ := admitParam_gives hadmit
      have ext := ((lawful_paramTys es).steps_of_gives htys).extends
      obtain ⟨first, firstNames⟩ := covers_of_tyOf hty
      obtain ⟨rest, restNames⟩ := covers_of_paramTys htys
      constructor
      · intro record hrecord
        rcases List.mem_append.mp hrecord with head | tail
        · exact (first record head).extend ext
        · exact rest record tail
      · rw [Source.TyExpr.recordNamesAll, ← firstNames, ← restNames, Ty.mentionsAll,
          List.map_append]
theorem covers_of_resultTy : {ret : Option Source.TyExpr} → {ty : Ty} → {s s' : State} →
    (resultTy env ret).Gives s ty s' →
      s'.records.Covers ty ∧
        ty.mentions.map RecordTy.name = Source.TyExpr.recordNamesResult ret
  | none, _, _, _, h => by
      obtain ⟨rfl, -⟩ := Check.gives_pure.mp h
      exact ⟨nofun, rfl⟩
  | some ret, _, _, _, h => by
      rw [resultTy] at h
      exact covers_of_tyOf h
end

/-! ## Fields -/

theorem spares_fieldTy {name : String} {field : Source.Typed} (h : name ∉ field.ty.recordNames) :
    Check.Spares name (do
      let ty ← tyOf env field.ty
      match env.storage? ty with
      | some (size, align) => return (ty, size, align)
      | none => reject .voidField field.ty.span) := by
  refine (spares_tyOf h).bind fun ty => ?_
  split
  · exact .pure _
  · exact .reject _ _

theorem spares_inferField {name : String} {placed : Placement} {field : Source.Typed}
    (h : name ∉ field.ty.recordNames) : (inferField env placed field).Spares name := by
  unfold inferField
  dsimp only
  split
  · exact .bind (.reject _ _) fun _ => spares_fieldTy h
  · exact spares_fieldTy h

theorem spares_placeFields {name : String} {placed : Placement} {fields : List Source.Typed}
    {s : State} (h : name ∉ fields.flatMap fun field => field.ty.recordNames)
    (undeclared : s.records.find? name = none) :
    ((placeFields env placed fields).run s : Placement × State).2.records.find? name = none := by
  induction fields generalizing placed s with
  | nil => exact undeclared
  | cons field fields ih =>
      rw [List.flatMap_cons, List.mem_append, not_or] at h
      have first := @spares_inferField env name placed field h.1 s undeclared
      rw [run_placeFields_cons]
      rcases hr : (inferField env placed field).exec s with ⟨_ | ⟨ty, size, align⟩, t⟩ <;>
        rw [hr] at first
      · exact ih h.2 first
      · dsimp only
        cases placed.add? field.name.name ty size align with
        | none => exact first
        | some placed' => exact ih h.2 first

theorem covers_of_placeFields {placed : Placement} {fields : List Source.Typed} {s : State}
    (hp : ∀ field ∈ placed.fields, s.records.Covers field.ty) :
    ∀ field ∈ ((placeFields env placed fields).run s : Placement × State).1.fields,
      ((placeFields env placed fields).run s : Placement × State).2.records.Covers field.ty := by
  induction fields generalizing placed s with
  | nil => exact hp
  | cons field fields ih =>
      have ext := ((@lawful_inferField env placed field).steps s).extends
      rw [run_placeFields_cons]
      rcases hr : (inferField env placed field).exec s with ⟨_ | ⟨ty, size, align⟩, t⟩ <;>
        rw [hr] at ext
      · exact ih fun f hf => (hp f hf).extend ext
      · dsimp only
        cases added : placed.add? field.name.name ty size align with
        | none => exact fun f hf => (hp f hf).extend ext
        | some placed' =>
            obtain ⟨-, resolved, -⟩ := gives_inferField.mp hr
            obtain ⟨offset, hfields⟩ := Placement.fields_of_add? added
            refine ih fun f hf => ?_
            rw [hfields] at hf
            rcases List.mem_append.mp hf with old | new
            · exact (hp f old).extend ext
            · rw [List.mem_singleton.mp new]
              exact (covers_of_tyOf resolved).1

/-- When no field fails and all of them have a place, every name that they mention is known. -/
theorem mem_names_of_placeFields {placed : Placement} {fields : List Source.Typed} {s : State}
    (clean : ((placeFields env placed fields).run s : Placement × State).2.reports.errorCount =
      s.reports.errorCount)
    (fits : ((placeFields env placed fields).run s : Placement × State).1.stop ≠ none) :
    ∀ name ∈ fields.flatMap fun field => field.ty.recordNames,
      name ∈ ((placeFields env placed fields).run s : Placement × State).2.records.names := by
  induction fields generalizing placed s with
  | nil => exact nofun
  | cons field fields ih =>
      have before := ((@lawful_inferField env placed field).steps s).errorCount_le
      have loud := (@lawful_inferField env placed field).loud s
      rw [run_placeFields_cons] at clean fits ⊢
      rcases hr : (inferField env placed field).exec s with ⟨_ | ⟨ty, size, align⟩, t⟩ <;>
        rw [hr] at before loud clean fits
      · -- The field has reported an error, and nothing takes it back.
        have behind := (@steps_placeFields env placed fields t).errorCount_le
        have failed := loud rfl
        dsimp only at clean failed
        omega
      dsimp only at clean fits before ⊢
      cases added : placed.add? field.name.name ty size align with
      | none =>
          rw [added] at fits
          exact absurd rfl fits
      | some placed' =>
          rw [added] at clean fits
          have behind := @steps_placeFields env placed' fields t
          have same := behind.errorCount_le
          dsimp only at clean fits
          intro name hname
          rw [List.flatMap_cons, List.mem_append] at hname
          rcases hname with here | later
          · obtain ⟨-, resolved, -⟩ := gives_inferField.mp hr
            obtain ⟨covered, names⟩ := covers_of_tyOf resolved
            rw [← names] at here
            obtain ⟨r, hr, rfl⟩ := List.mem_map.mp here
            obtain ⟨record, found, -⟩ := (covered r hr).found
            exact behind.names_kept.subset (RecordTable.mem_names_iff.mpr ⟨record, found⟩)
          · exact ih (by omega) fits name later

/-! ## Declarations -/

/-- Declaring an item keeps the table coherent, unless it is a struct that mentions itself. -/
theorem coherent_declareItem {item : Source.Item}
    (plain : ∀ decl, item = .structItem decl → ¬ decl.MentionsItself) (hs : s.records.Coherent) :
    ((declareItem env item).exec s).2.records.Coherent := by
  cases item with
  | functionItem decl => exact hs
  | opaqueItem decl =>
      rw [declareItem, exec_declareOpaque]
      split
      · exact hs
      next fresh =>
        split
        · exact hs.insert_opaque (RecordTable.contains_eq_false_iff.mp (by simpa using fresh)) _ _
        · exact hs
  | structItem decl =>
      have placed := (@steps_placeFields env .empty decl.fields s).coherent hs
      have covered := @covers_of_placeFields env .empty decl.fields s
        fun _ hf => absurd hf List.not_mem_nil
      rw [declareItem, exec_declareStruct]
      split
      · exact hs
      next fresh =>
        have undeclared := RecordTable.contains_eq_false_iff.mp
          (show s.records.contains decl.name.name = false by simpa using fresh)
        have spared := @spares_placeFields env decl.name.name .empty decl.fields s
          (plain decl rfl) undeclared
        dsimp only
        split
        next record finished =>
          -- The name was new before the fields, which adopt other names only.
          refine placed.insert ?_ ?_
          · rw [Placement.name_of_finish? finished]
            exact spared
          · rw [Placement.fields_of_finish? finished]
            exact covered
        next => exact placed

theorem coherent_declareAll {items : List Source.Item}
    (plain : ∀ decl, .structItem decl ∈ items → ¬ decl.MentionsItself) {s : State}
    (hs : s.records.Coherent) :
    ((declareAll env items).run s : PUnit × State).2.records.Coherent := by
  induction items generalizing s with
  | nil => exact hs
  | cons item items ih =>
      rw [run_declareAll_cons]
      refine ih (fun decl hd => plain decl (List.mem_cons_of_mem _ hd)) ?_
      refine coherent_declareItem ?_ hs
      rintro decl rfl
      exact plain decl (List.mem_cons_self ..)

/-- Declaring an item leaves all names in place. -/
theorem names_declareItem (item : Source.Item) (s : State) :
    s.records.names <+: ((declareItem env item).exec s).2.records.names := by
  cases item with
  | functionItem decl => exact List.prefix_rfl
  | opaqueItem decl =>
      rw [declareItem, exec_declareOpaque]
      split
      · exact List.prefix_rfl
      · split
        · rw [RecordTable.names_insert]
          exact List.prefix_append ..
        · exact List.prefix_rfl
  | structItem decl =>
      have placed := (@steps_placeFields env .empty decl.fields s).names_kept
      rw [declareItem, exec_declareStruct]
      split
      · exact List.prefix_rfl
      · dsimp only
        split
        next record finished =>
          rw [RecordTable.names_insert]
          exact placed.trans (List.prefix_append ..)
        next => exact placed

theorem names_declareAll (items : List Source.Item) (s : State) :
    s.records.names <+: ((declareAll env items).run s : PUnit × State).2.records.names := by
  induction items generalizing s with
  | nil => exact List.prefix_rfl
  | cons item items ih =>
      rw [run_declareAll_cons]
      exact (names_declareItem item s).trans (ih _)

/-- A struct that mentions itself is declared under a name that its own fields have added. -/
theorem not_distinct_declareStruct {decl : Source.StructDecl} (self : decl.MentionsItself)
    (clean : ((declareItem env (.structItem decl)).exec s).2.reports.errorCount =
      s.reports.errorCount) :
    ¬ ((declareItem env (.structItem decl)).exec s).2.records.names.Nodup := by
  have placed := (@steps_placeFields env .empty decl.fields s).errorCount_le
  have mentioned := @mem_names_of_placeFields env .empty decl.fields s
  rw [declareItem, exec_declareStruct] at clean ⊢
  split at clean
  next known => exact absurd clean (Nat.ne_of_gt (s.errorCount_lt_add rfl _))
  next fresh =>
    rw [if_neg fresh]
    dsimp only at clean ⊢
    split at clean
    next record finished =>
      refine RecordTable.Coherent.not_insert ?_
      rw [Placement.name_of_finish? finished]
      refine mentioned clean ?_ _ self
      intro overflow
      unfold Placement.finish? at finished
      rw [overflow] at finished
      cases finished
    next =>
      refine absurd clean (Nat.ne_of_gt ?_)
      exact Nat.lt_of_le_of_lt placed (State.errorCount_lt_add _ rfl _)

end Checked

end CallThunk
