import CallThunk.Proofs.Checked.Coherence
import CallThunk.Proofs.Checked.Structs
import CallThunk.Proofs.Wrapper.Settling

/-!
# Declared items

What it takes for an item to be declared without an error, and what that leaves in the table. The
items of an accepted unit are all declared so, one after the other. Every record of its table is
then declared by one of them, or adopted from the type system under a name that was new.
-/

namespace CallThunk

/-- The name of the record that an item declares. -/
def Source.Item.recordName? : Source.Item → Option String
  | .opaqueItem decl => some decl.name.name
  | .structItem decl => some decl.name.name
  | .functionItem _ => none

namespace Checked

variable {env : Env} {s s' t : State} {record : PlacedRecord}

/-! ## Adopted records -/

/-- A record under a name that was new, as the type system gives it. -/
structure Adopted (env : Env) (s : State) (record : PlacedRecord) : Prop where
  fresh : record.name ∉ s.records.names
  known : env.external? record.name = some (record.size, record.align)
  fields : record.fields = []

/-- Effects of a check keep all records and adopt others. -/
theorem Steps.mem (h : Steps env s s') (member : record ∈ s'.records) :
    record ∈ s.records ∨ Adopted env s record := by
  induction h with
  | refl => exact .inl member
  | tail steps step ih =>
      cases step with
      | report p span => exact ih member
      | @adopt name size align undeclared known =>
          rcases RecordTable.mem_insert member with rfl | old
          · refine .inr ⟨fun declared => ?_, known, rfl⟩
            have kept := (Steps.names_kept steps).subset declared
            exact RecordTable.find?_eq_none_iff.mp undeclared kept
          · exact ih old

theorem name_mem_names (member : record ∈ s.records) : record.name ∈ s.records.names :=
  List.mem_map_of_mem member

/-! ## Types of fields -/

theorem record_of_namedTy {ident : Source.Ident} {ty : Ty} (free : Ty.builtin? ident.name = none)
    (h : (namedTy env ident).Gives s ty s') :
    ∃ record ∈ s'.records, record.name = ident.name ∧ ty = .record record.recordTy := by
  unfold Check.Gives at h
  rw [exec_namedTy, free] at h
  dsimp only at h
  split at h
  next record found =>
    cases h
    exact ⟨record, RecordTable.mem_of_find? found, RecordTable.name_of_find? found, rfl⟩
  next =>
    split at h
    next size align known =>
      cases h
      exact ⟨⟨ident.name, size, align, []⟩, RecordTable.mem_insert_iff.mpr (.inl rfl), rfl, rfl⟩
    next => cases h

/-- Only a name is resolved to a record, and to the one that the table has under it. -/
theorem named_of_tyOf {e : Source.TyExpr} {r : RecordTy}
    (h : (tyOf env e).Gives s (.record r) s') :
    ∃ ident, e = .named ident ∧ Ty.builtin? ident.name = none ∧
      ∃ record ∈ s'.records, record.name = ident.name ∧ record.recordTy = r := by
  cases e with
  | named ident =>
      rw [tyOf] at h
      cases free : Ty.builtin? ident.name with
      | some ty =>
          unfold Check.Gives at h
          rw [exec_namedTy, free] at h
          cases h
          cases mentions_of_builtin free
      | none =>
          obtain ⟨record, member, name, same⟩ := record_of_namedTy free h
          cases same
          exact ⟨ident, rfl, free, record, member, name, rfl⟩
  | pointer pointee span =>
      rw [tyOf] at h
      simp only [Check.gives_bind, Check.gives_pure] at h
      obtain ⟨_, _, -, same, -⟩ := h
      cases same
  | function params variadic ret span =>
      unfold Check.Gives at h
      rw [exec_tyOf_function] at h
      obtain ⟨result, -⟩ := Prod.mk.injEq .. ▸ h
      obtain ⟨_, -, rest⟩ := Option.bind_eq_some_iff.mp result
      obtain ⟨_, -, same⟩ := Option.map_eq_some_iff.mp rest
      cases same

/-! ## Declared records -/

/-- An item is declared without an error. -/
inductive ItemDeclared (env : Env) (s : State) : Source.Item → State → Prop where
  | functionItem (decl : Source.FunctionDecl) : ItemDeclared env s (.functionItem decl) s
  | opaqueItem {decl : Source.OpaqueDecl} (fresh : decl.name.name ∉ s.records.names)
      (power : ∃ k, decl.align.toNat = 2 ^ k) :
      ItemDeclared env s (.opaqueItem decl)
        { s with records := s.records.insert ⟨decl.name.name, decl.size, decl.align, []⟩ }
  | structItem {decl : Source.StructDecl} {sized : List SizedField} {t : State}
      {record : PlacedRecord} (fresh : decl.name.name ∉ s.records.names)
      (resolves : Resolves env s decl.fields sized t) (name : record.name = decl.name.name)
      (fields : record.fields.map PlacedField.sized = sized) (natural : record.shape.Natural) :
      ItemDeclared env s (.structItem decl) { t with records := t.records.insert record }

/-- A struct that is declared without an error has a new name, and none of its fields fails. -/
theorem clean_of_declareStruct {decl : Source.StructDecl}
    (clean : ((declareStruct env decl).exec s).2.reports.errorCount = s.reports.errorCount) :
    s.records.find? decl.name.name = none ∧
      ((placeFields env .empty decl.fields).run s : Placement × State).2.reports.errorCount =
        s.reports.errorCount := by
  have placed := (@steps_placeFields env .empty decl.fields s).errorCount_le
  rw [exec_declareStruct] at clean
  split at clean
  next => exact absurd clean (Nat.ne_of_gt (s.errorCount_lt_add rfl _))
  next fresh =>
    refine ⟨RecordTable.contains_eq_false_iff.mp (by simpa using fresh), ?_⟩
    dsimp only at clean
    split at clean
    next => exact clean
    next =>
      refine absurd clean (Nat.ne_of_gt ?_)
      exact Nat.lt_of_le_of_lt placed (State.errorCount_lt_add _ rfl _)

theorem itemDeclared_of_clean {item : Source.Item}
    (clean : ((declareItem env item).exec s).2.reports.errorCount = s.reports.errorCount) :
    ItemDeclared env s item ((declareItem env item).exec s).2 := by
  cases item with
  | functionItem decl => exact .functionItem decl
  | opaqueItem decl =>
      rw [declareItem, exec_declareOpaque] at clean ⊢
      split at clean
      next => exact absurd clean (Nat.ne_of_gt (s.errorCount_lt_add rfl _))
      next fresh =>
        split at clean
        next power =>
          rw [if_neg fresh, if_pos power]
          refine .opaqueItem ?_ (isPowerOfTwo_iff.mp power)
          rw [← RecordTable.find?_eq_none_iff]
          exact RecordTable.contains_eq_false_iff.mp (by simpa using fresh)
        next => exact absurd clean (Nat.ne_of_gt (s.errorCount_lt_add rfl _))
  | structItem decl =>
      rw [declareItem] at clean ⊢
      obtain ⟨fresh, silent⟩ := clean_of_declareStruct clean
      obtain ⟨looked, rest, sized, t, split, resolves, -, stopped, exec⟩ :=
        exec_declareStruct_of_clean fresh silent
      obtain ⟨shape, natural, -, ⟨record, finished, name, fields, rfl⟩ | ⟨unfinished, -⟩, -⟩ :=
        Placement.finish?_addAll sized decl.name.name
      · have whole : rest = [] := by
          by_contra more
          unfold Placement.finish? at finished
          rw [stopped more] at finished
          cases finished
        rw [whole, List.append_nil] at split
        rw [exec, finished]
        exact .structItem (RecordTable.find?_eq_none_iff.mp fresh) (split ▸ resolves) name fields
          natural
      · rw [exec, unfinished] at clean
        have more := @State.errorCount_lt_add t (.recordTooLarge decl.name.name) rfl
          (some decl.name.span)
        rw [resolves.reports_eq] at more
        exact absurd clean (Nat.ne_of_gt more)

namespace ItemDeclared

variable {item : Source.Item}

theorem fresh (h : ItemDeclared env s item s') {name : String}
    (declares : item.recordName? = some name) : name ∉ s.records.names := by
  cases h with
  | functionItem => cases declares
  | opaqueItem fresh =>
      cases declares
      exact fresh
  | structItem fresh =>
      cases declares
      exact fresh

theorem names_kept (h : ItemDeclared env s item s') : s.records.names <+: s'.records.names := by
  cases h with
  | functionItem => exact List.prefix_rfl
  | opaqueItem =>
      rw [RecordTable.names_insert]
      exact List.prefix_append ..
  | structItem _ resolves =>
      rw [RecordTable.names_insert]
      exact resolves.steps.names_kept.trans (List.prefix_append ..)

theorem mem_names (h : ItemDeclared env s item s') {name : String}
    (declares : item.recordName? = some name) : name ∈ s'.records.names := by
  cases h with
  | functionItem => cases declares
  | opaqueItem =>
      cases declares
      rw [RecordTable.names_insert]
      exact List.mem_append_right _ (List.mem_singleton_self _)
  | structItem _ _ name =>
      cases declares
      rw [RecordTable.names_insert, name]
      exact List.mem_append_right _ (List.mem_singleton_self _)

/-- An item keeps the records before it and declares its own; all others are adopted. -/
theorem mem (h : ItemDeclared env s item s') (member : record ∈ s'.records) :
    record ∈ s.records ∨ Adopted env s record ∨ item.recordName? = some record.name := by
  cases h with
  | functionItem => exact .inl member
  | opaqueItem =>
      rcases RecordTable.mem_insert member with rfl | old
      · exact .inr (.inr rfl)
      · exact .inl old
  | structItem _ resolves name =>
      rcases RecordTable.mem_insert member with rfl | old
      · exact .inr (.inr (congrArg some name.symm))
      · exact (resolves.steps.mem old).imp_right .inl

theorem extends_table (h : ItemDeclared env s item s') : s'.records.Extends s.records := by
  cases h with
  | functionItem => exact RecordTable.Extends.refl _
  | opaqueItem fresh =>
      exact RecordTable.extends_insert (RecordTable.find?_eq_none_iff.mpr fresh)
  | structItem fresh resolves name =>
      intro other found known
      rw [RecordTable.find?_insert, if_neg]
      · exact resolves.steps.extends other found known
      · rintro rfl
        rw [name] at known
        exact fresh (RecordTable.mem_names_iff.mpr ⟨found, known⟩)

end ItemDeclared

/-- Items are declared one after the other without an error. -/
inductive ItemsDeclared (env : Env) : State → List Source.Item → State → Prop where
  | nil {s : State} : ItemsDeclared env s [] s
  | cons {s t s' : State} {item : Source.Item} {items : List Source.Item}
      (first : ItemDeclared env s item t) (rest : ItemsDeclared env t items s') :
      ItemsDeclared env s (item :: items) s'

theorem itemsDeclared_of_clean {items : List Source.Item}
    (clean : ((declareAll env items).run s : PUnit × State).2.reports.errorCount =
      s.reports.errorCount) :
    ItemsDeclared env s items ((declareAll env items).run s : PUnit × State).2 := by
  induction items generalizing s with
  | nil => exact .nil
  | cons item items ih =>
      rw [run_declareAll_cons] at clean ⊢
      have lower := @errorCount_le_declareItem env item s
      have upper := @errorCount_le_declareAll env items ((declareItem env item).exec s).2
      exact .cons (itemDeclared_of_clean (by omega)) (ih (by omega))

/-- The items of an accepted unit are declared without an error. -/
theorem itemsDeclared_of_check {unit : Source.SourceUnit} {program : Program}
    {reports : Diagnostics} (h : check env unit = (some program, reports)) :
    ItemsDeclared env ⟨[], []⟩ unit.items (declared env unit) ∧
      Steps env (declared env unit) ⟨program.records, reports⟩ := by
  obtain ⟨gives, clean⟩ := check_eq_some.mp h
  have steps := (lawful_inferWrapper unit).steps_of_gives gives
  refine ⟨itemsDeclared_of_clean ?_, steps⟩
  have none := steps.errorCount_le
  dsimp only at none
  rw [clean] at none
  exact Nat.le_zero.mp none

namespace ItemsDeclared

variable {items : List Source.Item}

theorem names_kept (h : ItemsDeclared env s items s') : s.records.names <+: s'.records.names := by
  induction h with
  | nil => exact List.prefix_rfl
  | cons first _ ih => exact first.names_kept.trans ih

theorem extends_table (h : ItemsDeclared env s items s') : s'.records.Extends s.records := by
  induction h with
  | nil => exact RecordTable.Extends.refl _
  | cons first _ ih => exact ih.trans first.extends_table

theorem fresh (h : ItemsDeclared env s items s') {item : Source.Item} (member : item ∈ items)
    {name : String} (declares : item.recordName? = some name) : name ∉ s.records.names := by
  induction h with
  | nil => cases member
  | cons first _ ih =>
      rcases List.mem_cons.mp member with rfl | later
      · exact first.fresh declares
      · exact fun known => ih later (first.names_kept.subset known)

theorem mem_names (h : ItemsDeclared env s items s') {item : Source.Item} (member : item ∈ items)
    {name : String} (declares : item.recordName? = some name) : name ∈ s'.records.names := by
  induction h with
  | nil => cases member
  | cons first rest ih =>
      rcases List.mem_cons.mp member with rfl | later
      · exact rest.names_kept.subset (first.mem_names declares)
      · exact ih later

/-- All records are declared, or as the type system gives them. -/
theorem mem (h : ItemsDeclared env s items s') (member : record ∈ s'.records) :
    record ∈ s.records ∨ env.external? record.name = some (record.size, record.align) ∨
      ∃ item ∈ items, item.recordName? = some record.name := by
  induction h with
  | nil => exact .inl member
  | @cons s t s' item items first rest ih =>
      rcases ih member with old | known | ⟨other, later, declares⟩
      · rcases first.mem old with older | adopted | declares
        · exact .inl older
        · exact .inr (.inl adopted.known)
        · exact .inr (.inr ⟨item, List.mem_cons_self .., declares⟩)
      · exact .inr (.inl known)
      · exact .inr (.inr ⟨other, List.mem_cons_of_mem _ later, declares⟩)

/-- The declaration of one of the items, of which everything is kept. -/
theorem of_mem (h : ItemsDeclared env s items s') {item : Source.Item} (member : item ∈ items) :
    ∃ t t', ItemDeclared env t item t' ∧ s'.records.Extends t'.records := by
  induction h with
  | nil => cases member
  | cons first rest ih =>
      rcases List.mem_cons.mp member with rfl | later
      · exact ⟨_, _, first, rest.extends_table⟩
      · exact ih later

end ItemsDeclared

/-- A record that no item of an accepted unit declares is as the type system gives it. -/
theorem external?_of_undeclared {unit : Source.SourceUnit} {program : Program}
    {reports : Diagnostics} (h : check env unit = (some program, reports))
    (member : record ∈ program.records)
    (undeclared : ∀ item ∈ unit.items, item.recordName? ≠ some record.name) :
    env.external? record.name = some (record.size, record.align) := by
  obtain ⟨items, steps⟩ := itemsDeclared_of_check h
  rcases Steps.mem steps member with old | adopted
  · rcases items.mem old with none | known | ⟨item, declared, declares⟩
    · cases none
    · exact known
    · exact absurd declares (undeclared item declared)
  · exact adopted.known

end Checked

end CallThunk
