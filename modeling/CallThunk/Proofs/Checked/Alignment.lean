import CallThunk.Proofs.Checked.Items
import CallThunk.Proofs.Wrapper.Alignment

/-!
# Alignment of records

The alignment of a declared aggregate is looked at, and that of a struct is the largest one of its
fields. The alignment of a record that only the type system knows is taken over as it is. So the
records of an accepted unit are aligned, with all of their fields, exactly if the type system gives
powers of two to the records for which the unit relies on it.
-/

namespace CallThunk

namespace Source

/-- A struct definition with a field that has the type of its own name. -/
def StructDecl.EmbedsItself (decl : StructDecl) : Prop :=
  ∃ field ∈ decl.fields, ∃ ident, field.ty = .named ident ∧ Ty.builtin? ident.name = none ∧
    ident.name = decl.name.name

/-- A unit relies on the type system for the records that it does not declare, and for the record
that a struct finds under its own name while its fields are resolved. -/
def SourceUnit.ReliesOn (unit : SourceUnit) (name : String) : Prop :=
  (∀ item ∈ unit.items, item.recordName? ≠ some name) ∨
    ∃ decl, .structItem decl ∈ unit.items ∧ decl.EmbedsItself ∧ decl.name.name = name

end Source

namespace Checked

variable {env : Env} {s s' t : State} {record : PlacedRecord}

/-! ## Powers of two -/

/-- A record that is aligned to a power of two, as are all of its fields. -/
structure Powers (record : PlacedRecord) : Prop where
  own : ∃ k, record.align.toNat = 2 ^ k
  fields : ∀ f ∈ record.fields, ∃ k, f.align.toNat = 2 ^ k

theorem Adopted.powers (h : Adopted env s record) (own : ∃ k, record.align.toNat = 2 ^ k) :
    Powers record := by
  refine ⟨own, ?_⟩
  rw [h.fields]
  exact nofun

/-- The alignment of a struct is that of one of its fields. -/
theorem powers_of_natural (natural : record.shape.Natural)
    (fields : ∀ f ∈ record.fields, ∃ k, f.align.toNat = 2 ^ k) : Powers record := by
  refine ⟨?_, fields⟩
  rcases natural.align.1 with one | ⟨e, member, same⟩
  · exact ⟨0, one⟩
  · obtain ⟨f, hf, rfl⟩ := List.mem_map.mp member
    obtain ⟨k, power⟩ := fields f hf
    exact ⟨k, same.symm.trans power⟩

/-- A field is aligned to a power of two, unless it names a record that is adopted for it. -/
theorem FieldResolves.align_power {field : Source.Typed} {f : SizedField}
    (pointer : ∃ k, env.pointerSize.toNat = 2 ^ k) (h : FieldResolves env s s' field f)
    (all : ∀ record ∈ s.records, Powers record)
    (adopts : ∀ ident record, field.ty = .named ident → Ty.builtin? ident.name = none →
      record.name = ident.name → Adopted env s record → record.name ∈ s'.records.names →
        ∃ k, record.align.toNat = 2 ^ k) : ∃ k, f.align.toNat = 2 ^ k := by
  obtain ⟨same, u, u', before, gives, behind⟩ := h
  rw [same]
  refine Ty.align_power pointer fun r ty => ?_
  rw [ty] at gives
  obtain ⟨ident, written, free, record, found, name, rfl⟩ := named_of_tyOf gives
  have through : Steps env s u' := before.trans ((lawful_tyOf _).steps_of_gives gives)
  rcases through.mem found with old | adopted
  · exact (all record old).own
  · have kept := behind.names_kept.subset (name_mem_names found)
    exact adopts ident record written free name adopted kept

/-- An item keeps all alignments powers of two, if those that it takes over are. -/
theorem ItemDeclared.powers {item : Source.Item} (pointer : ∃ k, env.pointerSize.toNat = 2 ^ k)
    (h : ItemDeclared env s item s') (all : ∀ record ∈ s.records, Powers record)
    (adopts : ∀ record, Adopted env s record → record.name ∈ s'.records.names →
      (item.recordName? = some record.name →
        ∃ decl, item = .structItem decl ∧ decl.EmbedsItself) →
          ∃ k, record.align.toNat = 2 ^ k) : ∀ record ∈ s'.records, Powers record := by
  intro record member
  cases h with
  | functionItem => exact all record member
  | opaqueItem fresh power =>
      rcases RecordTable.mem_insert member with rfl | old
      · exact ⟨power, nofun⟩
      · exact all record old
  | @structItem decl sized t made fresh resolves name fields natural =>
      have names : t.records.names ⊆ (t.records.insert made).names := by
        rw [RecordTable.names_insert]
        exact List.subset_append_left ..
      rcases RecordTable.mem_insert_iff.mp member with rfl | ⟨old, other⟩
      · refine powers_of_natural natural fun f hf => ?_
        obtain ⟨field, hfield, resolved⟩ :=
          resolves.each.1 f.sized (fields ▸ List.mem_map_of_mem hf)
        refine resolved.align_power pointer all
          fun ident found written free ident_name adopted kept => ?_
        refine adopts found adopted (names kept) fun own => ?_
        refine ⟨decl, rfl, field, hfield, ident, written, free, ?_⟩
        rw [← ident_name]
        exact (Option.some.inj own).symm
      · -- Any other record was there before, or a field has brought it in under its own name.
        rcases resolves.steps.mem old with older | adopted
        · exact all record older
        · refine adopted.powers (adopts record adopted (names (name_mem_names old)) fun own => ?_)
          rw [name] at other
          exact absurd (Option.some.inj own).symm other

/-- Declaring the items of a unit keeps all alignments powers of two, if those are on which the unit
relies. -/
theorem ItemsDeclared.powers {unit : Source.SourceUnit} {items : List Source.Item}
    (pointer : ∃ k, env.pointerSize.toNat = 2 ^ k) (h : ItemsDeclared env s items s')
    (before : List Source.Item) (whole : unit.items = before ++ items)
    (past : ∀ item ∈ before, ∀ name, item.recordName? = some name → name ∈ s.records.names)
    (reliable : ∀ name ∈ s'.records.names, unit.ReliesOn name →
      ∀ size align, env.external? name = some (size, align) → ∃ k, align.toNat = 2 ^ k)
    (all : ∀ record ∈ s.records, Powers record) : ∀ record ∈ s'.records, Powers record := by
  induction h generalizing before with
  | nil => exact all
  | @cons s t s' item items first rest ih =>
      refine ih (before ++ [item]) (by rw [whole, List.append_assoc]; rfl) ?_ reliable ?_
      · intro other member name declares
        rcases List.mem_append.mp member with old | new
        · exact first.names_kept.subset (past other old name declares)
        · rw [List.mem_singleton.mp new] at declares
          exact first.mem_names declares
      · refine first.powers pointer all fun record adopted known own => ?_
        refine reliable record.name (rest.names_kept.subset known) ?_ _ _ adopted.known
        by_cases declares : item.recordName? = some record.name
        · obtain ⟨decl, rfl, embeds⟩ := own declares
          refine .inr ⟨decl, ?_, embeds, Option.some.inj declares⟩
          rw [whole]
          exact List.mem_append_right _ (List.mem_cons_self ..)
        · -- Names before the item were known to it, and those behind it are still free.
          refine .inl fun other member same => ?_
          rw [whole] at member
          rcases List.mem_append.mp member with old | new
          · exact adopted.fresh (past other old _ same)
          · rcases List.mem_cons.mp new with rfl | later
            · exact declares same
            · exact rest.fresh later same known

/-- A struct with a field of its own name takes over the alignment of the record that it found under
the name. -/
theorem ItemDeclared.embedded {decl : Source.StructDecl}
    (h : ItemDeclared env s (.structItem decl) s') (embeds : decl.EmbedsItself) :
    ∃ record, s'.records.find? decl.name.name = some record ∧
      ∀ size align, env.external? decl.name.name = some (size, align) →
        ∃ f ∈ record.fields, f.align = align := by
  cases h with
  | @structItem _ sized t record fresh resolves name fields natural =>
      refine ⟨record, by rw [RecordTable.find?_insert, if_pos name], fun size align given => ?_⟩
      obtain ⟨field, hfield, ident, written, free, same⟩ := embeds
      obtain ⟨f, hf, aligned, u, u', before, gives, behind⟩ := resolves.each.2 field hfield
      have through : Steps env s u' := before.trans ((lawful_tyOf _).steps_of_gives gives)
      rw [written, tyOf] at gives
      obtain ⟨found, known, found_name, ty⟩ := record_of_namedTy free gives
      have named : found.name = decl.name.name := found_name.trans same
      -- The struct was not declared yet, so its own name has been found in the type system.
      rcases through.mem known with old | adopted
      · exact absurd (named ▸ name_mem_names old) fresh
      · have supplied := adopted.known
        rw [named, given] at supplied
        rw [← fields] at hf
        obtain ⟨f', hf', rfl⟩ := List.mem_map.mp hf
        refine ⟨f', hf', ?_⟩
        have own : f'.align = f'.ty.align env.pointerSize := aligned
        rw [own, show f'.ty = .record found.recordTy from ty]
        exact (congrArg Prod.snd (Option.some.inj supplied)).symm

/-! ## Fields of structs -/

/-- A record without fields, or a struct that is laid out as in C, with the alignments of the types
of its fields. -/
inductive Laid (env : Env) (record : PlacedRecord) : Prop where
  | bare (fields : record.fields = [])
  | struct (natural : record.shape.Natural)
      (aligns : ∀ f ∈ record.fields, f.align = f.ty.align env.pointerSize)

theorem ItemDeclared.laid {item : Source.Item} (h : ItemDeclared env s item s')
    (all : ∀ record ∈ s.records, Laid env record) : ∀ record ∈ s'.records, Laid env record := by
  intro record member
  cases h with
  | functionItem => exact all record member
  | opaqueItem =>
      rcases RecordTable.mem_insert member with rfl | old
      · exact .bare rfl
      · exact all record old
  | structItem fresh resolves name fields natural =>
      rcases RecordTable.mem_insert member with rfl | old
      · refine .struct natural fun f hf => ?_
        obtain ⟨_, -, same, -⟩ := resolves.each.1 f.sized (fields ▸ List.mem_map_of_mem hf)
        exact same
      · rcases resolves.steps.mem old with older | adopted
        · exact all record older
        · exact .bare adopted.fields

theorem ItemsDeclared.laid {items : List Source.Item} (h : ItemsDeclared env s items s')
    (all : ∀ record ∈ s.records, Laid env record) : ∀ record ∈ s'.records, Laid env record := by
  induction h with
  | nil => exact all
  | cons first _ ih => exact ih (first.laid all)

end Checked

/-- A record that is aligned to a power of two, and whose fields are aligned wherever it is. -/
structure PlacedRecord.Aligned (record : PlacedRecord) : Prop where
  power : ∃ k, record.align.toNat = 2 ^ k
  fields : ∀ f ∈ record.fields, (∃ k, f.align.toNat = 2 ^ k) ∧
    f.align.toNat ∣ record.align.toNat ∧ ∀ base : UInt64, record.align.toNat ∣ base.toNat →
      f.align.toNat ∣ (base + f.offset.toUInt64).toNat

namespace Checked

variable {env : Env} {record : PlacedRecord}

/-- Addresses wrap around at a multiple of every power of two that they can have. -/
theorem dvd_address {align offset : UInt32} {base : UInt64} (power : ∃ k, align.toNat = 2 ^ k)
    (inside : align.toNat ∣ offset.toNat) (start : align.toNat ∣ base.toNat) :
    align.toNat ∣ (base + offset.toUInt64).toNat := by
  have around : align.toNat ∣ 2 ^ 64 := by
    refine dvd_of_powers power ⟨64, rfl⟩ ?_
    have small := align.toNat_lt
    omega
  rw [UInt64.toNat_add, UInt32.toNat_toUInt64, Nat.dvd_mod_iff around]
  exact Nat.dvd_add start inside

/-- In a struct that is laid out as in C, powers of two are all that it takes. -/
theorem aligned_iff_powers (laid : Laid env record) : record.Aligned ↔ Powers record := by
  constructor
  · exact fun aligned => ⟨aligned.power, fun f hf => (aligned.fields f hf).1⟩
  · rintro ⟨own, fields⟩
    refine ⟨own, fun f hf => ?_⟩
    cases laid with
    | bare none =>
        rw [none] at hf
        cases hf
    | struct natural =>
        have power := fields f hf
        have extent : f.extent ∈ record.shape.fields := List.mem_map_of_mem hf
        have struct := dvd_of_powers power own (natural.align.le extent)
        have offset := natural.dvd f.extent extent
        have positive : 1 ≤ f.extent.align := by
          obtain ⟨k, hk⟩ := power
          exact Nat.le_trans (Nat.two_pow_pos k) (Nat.le_of_eq hk.symm)
        rw [Nat.max_eq_left positive] at offset
        exact ⟨power, struct, fun base start =>
          dvd_address power offset (Nat.dvd_trans struct start)⟩

/-- The records of an accepted unit are aligned exactly if the type system gives powers of two to
those for which the unit relies on it. Whatever they are, the body loads and stores just fields of
records, and on the host each of these is aligned as what is moved. -/
theorem check_aligned_iff {unit : Source.SourceUnit} {program : Program} {reports : Diagnostics}
    (pointer : ∃ k, env.pointerSize.toNat = 2 ^ k)
    (h : check env unit = (some program, reports)) :
    ((∀ record ∈ program.records, record.Aligned) ↔
      ∀ name ∈ program.records.names, unit.ReliesOn name →
        ∀ size align, env.external? name = some (size, align) → ∃ k, align.toNat = 2 ^ k) ∧
    program.WellTyped ∧
    ∀ record ∈ program.records, ∀ f ∈ record.fields, f.align = f.ty.align env.pointerSize ∧
      (env.pointerSize = 8 → ∀ word, f.ty.word? = some word → f.align.toNat = word.bytes) := by
  obtain ⟨items, steps⟩ := itemsDeclared_of_check h
  have laid : ∀ record ∈ program.records, Laid env record := by
    intro record member
    rcases Steps.mem steps member with old | adopted
    · exact items.laid nofun record old
    · exact .bare adopted.fields
  refine ⟨⟨fun aligned name known relies size align given => ?_, fun reliable record member => ?_⟩,
    typed_of_inferWrapper (check_eq_some.mp h).1, fun record member f hf => ?_⟩
  · rcases relies with undeclared | ⟨decl, member, embeds, rfl⟩
    · obtain ⟨record, member, rfl⟩ := List.mem_map.mp known
      rw [external?_of_undeclared h member undeclared] at given
      cases given
      exact (aligned record member).power
    · obtain ⟨_, _, declared, later⟩ := items.of_mem member
      obtain ⟨record, found, fields⟩ := declared.embedded embeds
      obtain ⟨f, hf, rfl⟩ := fields size align given
      have kept := Steps.extends steps _ _ (later _ _ found)
      exact ((aligned record (RecordTable.mem_of_find? kept)).fields f hf).1
  · refine (aligned_iff_powers (laid record member)).mpr ?_
    rcases Steps.mem steps member with old | adopted
    · have names := (Steps.names_kept steps).subset
      exact items.powers pointer [] rfl nofun (fun name known => reliable name (names known)) nofun
        record old
    · refine adopted.powers (reliable record.name (List.mem_map_of_mem member) (.inl ?_) _ _
        adopted.known)
      exact fun item declared declares => adopted.fresh (items.mem_names declared declares)
  · cases laid record member with
    | bare none =>
        rw [none] at hf
        cases hf
    | struct _ aligns =>
        refine ⟨aligns f hf, fun host word moved => ?_⟩
        rw [aligns f hf, host]
        exact (size_of_word? moved).2

/-- A type system that knows every name as that of an aggregate of some size and alignment. -/
def supplying (size align : UInt32) : Env := ⟨8, fun _ => some (size, align)⟩

/-- A struct with a number behind a record that is not declared, and a wrapper that loads it. -/
def trailingUnit : Source.SourceUnit :=
  let span : Source.Span := ⟨0, 0⟩
  let ident (name : String) : Source.Ident := ⟨name, span⟩
  let ty (name : String) : Source.TyExpr := .named (ident name)
  ⟨[.structItem ⟨ident "S", [⟨ident "e", ty "E"⟩, ⟨ident "n", ty "u64"⟩], span⟩,
    .functionItem ⟨ident "w", [⟨ident "p", .pointer (ty "S") span⟩],
      [.bind (ident "x") (.field (.var (ident "p") span) (ident "n") span) span, .ret span],
      span⟩]⟩

theorem check_aligned_iff_trailing : ∃ program reports,
    check (supplying 16 8) trailingUnit = (some program, reports) ∧
      ∀ record ∈ program.records, record.Aligned := by
  have checked : (check (supplying 16 8) trailingUnit).1.isSome := by decide
  obtain ⟨program, hp⟩ := Option.isSome_iff_exists.mp checked
  refine ⟨program, _, Prod.ext hp rfl,
    (check_aligned_iff ⟨3, rfl⟩ (Prod.ext hp rfl)).1.mpr fun name _ _ size align given => ?_⟩
  cases given
  exact ⟨3, rfl⟩

/-- An aggregate of which only the type system knows that it is aligned to 12 bytes is accepted, and
then the wrapper loads a number of 8 bytes from an address that is no multiple of 8, though its
struct is as aligned as it should be. -/
theorem check_unaligned :
    let number : PlacedField := ⟨"n", .int .u64, 16, 8, 8⟩
    let outer : PlacedRecord := ⟨"S", 24, 12, [⟨"e", .record ⟨"E", 12, 12⟩, 0, 12, 12⟩, number]⟩
    ∃ program, check (supplying 12 12) trailingUnit = (some program, []) ∧
      program.records = [⟨"E", 12, 12, []⟩, outer] ∧
      program.wrapper.body =
        [.bind 0 (.load number.ty (.param (.pointer (.record outer.recordTy))) number.offset),
          .ret] ∧
      (¬ ∃ k, outer.align.toNat = 2 ^ k) ∧
      outer.align.toNat ∣ (12 : UInt64).toNat ∧
        ¬ number.align.toNat ∣ ((12 : UInt64) + number.offset.toUInt64).toNat := by
  intro number outer
  have accepted : (check (supplying 12 12) trailingUnit).1.map (fun program =>
      (program.records, program.wrapper.body)) = some ([⟨"E", 12, 12, []⟩, outer],
        [.bind 0 (.load number.ty (.param (.pointer (.record outer.recordTy))) number.offset),
          .ret]) := by rfl
  have silent : (check (supplying 12 12) trailingUnit).2 = [] := by decide
  obtain ⟨program, found, same⟩ := Option.map_eq_some_iff.mp accepted
  obtain ⟨records, body⟩ := Prod.mk.injEq .. ▸ same
  refine ⟨program, Prod.ext found silent, records, body, ?_, by decide, by decide⟩
  exact isPowerOfTwo_iff.not.mp (by decide)

end Checked

end CallThunk
