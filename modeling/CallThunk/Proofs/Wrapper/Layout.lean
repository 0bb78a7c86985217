import CallThunk.Wrapper.Layout
import CallThunk.Proofs.Checked.Resolution
import CallThunk.Proofs.Record.Placement
import CallThunk.Proofs.Wrapper.Spelling
import Mathlib.Data.List.Nodup

/-!
# Layout of the argument struct

The struct of a wrapper is laid out when its size as a number fits 32 bits, and only then. Its slots
lie behind one another in the order of the struct, so the layout is read back as it was computed.
-/

namespace CallThunk

open Checked
open WrapperSource (Holds Lists)

/-- The fields of slots that are laid out behind a number of bytes. -/
def placeSlots (pointerSize : UInt32) : (stop : Nat) → List Slot → List PlacedField
  | _, [] => []
  | stop, slot :: slots =>
    let offset := alignUp stop (slot.ty.align pointerSize).toNat
    ⟨slot.field, slot.ty, UInt32.ofNat offset, slot.ty.size pointerSize,
      slot.ty.align pointerSize⟩ ::
      placeSlots pointerSize (offset + (slot.ty.size pointerSize).toNat) slots

/-- The record of a struct with slots as its fields. -/
def structRecord (pointerSize : UInt32) (name : String) (slots : List Slot) : PlacedRecord where
  name
  size := UInt32.ofNat (structSize pointerSize (slots.map Slot.ty))
  align := fieldsAlign pointerSize 1 (slots.map Slot.ty)
  fields := placeSlots pointerSize 0 slots

/-! ## Placing fields -/

/-- Slots that a struct can have as its fields, given the records known so far. -/
structure Placeable (records : RecordTable) (slots : List Slot) : Prop where
  known : ∀ slot ∈ slots, ∀ r ∈ slot.ty.mentions, records.Knows r
  formed : ∀ slot ∈ slots, slot.ty.wellFormed
  stored : ∀ slot ∈ slots, slot.ty ≠ .void
  distinct : (slots.map Slot.field).Nodup

section
variable {env : Env} {s : State} {slots : List Slot} {slot : Slot}

theorem Placeable.tail {records : RecordTable} (h : Placeable records (slot :: slots)) :
    Placeable records slots where
  known t ht := h.known t (List.mem_cons_of_mem _ ht)
  formed t ht := h.formed t (List.mem_cons_of_mem _ ht)
  stored t ht := h.stored t (List.mem_cons_of_mem _ ht)
  distinct := (List.nodup_cons.mp h.distinct).2

theorem exec_inferField {placed : Placement} {field : Source.Typed} (holds : Holds field slot)
    (placeable : Placeable s.records (slot :: slots))
    (fresh : ∀ f ∈ placed.fields, f.name ≠ slot.field) :
    (inferField env placed field).exec s =
      (some (slot.ty, slot.ty.size env.pointerSize, slot.ty.align env.pointerSize), s) := by
  obtain ⟨name, means⟩ := holds
  have member := List.mem_cons_self (a := slot) (l := slots)
  refine gives_inferField.mpr ⟨?_, ?_, Ty.storage?_eq (placeable.stored slot member)⟩
  · rw [name]
    exact List.any_eq_false.mpr fun f hf => by simpa using fresh f hf
  · exact gives_tyOf means (placeable.known slot member) (placeable.formed slot member)

theorem fresh_of_add? {placed : Placement} {offset : UInt32} (size align : UInt32)
    (placeable : Placeable s.records (slot :: slots))
    (fresh : ∀ t ∈ slot :: slots, ∀ f ∈ placed.fields, f.name ≠ t.field) :
    ∀ t ∈ slots, ∀ f ∈ placed.fields ++ [⟨slot.field, slot.ty, offset, size, align⟩],
      f.name ≠ t.field := by
  intro t ht f hf
  rcases List.mem_append.mp hf with hf | hf
  · exact fresh t (List.mem_cons_of_mem _ ht) f hf
  · rw [List.mem_singleton.mp hf]
    rintro same
    exact (List.nodup_cons.mp placeable.distinct).1 (List.mem_map.mpr ⟨t, ht, same.symm⟩)

/-- Fields are placed one behind the other when all of them fit. -/
theorem run_placeFields_of_fits {placed : Placement} {fields : List Source.Typed}
    (holds : List.Forall₂ Holds fields slots) (placeable : Placeable s.records slots)
    (fresh : ∀ slot ∈ slots, ∀ f ∈ placed.fields, f.name ≠ slot.field) {stop : Nat}
    (hstop : placed.stop = some (UInt32.ofNat stop))
    (fits : fieldsStop env.pointerSize stop (slots.map Slot.ty) < 2 ^ 32) :
    (placeFields env placed fields).run s =
      (⟨placed.fields ++ placeSlots env.pointerSize stop slots,
        some (UInt32.ofNat (fieldsStop env.pointerSize stop (slots.map Slot.ty))),
        fieldsAlign env.pointerSize placed.align (slots.map Slot.ty)⟩, s) := by
  induction holds generalizing placed stop with
  | nil =>
      obtain ⟨fields, _, align⟩ := placed
      cases hstop
      rw [placeSlots, List.append_nil]
      rfl
  | @cons field slot fields slots first _ ih =>
      have offset := le_alignUp stop (slot.ty.align env.pointerSize).toNat
      rw [List.map_cons, fieldsStop] at fits
      have later := le_fieldsStop env.pointerSize
        (alignUp stop (slot.ty.align env.pointerSize).toNat +
          (slot.ty.size env.pointerSize).toNat) (slots.map Slot.ty)
      have hsmall : stop % 2 ^ 32 = stop := Nat.mod_eq_of_lt (by omega)
      rw [run_placeFields_cons,
        exec_inferField first placeable (fresh slot (List.mem_cons_self ..))]
      dsimp only
      rw [first.1, Placement.add?_eq hstop, UInt32.toNat_ofNat', hsmall,
        word32?_of_lt (by omega)]
      dsimp only [Option.map_some]
      rw [UInt32.toNat_ofNat', Nat.mod_eq_of_lt (by omega), word32?_of_lt (by omega)]
      rw [ih placeable.tail _ rfl fits]
      · simp [placeSlots, fieldsStop, fieldsAlign]
      · exact fresh_of_add? _ _ placeable fresh

/-- Nothing is placed any more behind fields that do not fit. -/
theorem stop_of_placeFields {placed : Placement} {fields : List Source.Typed}
    (holds : List.Forall₂ Holds fields slots) (placeable : Placeable s.records slots)
    (fresh : ∀ slot ∈ slots, ∀ f ∈ placed.fields, f.name ≠ slot.field)
    (hstop : placed.stop = none) :
    ∃ placed', (placeFields env placed fields).run s = (placed', s) ∧ placed'.stop = none := by
  cases holds with
  | nil => exact ⟨placed, rfl, hstop⟩
  | @cons field slot fields slots first _ =>
      have none : placed.add? field.name.name slot.ty (slot.ty.size env.pointerSize)
          (slot.ty.align env.pointerSize) = none := by
        unfold Placement.add?
        rw [hstop]
        rfl
      rw [run_placeFields_cons,
        exec_inferField first placeable (fresh slot (List.mem_cons_self ..))]
      dsimp only
      rw [none]
      exact ⟨_, rfl, rfl⟩

/-- The end of the fields is missing when they do not fit. -/
theorem run_placeFields_of_overflow {placed : Placement} {fields : List Source.Typed}
    (holds : List.Forall₂ Holds fields slots) (placeable : Placeable s.records slots)
    (fresh : ∀ slot ∈ slots, ∀ f ∈ placed.fields, f.name ≠ slot.field) {stop : Nat}
    (hstop : placed.stop = some (UInt32.ofNat stop)) (small : stop < 2 ^ 32)
    (overflow : 2 ^ 32 ≤ fieldsStop env.pointerSize stop (slots.map Slot.ty)) :
    ∃ placed', (placeFields env placed fields).run s = (placed', s) ∧ placed'.stop = none := by
  induction holds generalizing placed stop with
  | nil => exact absurd small (Nat.not_lt.mpr overflow)
  | @cons field slot fields slots first rest ih =>
      rw [run_placeFields_cons,
        exec_inferField first placeable (fresh slot (List.mem_cons_self ..))]
      dsimp only
      rw [first.1, Placement.add?_eq hstop, UInt32.toNat_ofNat', Nat.mod_eq_of_lt small]
      by_cases offsetFits : alignUp stop (slot.ty.align env.pointerSize).toNat < 2 ^ 32
      · rw [word32?_of_lt offsetFits]
        dsimp only [Option.map_some]
        rw [UInt32.toNat_ofNat', Nat.mod_eq_of_lt offsetFits]
        by_cases stopFits : alignUp stop (slot.ty.align env.pointerSize).toNat +
            (slot.ty.size env.pointerSize).toNat < 2 ^ 32
        · rw [word32?_of_lt stopFits]
          exact ih placeable.tail (fresh_of_add? _ _ placeable fresh) rfl stopFits overflow
        · rw [word32?_eq_none.mpr (Nat.not_lt.mp stopFits)]
          exact stop_of_placeFields rest placeable.tail (fresh_of_add? _ _ placeable fresh) rfl
      · rw [word32?_eq_none.mpr (Nat.not_lt.mp offsetFits)]
        exact ⟨_, rfl, rfl⟩

/-! ## The struct -/

variable {decl : Source.StructDecl} {name : String} {model : StructModel}

/-- The struct of a wrapper is declared when its size fits 32 bits. -/
theorem exec_declareStruct_of_fits (lists : Lists decl name model)
    (placeable : Placeable s.records model.slots) (undeclared : s.records.find? name = none)
    (fits : structSize env.pointerSize (model.slots.map Slot.ty) < 2 ^ 32) :
    (declareStruct env decl).exec s =
      (some (), { s with
        records := s.records.insert (structRecord env.pointerSize name model.slots) }) := by
  have stop := le_alignUp (fieldsStop env.pointerSize 0 (model.slots.map Slot.ty))
    (fieldsAlign env.pointerSize 1 (model.slots.map Slot.ty)).toNat
  have stopFits := Nat.lt_of_le_of_lt stop fits
  have placed := @run_placeFields_of_fits env s model.slots .empty decl.fields lists.fields
    placeable (by simp [Placement.empty]) 0 rfl stopFits
  have new : s.records.contains name = false := RecordTable.contains_eq_false_iff.mpr undeclared
  rw [exec_declareStruct, lists.name, new, placed]
  simp only [Bool.false_eq_true, if_false]
  rw [@Placement.finish?_eq _ (UInt32.ofNat _) rfl, UInt32.toNat_ofNat',
    Nat.mod_eq_of_lt stopFits]
  simp only [Placement.empty]
  rw [show alignUp _ _ = structSize env.pointerSize (model.slots.map Slot.ty) from rfl,
    word32?_of_lt fits]
  rfl

/-- The struct of a wrapper is refused when its size does not fit 32 bits. -/
theorem exec_declareStruct_of_overflow (lists : Lists decl name model)
    (placeable : Placeable s.records model.slots)
    (overflow : 2 ^ 32 ≤ structSize env.pointerSize (model.slots.map Slot.ty)) :
    ((declareStruct env decl).exec s).1 = none := by
  rw [exec_declareStruct]
  split
  · rfl
  · have unfinished : ∃ placed, (placeFields env .empty decl.fields).run s = (placed, s) ∧
        placed.finish? decl.name.name = none := by
      by_cases fits : fieldsStop env.pointerSize 0 (model.slots.map Slot.ty) < 2 ^ 32
      · refine ⟨_, @run_placeFields_of_fits env s model.slots .empty decl.fields lists.fields
          placeable (by simp [Placement.empty]) 0 rfl fits, ?_⟩
        rw [@Placement.finish?_eq _ (UInt32.ofNat _) rfl, UInt32.toNat_ofNat',
          Nat.mod_eq_of_lt fits]
        exact congrArg (Option.map _) (word32?_eq_none.mpr overflow)
      · obtain ⟨placed, run, stopped⟩ := @run_placeFields_of_overflow env s model.slots .empty
          decl.fields lists.fields placeable (by simp [Placement.empty]) 0 rfl (by decide)
          (Nat.not_lt.mp fits)
        refine ⟨placed, run, ?_⟩
        unfold Placement.finish?
        rw [stopped]
        rfl
    obtain ⟨placed, run, none⟩ := unfinished
    rw [run]
    dsimp only
    rw [none]

end

/-! ## Slots in the struct -/

/-- A field that lies where a slot is laid out. -/
structure Stores (pointerSize : UInt32) (f : PlacedField) (slot : Slot) : Prop where
  name : f.name = slot.field
  ty : f.ty = slot.ty
  size : f.size = slot.ty.size pointerSize
  align : f.align = slot.ty.align pointerSize

section
variable {pointerSize : UInt32} {slots : List Slot} {fields : List PlacedField}

theorem stores_placeSlots (pointerSize : UInt32) (stop : Nat) (slots : List Slot) :
    List.Forall₂ (Stores pointerSize) (placeSlots pointerSize stop slots) slots := by
  induction slots generalizing stop with
  | nil => exact .nil
  | cons slot slots ih => exact .cons ⟨rfl, rfl, rfl, rfl⟩ (ih _)

/-- Fields lie behind one another, and inside the bytes that they take together. -/
theorem pairwise_placeSlots {stop : Nat}
    (fits : fieldsStop pointerSize stop (slots.map Slot.ty) < 2 ^ 32) :
    (placeSlots pointerSize stop slots).Pairwise
        (fun f g => f.offset.toNat + f.size.toNat ≤ g.offset.toNat) ∧
      ∀ f ∈ placeSlots pointerSize stop slots, stop ≤ f.offset.toNat ∧
        f.offset.toNat + f.size.toNat ≤ fieldsStop pointerSize stop (slots.map Slot.ty) := by
  induction slots generalizing stop with
  | nil => exact ⟨.nil, fun _ hf => nomatch hf⟩
  | cons slot slots ih =>
      rw [List.map_cons, fieldsStop] at fits ⊢
      have offset := le_alignUp stop (slot.ty.align pointerSize).toNat
      have later := le_fieldsStop pointerSize
        (alignUp stop (slot.ty.align pointerSize).toNat + (slot.ty.size pointerSize).toNat)
        (slots.map Slot.ty)
      obtain ⟨behind, inside⟩ := ih fits
      have exact : (UInt32.ofNat (alignUp stop (slot.ty.align pointerSize).toNat)).toNat =
          alignUp stop (slot.ty.align pointerSize).toNat := by
        rw [UInt32.toNat_ofNat', Nat.mod_eq_of_lt (by omega)]
      rw [placeSlots]
      refine ⟨List.pairwise_cons.mpr ⟨fun g hg => ?_, behind⟩, ?_⟩
      · dsimp only
        rw [exact]
        exact (inside g hg).1
      · rintro f (_ | ⟨_, hf⟩)
        · dsimp only
          rw [exact]
          exact ⟨offset, later⟩
        · obtain ⟨start, stop⟩ := inside f hf
          exact ⟨by omega, stop⟩

/-- The field of a slot is found by its name. -/
theorem find?_of_stores (h : List.Forall₂ (Stores pointerSize) fields slots)
    (distinct : (slots.map Slot.field).Nodup) :
    ∀ slot ∈ slots, ∃ f ∈ fields, fields.find? (·.name = slot.field) = some f ∧
      Stores pointerSize f slot := by
  induction h with
  | nil => exact fun _ h => nomatch h
  | @cons f slot fields slots first _ ih =>
      obtain ⟨fresh, distinct⟩ := List.nodup_cons.mp distinct
      rintro slot' (_ | ⟨_, hslot'⟩)
      · exact ⟨f, List.mem_cons_self .., List.find?_cons_of_pos (by simpa using first.name), first⟩
      · obtain ⟨f', hf', found, stores⟩ := ih distinct slot' hslot'
        refine ⟨f', List.mem_cons_of_mem _ hf', ?_, stores⟩
        rw [List.find?_cons_of_neg, found]
        rw [decide_eq_true_eq, first.name]
        intro same
        exact fresh (List.mem_map.mpr ⟨slot', hslot', same.symm⟩)

/-- The fields of slots are found by their names, one behind the other. -/
theorem map_find?_of_stores (h : List.Forall₂ (Stores pointerSize) fields slots)
    (distinct : (slots.map Slot.field).Nodup) :
    slots.map (fun slot => fields.find? (·.name = slot.field)) = fields.map some := by
  induction h with
  | nil => rfl
  | @cons f slot fields slots first _ ih =>
      obtain ⟨fresh, distinct⟩ := List.nodup_cons.mp distinct
      rw [List.map_cons, List.map_cons, List.find?_cons_of_pos (by simpa using first.name),
        ← ih distinct]
      refine congrArg _ (List.map_congr_left fun slot' hslot' => ?_)
      refine List.find?_cons_of_neg ?_
      rw [decide_eq_true_eq, first.name]
      intro same
      exact fresh (List.mem_map.mpr ⟨slot', hslot', same.symm⟩)

end

/-- Where a field lies. -/
def PlacedField.place (f : PlacedField) : SlotPlace := ⟨f.offset, f.size, f.align⟩

/-- Where the field of a slot lies in a record. -/
def fieldPlace (record : PlacedRecord) (slot : Slot) : SlotPlace :=
  ((record.field? slot.field).map fun f => ⟨f.offset, f.size, f.align⟩).getD ⟨0, 0, 0⟩

/-- The layout that a record gives to the slots of a model. -/
def layoutOf (record : PlacedRecord) (model : StructModel) : StructLayout where
  size := record.size
  align := record.align
  function := fieldPlace record model.calleeSlot
  arguments := model.inputSlots.map (fieldPlace record)
  result := model.resultSlot?.map (fieldPlace record)

theorem fieldPlace_eq {record : PlacedRecord} {slot : Slot} {f : PlacedField}
    (found : record.field? slot.field = some f) : fieldPlace record slot = f.place := by
  unfold fieldPlace
  rw [found]
  rfl

theorem SlotRole.field_injective : Function.Injective SlotRole.field := by
  have start (index : Nat) : (SlotRole.argument index).field.toList =
      'a' :: 'r' :: 'g' :: '_' :: (Numeral.decimal index).toList := by
    simp [field]
  intro a b same
  have chars := congrArg String.toList same
  cases a <;> cases b
  any_goals rfl
  case argument.argument i j =>
    rw [start, start] at chars
    simp only [List.cons.injEq, true_and] at chars
    rw [Numeral.decimal_injective (String.toList_injective chars)]
  all_goals
    first
    | (rw [start] at chars; cases chars)
    | exact absurd same (by decide)

/-- The names of slots are all different. -/
theorem StructModel.distinct (model : StructModel) : (model.slots.map Slot.field).Nodup := by
  have inputs : model.inputSlots.map Slot.role = (List.range model.arity).map .argument := by
    refine List.ext_getElem (by simp [inputSlots, arity]) fun i _ _ => ?_
    simp [inputSlots]
  have arguments : ((List.range model.arity).map SlotRole.argument).Nodup :=
    List.Nodup.map (fun _ _ same => SlotRole.argument.inj same) List.nodup_range
  have roles : (model.slots.map Slot.role).Nodup := by
    rw [slots, List.cons_append, List.map_cons, List.map_append, inputs, List.nodup_cons,
      List.nodup_append]
    refine ⟨?_, arguments, ?_, ?_⟩
    · unfold resultSlot?
      split <;> simp [calleeSlot]
    · unfold resultSlot?
      split <;> simp
    · unfold resultSlot?
      split <;> simp
  have fields : model.slots.map Slot.field = (model.slots.map Slot.role).map SlotRole.field := by
    rw [List.map_map]
    rfl
  rw [fields]
  exact List.Nodup.map SlotRole.field_injective roles

section
variable {name : String} {pointerSize : UInt32} {model : StructModel} {slot : Slot}

/-- The struct of a wrapper has a field for each slot, of its type and with its size. -/
theorem field?_structRecord (h : slot ∈ model.slots) :
    ∃ f ∈ (structRecord pointerSize name model.slots).fields,
      (structRecord pointerSize name model.slots).field? slot.field = some f ∧
        Stores pointerSize f slot :=
  find?_of_stores (stores_placeSlots pointerSize 0 model.slots) model.distinct slot h

theorem fieldPlace_structRecord (h : slot ∈ model.slots) :
    (fieldPlace (structRecord pointerSize name model.slots) slot).size = slot.ty.size pointerSize ∧
      (fieldPlace (structRecord pointerSize name model.slots) slot).align =
        slot.ty.align pointerSize := by
  obtain ⟨f, -, found, stores⟩ := @field?_structRecord name pointerSize model slot h
  rw [fieldPlace_eq found]
  exact ⟨stores.size, stores.align⟩

/-- The slots of a struct lie behind one another, and inside the struct. -/
theorem pairwise_fieldPlace (fits : structSize pointerSize (model.slots.map Slot.ty) < 2 ^ 32) :
    (model.slots.map (fieldPlace (structRecord pointerSize name model.slots))).Pairwise
        (fun a b => a.stop ≤ b.offset.toNat) ∧
      ∀ slot ∈ model.slots, (fieldPlace (structRecord pointerSize name model.slots) slot).stop ≤
        (structRecord pointerSize name model.slots).size.toNat := by
  have stop := le_alignUp (fieldsStop pointerSize 0 (model.slots.map Slot.ty))
    (fieldsAlign pointerSize 1 (model.slots.map Slot.ty)).toNat
  have size : (structRecord pointerSize name model.slots).size.toNat =
      structSize pointerSize (model.slots.map Slot.ty) := by
    rw [structRecord, UInt32.toNat_ofNat', Nat.mod_eq_of_lt fits]
  obtain ⟨behind, inside⟩ := pairwise_placeSlots (Nat.lt_of_le_of_lt stop fits)
  have places : model.slots.map (fieldPlace (structRecord pointerSize name model.slots)) =
      (placeSlots pointerSize 0 model.slots).map fun f => ⟨f.offset, f.size, f.align⟩ := by
    have found := map_find?_of_stores (stores_placeSlots pointerSize 0 model.slots) model.distinct
    have placed := congrArg (List.map fun f : Option PlacedField =>
      (f.map fun f => (⟨f.offset, f.size, f.align⟩ : SlotPlace)).getD ⟨0, 0, 0⟩) found
    rw [List.map_map, List.map_map] at placed
    exact placed
  constructor
  · rw [places]
    exact List.pairwise_map.mpr behind
  · intro slot hslot
    obtain ⟨f, hf, found, stores⟩ := @field?_structRecord name pointerSize model slot hslot
    rw [fieldPlace_eq found, size]
    exact Nat.le_trans (inside f hf).2 stop

/-! ## Recovering the layout -/

/-- A slot with its place in a record. -/
def placedSlot (record : PlacedRecord) (slot : Slot) : StructLayout.Placed :=
  ⟨slot.role, fieldPlace record slot⟩

theorem place_eq {record : PlacedRecord} {f : PlacedField}
    (found : record.field? slot.field = some f) (ty : f.ty = slot.ty)
    (inside : (fieldPlace record slot).stop ≤ record.size.toNat)
    (callee : slot.role = .callee → (fieldPlace record slot).size = pointerSize) :
    StructLayout.place pointerSize record slot = .ok (placedSlot record slot) := by
  unfold placedSlot
  rw [fieldPlace_eq found, PlacedField.place] at inside callee ⊢
  unfold StructLayout.place
  rw [found]
  dsimp only
  rw [if_neg (by simp [ty]), if_neg (Nat.not_lt.mpr inside), if_neg]
  · rfl
  · rintro ⟨role, size⟩
    exact size (callee role)

theorem mapM_eq_ok {α β ε : Type} {f : α → Except ε β} {g : α → β} {xs : List α}
    (h : ∀ x ∈ xs, f x = .ok (g x)) : xs.mapM f = .ok (xs.map g) := by
  induction xs with
  | nil => rfl
  | cons x xs ih =>
      rw [List.mapM_cons, h x (List.mem_cons_self ..),
        ih fun y hy => h y (List.mem_cons_of_mem _ hy)]
      rfl

theorem requireDisjoint_eq_ok {placed : List StructLayout.Placed}
    (h : placed.Pairwise fun a b => a.layout.stop ≤ b.layout.offset.toNat) :
    StructLayout.requireDisjoint placed = .ok () := by
  induction placed with
  | nil => rfl
  | cons a placed ih =>
      cases placed with
      | nil => rfl
      | cons b placed =>
          obtain ⟨first, rest⟩ := List.pairwise_cons.mp h
          rw [StructLayout.requireDisjoint,
            if_neg (Nat.not_lt.mpr (first b (List.mem_cons_self ..)))]
          exact ih rest

theorem mem_slots : slot ∈ model.slots ↔
    slot = model.calleeSlot ∨ slot ∈ model.inputSlots ∨ slot ∈ model.resultSlot? := by
  simp [StructModel.slots]

/-- What is listed for the slots has three parts, as a layout has. -/
theorem StructModel.map_slots {α : Type} (model : StructModel) (f : Slot → α) :
    model.slots.map f = f model.calleeSlot :: model.inputSlots.map f ++
      (model.resultSlot?.map f).toList := by
  unfold StructModel.slots
  rw [List.cons_append, List.cons_append, List.map_cons, List.map_append]
  cases model.resultSlot? <;> rfl

/-- Only one slot is for the callee. -/
theorem eq_calleeSlot (h : slot ∈ model.slots) (role : slot.role = .callee) :
    slot = model.calleeSlot := by
  rcases mem_slots.mp h with rfl | input | result
  · rfl
  · obtain ⟨i, hi, rfl⟩ := List.mem_mapIdx.mp input
    cases role
  · unfold StructModel.resultSlot? at result
    split at result <;> cases result
    cases role

theorem size_of_callee (h : slot ∈ model.slots) (role : slot.role = .callee) :
    slot.ty.size pointerSize = pointerSize := by
  rw [eq_calleeSlot h role]
  rfl

/-- A layout is recovered when each slot has a place and no two neighbours overlap. -/
theorem recover_of_disjoint {records : List PlacedRecord} {record : PlacedRecord}
    (known : records.find? (·.name = name) = some record)
    (typed : ∀ slot ∈ model.slots, ∃ f, record.field? slot.field = some f ∧ f.ty = slot.ty)
    (inside : ∀ slot ∈ model.slots, (fieldPlace record slot).stop ≤ record.size.toNat)
    (pointer : ∀ slot ∈ model.slots, slot.role = .callee →
      (fieldPlace record slot).size = pointerSize)
    (disjoint : StructLayout.requireDisjoint
      ((model.slots.map (placedSlot record)).mergeSort
        fun a b => a.layout.offset ≤ b.layout.offset) = .ok ()) :
    StructLayout.recover records name model pointerSize = .ok (layoutOf record model) := by
  have place (slot : Slot) (h : slot ∈ model.slots) :
      StructLayout.place pointerSize record slot = .ok (placedSlot record slot) := by
    obtain ⟨f, found, ty⟩ := typed slot h
    exact place_eq found ty (inside slot h) (pointer slot h)
  have function := place model.calleeSlot (mem_slots.mpr (.inl rfl))
  have arguments : model.inputSlots.mapM (StructLayout.place pointerSize record) =
      .ok (model.inputSlots.map (placedSlot record)) :=
    mapM_eq_ok fun slot hslot => place slot (mem_slots.mpr (.inr (.inl hslot)))
  have result : model.resultSlot?.mapM (StructLayout.place pointerSize record) =
      .ok (model.resultSlot?.map (placedSlot record)) := by
    cases h : model.resultSlot? with
    | none => rfl
    | some slot =>
        show (StructLayout.place pointerSize record slot >>= fun p => pure (some p)) = _
        rw [place slot (mem_slots.mpr (.inr (.inr h)))]
        rfl
  unfold StructLayout.recover
  rw [known]
  simp only [function, arguments, result, bind, Except.bind, pure, Except.pure]
  rw [← StructModel.map_slots, disjoint]
  simp only [layoutOf, List.map_map, Option.map_map]
  rfl

/-- A layout is recovered from a record whose fields lie in the order of the slots. -/
theorem recover_of_ordered {records : List PlacedRecord} {record : PlacedRecord}
    (known : records.find? (·.name = name) = some record)
    (typed : ∀ slot ∈ model.slots, ∃ f, record.field? slot.field = some f ∧ f.ty = slot.ty)
    (inside : ∀ slot ∈ model.slots, (fieldPlace record slot).stop ≤ record.size.toNat)
    (pointer : ∀ slot ∈ model.slots, slot.role = .callee →
      (fieldPlace record slot).size = pointerSize)
    (behind : (model.slots.map (fieldPlace record)).Pairwise fun a b => a.stop ≤ b.offset.toNat) :
    StructLayout.recover records name model pointerSize = .ok (layoutOf record model) := by
  refine recover_of_disjoint known typed inside pointer ?_
  have ordered : (model.slots.map (placedSlot record)).Pairwise fun a b =>
      a.layout.stop ≤ b.layout.offset.toNat :=
    List.pairwise_map.mpr (List.pairwise_map.mp behind)
  rw [List.mergeSort_of_pairwise (ordered.imp fun {a b} h => ?_)]
  · exact requireDisjoint_eq_ok ordered
  · rw [decide_eq_true_eq, UInt32.le_iff_toNat_le]
    exact Nat.le_trans (Nat.le_add_right ..) h

/-- The layout of a struct is recovered from its record. -/
theorem recover_structRecord {records : RecordTable}
    (known : records.find? name = some (structRecord pointerSize name model.slots))
    (fits : structSize pointerSize (model.slots.map Slot.ty) < 2 ^ 32) :
    StructLayout.recover records name model pointerSize =
      .ok (layoutOf (structRecord pointerSize name model.slots) model) := by
  obtain ⟨behind, inside⟩ := @pairwise_fieldPlace name pointerSize model fits
  refine recover_of_ordered known (fun slot member => ?_) inside (fun slot member role => ?_) behind
  · obtain ⟨f, -, found, stores⟩ := @field?_structRecord name pointerSize model slot member
    exact ⟨f, found, stores.ty⟩
  · rw [(@fieldPlace_structRecord name pointerSize model slot member).1,
      size_of_callee member role]

end

end CallThunk
