import CallThunk.Proofs.Wrapper.Recovering

/-!
# Which layouts are recovered

Comparing neighbours in the order of their offsets is not only enough. When no slot is empty it
refuses nothing that it should not: slots that share no byte are ordered by their offsets, each
behind the end of the one before. A layout is then recovered from every record that has the fields
of the model, and its slots are found under the indices that the model gives to them.
-/

namespace CallThunk

/-! ## Bytes of slots -/

namespace SlotPlace

/-- Whether a byte of the struct belongs to a slot. -/
def Holds (place : SlotPlace) (byte : Nat) : Prop :=
  place.offset.toNat ≤ byte ∧ byte < place.stop

/-- Two slots share no byte. -/
def Disjoint (a b : SlotPlace) : Prop := ∀ byte, ¬ (a.Holds byte ∧ b.Holds byte)

variable {a b : SlotPlace}

/-- Ends of slots do not overflow in 64 bits. -/
theorem toNat_end (place : SlotPlace) :
    (place.offset.toUInt64 + place.size.toUInt64).toNat = place.stop := by
  have offset := place.offset.toNat_lt
  have size := place.size.toNat_lt
  rw [UInt64.toNat_add, UInt32.toNat_toUInt64, UInt32.toNat_toUInt64]
  exact Nat.mod_eq_of_lt (by omega)

theorem offset_lt_stop (h : 0 < a.size) : a.offset.toNat < a.stop :=
  Nat.lt_add_of_pos_right (UInt32.lt_iff_toNat_lt.mp h)

/-- Slots that are not empty lie apart when they share no byte. -/
theorem apart_iff_disjoint (ha : 0 < a.size) (hb : 0 < b.size) :
    a.Apart b ↔ a.Disjoint b := by
  have first := offset_lt_stop ha
  have second := offset_lt_stop hb
  unfold Apart Disjoint Holds
  constructor
  · intro apart byte
    omega
  · intro disjoint
    -- the later one of the two starts would belong to both
    have start := disjoint (max a.offset.toNat b.offset.toNat)
    omega

/-- Of two slots apart, the one with the lesser offset is behind the other only if it is empty. -/
theorem Apart.stop_le (h : a.Apart b) (hb : 0 < b.size) (le : a.offset ≤ b.offset) :
    a.stop ≤ b.offset.toNat := by
  have nonempty := offset_lt_stop hb
  rw [UInt32.le_iff_toNat_le] at le
  unfold Apart at h
  omega

end SlotPlace

/-- Slots that are not empty and lie apart pass the comparison of neighbours. -/
theorem requireDisjoint_sorted {placed : List StructLayout.Placed}
    (nonempty : ∀ p ∈ placed, 0 < p.layout.size)
    (apart : (placed.map StructLayout.Placed.layout).Pairwise SlotPlace.Apart) :
    StructLayout.requireDisjoint
      (placed.mergeSort fun a b => a.layout.offset ≤ b.layout.offset) = .ok () := by
  refine requireDisjoint_eq_ok ?_
  have both := (pairwise_sorted placed).and (pairwise_apart_sorted.mpr apart)
  refine both.imp_of_mem fun {a b} _ hb h => h.2.stop_le ?_ h.1
  exact nonempty b ((List.mergeSort_perm ..).mem_iff.mp hb)

/-! ## Recovering -/

variable {records : List PlacedRecord} {name : String} {model : StructModel} {pointerSize : UInt32}
  {record : PlacedRecord}

/-- A layout is recovered from a record that has room for the slots of a model, if none of them is
empty. -/
theorem recover_of_accommodates (known : records.find? (·.name = name) = some record)
    (room : record.Accommodates pointerSize model)
    (nonempty : ∀ slot ∈ model.slots, 0 < (fieldPlace record slot).size) :
    StructLayout.recover records name model pointerSize = .ok (layoutOf record model) := by
  refine recover_of_disjoint known room.typed room.within ?_ (requireDisjoint_sorted ?_ ?_)
  · intro slot hslot role
    rw [eq_calleeSlot hslot role]
    exact room.callee
  · intro p hp
    obtain ⟨slot, hslot, rfl⟩ := List.mem_map.mp hp
    exact nonempty slot hslot
  · rw [List.map_map]
    exact room.apart

/-- Fields of the right names and types that are not empty and share no byte make room for the
slots. -/
theorem accommodates_of_fields
    (fields : ∀ slot ∈ model.slots, ∃ f, record.field? slot.field = some f ∧ f.ty = slot.ty ∧
      f.place.stop ≤ record.size.toNat ∧ 0 < f.size)
    (callee : ∀ f, record.field? model.calleeSlot.field = some f → f.size = pointerSize)
    (disjoint : model.slots.Pairwise fun a b => ∀ f g, record.field? a.field = some f →
      record.field? b.field = some g → f.place.Disjoint g.place) :
    record.Accommodates pointerSize model ∧
      ∀ slot ∈ model.slots, 0 < (fieldPlace record slot).size := by
  have nonempty : ∀ slot ∈ model.slots, 0 < (fieldPlace record slot).size := by
    intro slot hslot
    obtain ⟨f, found, -, -, size⟩ := fields slot hslot
    rw [fieldPlace_eq found]
    exact size
  refine ⟨⟨fun slot hslot => ?_, fun slot hslot => ?_, ?_, ?_⟩, nonempty⟩
  · obtain ⟨f, found, ty, -⟩ := fields slot hslot
    exact ⟨f, found, ty⟩
  · obtain ⟨f, found, -, inside, -⟩ := fields slot hslot
    rw [fieldPlace_eq found]
    exact inside
  · obtain ⟨f, found, -⟩ := fields _ (calleeSlot_mem model)
    rw [fieldPlace_eq found]
    exact callee f found
  · refine List.pairwise_map.mpr (disjoint.imp_of_mem fun {a b} ha hb apart => ?_)
    obtain ⟨f, first, -⟩ := fields a ha
    obtain ⟨g, second, -⟩ := fields b hb
    rw [SlotPlace.apart_iff_disjoint (nonempty a ha) (nonempty b hb), fieldPlace_eq first,
      fieldPlace_eq second]
    exact apart f g first second

/-- The slot at an index of the model is found under that index. -/
theorem slot?_layoutOf (record : PlacedRecord) (model : StructModel) (i : Nat) :
    (layoutOf record model).slot? i = model.slots[i]?.map (fieldPlace record) := by
  unfold StructLayout.slot?
  rw [slots_layoutOf, List.getElem?_map]

theorem countSlots_layoutOf (record : PlacedRecord) (model : StructModel) :
    (layoutOf record model).countSlots = model.slots.length := by
  unfold StructLayout.countSlots
  rw [slots_layoutOf, List.length_map]

/-- A recovered layout has the slots of the model under their indices, each where the record has
the field of its name and type; they lie inside the struct and apart from each other. And if no slot
is empty, all of this is enough for a layout to be recovered. -/
theorem StructLayout.recover_exact (records : List PlacedRecord) (name : String)
    (model : StructModel) (pointerSize : UInt32) :
    (∀ layout, recover records name model pointerSize = .ok layout →
      ∃ record, records.find? (·.name = name) = some record ∧
        layout.size = record.size ∧ layout.align = record.align ∧
        layout.countSlots = model.slots.length ∧
        (∀ (i : Nat) (slot : Slot), model.slots[i]? = some slot →
          ∃ f, record.field? slot.field = some f ∧ f.ty = slot.ty ∧
            layout.slot? i = some f.place) ∧
        (∀ i, layout.countSlots ≤ i → layout.slot? i = none) ∧
        (∀ place ∈ layout.slots, place.stop ≤ record.size.toNat) ∧
        layout.slots.Pairwise SlotPlace.Apart ∧ layout.function.size = pointerSize) ∧
    (∀ record, records.find? (·.name = name) = some record →
      (∀ slot ∈ model.slots, ∃ f, record.field? slot.field = some f ∧ f.ty = slot.ty ∧
        f.place.stop ≤ record.size.toNat ∧ 0 < f.size) →
      (∀ f, record.field? model.calleeSlot.field = some f → f.size = pointerSize) →
      (model.slots.Pairwise fun a b => ∀ f g, record.field? a.field = some f →
        record.field? b.field = some g → f.place.Disjoint g.place) →
      recover records name model pointerSize = .ok (layoutOf record model)) ∧
    ∀ place : SlotPlace, (place.offset.toUInt64 + place.size.toUInt64).toNat = place.stop := by
  refine ⟨fun layout h => ?_, fun record known fields callee disjoint => ?_, SlotPlace.toNat_end⟩
  · obtain ⟨record, known, room, rfl⟩ := of_recover h
    refine ⟨record, known, rfl, rfl, countSlots_layoutOf record model, fun i slot hslot => ?_,
      fun i beyond => List.getElem?_eq_none beyond, fun place => room.stop_le, room.slots_apart,
      room.callee⟩
    obtain ⟨f, found, ty⟩ := room.typed slot (List.mem_of_getElem? hslot)
    refine ⟨f, found, ty, ?_⟩
    rw [slot?_layoutOf, hslot, Option.map_some, fieldPlace_eq found]
  · obtain ⟨room, nonempty⟩ := accommodates_of_fields fields callee disjoint
    exact recover_of_accommodates known room nonempty

/-- A struct whose fields lie in the reverse of the order of the slots. -/
def reversedArgs : PlacedRecord :=
  ⟨"args", 16, 8, [⟨"return_value", .int .u64, 0, 8, 8⟩,
    ⟨"fn_ptr", .function (.int .u64) [] false, 8, 8, 8⟩]⟩

theorem recover_exact_reversed :
    ∃ layout,
      StructLayout.recover [reversedArgs] "args" ⟨⟨.int .u64, [], false⟩, []⟩ 8 = .ok layout ∧
      layout.slot? 0 = some ⟨8, 8, 8⟩ ∧ layout.slot? 1 = some ⟨0, 8, 8⟩ := by
  obtain ⟨sound, complete, -⟩ :=
    StructLayout.recover_exact [reversedArgs] "args" ⟨⟨.int .u64, [], false⟩, []⟩ 8
  have recovered := by
    refine complete reversedArgs (by decide) ?_ ?_ ?_
    · rintro slot (_ | ⟨_, _ | ⟨_, ⟨⟩⟩⟩)
      · exact ⟨_, rfl, rfl, by decide, by decide⟩
      · exact ⟨_, rfl, rfl, by decide, by decide⟩
    · rintro f ⟨⟩
      rfl
    · refine .cons ?_ (List.pairwise_singleton ..)
      rintro slot (_ | ⟨_, ⟨⟩⟩) f g ⟨⟩ ⟨⟩
      exact (SlotPlace.apart_iff_disjoint (by decide) (by decide)).mp (.inr (by decide))
  obtain ⟨record, known, -, -, -, slots, -⟩ := sound _ recovered
  obtain rfl := Option.some.inj known
  obtain ⟨f, found, -, first⟩ := slots 0 _ rfl
  obtain ⟨g, found', -, second⟩ := slots 1 _ rfl
  cases found
  cases found'
  exact ⟨_, recovered, first, second⟩

end CallThunk
