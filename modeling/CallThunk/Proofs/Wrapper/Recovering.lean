import CallThunk.Proofs.Call.Writing
import CallThunk.Proofs.Wrapper.Settling

/-!
# What a recovered layout is worth

A layout is recovered from the records of any compiler. Each slot is looked at on its own, and then
only neighbours in the order of their offsets are compared. This is enough: in a layout that is
recovered every slot lies inside the struct, the callee's slot has the size of a pointer, and any
two slots lie apart.
-/

namespace CallThunk

/-- A record has room for the slots of a model: a field of its type for each of them, inside of the
record and apart from all others. -/
structure PlacedRecord.Accommodates (record : PlacedRecord) (pointerSize : UInt32)
    (model : StructModel) : Prop where
  typed : ∀ slot ∈ model.slots, ∃ f, record.field? slot.field = some f ∧ f.ty = slot.ty
  within : ∀ slot ∈ model.slots, (fieldPlace record slot).stop ≤ record.size.toNat
  callee : (fieldPlace record model.calleeSlot).size = pointerSize
  apart : (model.slots.map (fieldPlace record)).Pairwise SlotPlace.Apart

/-! ## Neighbours -/

/-- When slots are ordered by their offsets, it is enough to look at neighbours. -/
theorem pairwise_of_requireDisjoint {placed : List StructLayout.Placed}
    (ordered : placed.Pairwise fun a b => a.layout.offset ≤ b.layout.offset)
    (h : StructLayout.requireDisjoint placed = .ok ()) :
    placed.Pairwise fun a b => a.layout.stop ≤ b.layout.offset.toNat := by
  induction placed with
  | nil => exact .nil
  | cons a rest ih =>
      cases rest with
      | nil => exact List.pairwise_singleton ..
      | cons b rest =>
          obtain ⟨-, later⟩ := List.pairwise_cons.mp ordered
          obtain ⟨behind, -⟩ := List.pairwise_cons.mp later
          rw [StructLayout.requireDisjoint] at h
          split at h
          · cases h
          next first =>
            refine List.pairwise_cons.mpr ⟨?_, ih later h⟩
            rintro c (_ | ⟨_, hc⟩)
            · exact Nat.not_lt.mp first
            · -- a slot behind the neighbour starts where that one does, or later
              have start := UInt32.le_iff_toNat_le.mp (behind c hc)
              exact Nat.le_trans (Nat.not_lt.mp first) start

/-- Places ordered by their offsets. -/
theorem pairwise_sorted (placed : List StructLayout.Placed) :
    (placed.mergeSort fun a b => a.layout.offset ≤ b.layout.offset).Pairwise
      fun a b => a.layout.offset ≤ b.layout.offset := by
  refine (List.pairwise_mergeSort ?_ ?_ placed).imp of_decide_eq_true
  · intro a b c first second
    simp only [decide_eq_true_eq] at first second ⊢
    exact UInt32.le_trans first second
  · intro a b
    simp only [Bool.or_eq_true, decide_eq_true_eq]
    exact UInt32.le_total ..

/-- Whether places lie apart does not depend on their order. -/
theorem pairwise_apart_sorted {placed : List StructLayout.Placed} :
    (placed.mergeSort fun a b => a.layout.offset ≤ b.layout.offset).Pairwise
      (fun a b => a.layout.Apart b.layout) ↔
        (placed.map StructLayout.Placed.layout).Pairwise SlotPlace.Apart := by
  rw [List.pairwise_map]
  exact (List.mergeSort_perm ..).pairwise_iff fun {a b} => Or.symm

/-- Slots whose neighbours were looked at lie apart from each other, in whatever order they are
listed. -/
theorem apart_of_requireDisjoint {placed : List StructLayout.Placed}
    (h : StructLayout.requireDisjoint
      (placed.mergeSort fun a b => a.layout.offset ≤ b.layout.offset) = .ok ()) :
    (placed.map StructLayout.Placed.layout).Pairwise SlotPlace.Apart :=
  pairwise_apart_sorted.mp ((pairwise_of_requireDisjoint (pairwise_sorted placed) h).imp .inl)

/-! ## Recovering -/

section
variable {pointerSize : UInt32} {record : PlacedRecord} {model : StructModel} {slot : Slot}
  {layout : StructLayout}

/-- What was checked of a slot that has a place. -/
theorem place_eq_ok {placed : StructLayout.Placed}
    (h : StructLayout.place pointerSize record slot = .ok placed) :
    placed = placedSlot record slot ∧
      (∃ f, record.field? slot.field = some f ∧ f.ty = slot.ty) ∧
      (fieldPlace record slot).stop ≤ record.size.toNat ∧
      (slot.role = .callee → (fieldPlace record slot).size = pointerSize) := by
  unfold StructLayout.place at h
  split at h
  next field found =>
    unfold placedSlot
    rw [fieldPlace_eq found]
    dsimp only at h
    split at h
    · cases h
    next same =>
      split at h
      · cases h
      next inside =>
        split at h
        · cases h
        next sized =>
          cases h
          refine ⟨rfl, ⟨field, found, Classical.not_not.mp same⟩, Nat.not_lt.mp inside,
            fun role => ?_⟩
          exact Classical.not_not.mp fun other => sized ⟨role, other⟩
  next => cases h

/-- The slots of a layout, in the order of the struct. -/
theorem slots_layoutOf (record : PlacedRecord) (model : StructModel) :
    (layoutOf record model).slots = model.slots.map (fieldPlace record) := by
  rw [StructModel.map_slots]
  rfl

/-- The slots of a recovered layout lie in the struct. -/
theorem PlacedRecord.Accommodates.stop_le (h : record.Accommodates pointerSize model)
    {place : SlotPlace} (member : place ∈ (layoutOf record model).slots) :
    place.stop ≤ (layoutOf record model).size.toNat := by
  rw [slots_layoutOf] at member
  obtain ⟨slot, hslot, rfl⟩ := List.mem_map.mp member
  exact h.within slot hslot

/-- The slots of a recovered layout lie apart from each other. -/
theorem PlacedRecord.Accommodates.slots_apart (h : record.Accommodates pointerSize model) :
    (layoutOf record model).slots.Pairwise SlotPlace.Apart := by
  rw [slots_layoutOf]
  exact h.apart

/-- What is recovered is the layout that one record gives to the slots of the model, and that record
has room for them. -/
theorem of_recover {records : List PlacedRecord} {structName : String}
    (h : StructLayout.recover records structName model pointerSize = .ok layout) :
    ∃ record, records.find? (·.name = structName) = some record ∧
      record.Accommodates pointerSize model ∧ layout = layoutOf record model := by
  unfold StructLayout.recover at h
  split at h
  next record found =>
    obtain ⟨function, callee, h⟩ := bind_eq_ok.mp h
    obtain ⟨arguments, inputs, h⟩ := bind_eq_ok.mp h
    obtain ⟨result, output, h⟩ := bind_eq_ok.mp h
    obtain ⟨_, disjoint, h⟩ := bind_eq_ok.mp h
    have inside : ∀ slot ∈ model.slots, StructLayout.place pointerSize record slot =
        .ok (placedSlot record slot) := by
      have known {slot : Slot} {p : StructLayout.Placed}
          (h : StructLayout.place pointerSize record slot = .ok p) :
          StructLayout.place pointerSize record slot = .ok (placedSlot record slot) := by
        rw [h, (place_eq_ok h).1]
      intro slot hslot
      rcases mem_slots.mp hslot with rfl | input | last
      · exact known callee
      · obtain ⟨p, hp⟩ := Settles.ok_of_mapM inputs slot input
        exact known hp
      · rw [last] at output
        obtain ⟨p, hp, -⟩ := bind_eq_ok.mp output
        exact known hp
    -- so the three parts of the layout are the places of the three kinds of slots
    have first : function = placedSlot record model.calleeSlot :=
      Except.ok.inj (callee.symm.trans (inside _ (calleeSlot_mem model)))
    have middle : arguments = model.inputSlots.map (placedSlot record) := by
      have mapped := mapM_eq_ok fun slot hslot => inside slot (inputSlots_subset model hslot)
      exact Except.ok.inj (inputs.symm.trans mapped)
    have last : result = model.resultSlot?.map (placedSlot record) := by
      cases slot : model.resultSlot? with
      | none =>
          rw [slot] at output
          exact (Except.ok.inj output).symm
      | some slot' =>
          rw [slot] at output
          obtain ⟨p, hp, output⟩ := bind_eq_ok.mp output
          cases output
          rw [hp.symm.trans (inside _ (mem_slots.mpr (.inr (.inr slot)))) |> Except.ok.inj]
          rfl
    subst first middle last
    rw [← StructModel.map_slots] at disjoint
    have apart := apart_of_requireDisjoint disjoint
    rw [List.map_map] at apart
    refine ⟨record, found, ?_, ?_⟩
    · exact {
        typed := fun slot hslot => (place_eq_ok (inside slot hslot)).2.1
        within := fun slot hslot => (place_eq_ok (inside slot hslot)).2.2.1
        callee := (place_eq_ok (inside _ (calleeSlot_mem model))).2.2.2 rfl
        apart }
    · cases h
      unfold layoutOf
      simp only [List.map_map, Option.map_map]
      rfl
  next => cases h

end

end CallThunk
