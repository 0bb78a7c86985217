import CallThunk.Proofs.Wrapper.Passing

/-!
# Images of arguments

Each argument that is accepted has an image, which takes exactly the bytes of its slot, and the
slots of a struct lie behind one another. So a write that is done leaves every slot with the image
of its argument, whatever the sizes of pointers and the order of bytes.
-/

namespace CallThunk

open Caller (ArgumentImage slotAddress)

section
variable {target : Target} {record : PlacedRecord} {slots : List Slot} {values : List Value}
  {index : Nat} {images : List (SlotPlace × ArgumentImage)}

/-- Each image belongs to the slot of its argument. -/
theorem images_of_argumentImages (count : values.length = slots.length)
    (h : Caller.argumentImages target index (slots.map Slot.ty) (slots.map (fieldPlace record))
      values = .ok images) :
    images.map Prod.fst = slots.map (fieldPlace record) ∧
      (∀ p ∈ images, ∃ slot ∈ slots, p.1 = fieldPlace record slot ∧
        ∃ i v, Caller.argumentImage target i slot.ty p.1 v = .ok p.2) ∧
      ∀ base sides m stop, (∀ p ∈ images, Stored target base sides m stop p.1 p.2) →
        List.Forall₂ (fun slot v =>
          Carries target base sides m stop slot.ty (fieldPlace record slot) v) slots values := by
  induction slots generalizing values index images with
  | nil =>
      cases List.length_eq_zero_iff.mp count
      cases h
      exact ⟨rfl, nofun, fun _ _ _ _ _ => .nil⟩
  | cons slot slots ih =>
      cases values with
      | nil => cases count
      | cons v values =>
          obtain ⟨image, first, h⟩ := bind_eq_ok.mp h
          obtain ⟨rest, others, h⟩ := bind_eq_ok.mp h
          cases h
          obtain ⟨places, belong, carries⟩ := ih (Nat.succ.inj count) others
          refine ⟨by rw [List.map_cons, List.map_cons, places], ?_, ?_⟩
          · rintro p (_ | ⟨_, hp⟩)
            · exact ⟨slot, List.mem_cons_self .., rfl, index, v, first⟩
            · obtain ⟨other, hother, belongs⟩ := belong p hp
              exact ⟨other, List.mem_cons_of_mem _ hother, belongs⟩
          · intro base sides m stop stored
            exact .cons ⟨index, image, first, stored _ (List.mem_cons_self ..)⟩
              (carries base sides m stop fun p hp => stored p (List.mem_cons_of_mem _ hp))

/-- An image takes all the bytes of its slot. -/
theorem length_of_argumentImage {i : Nat} {ty : Ty} {place : SlotPlace} {v : Value}
    {image : ArgumentImage} (h : Caller.argumentImage target i ty place v = .ok image)
    (size : place.size = ty.size target.pointerSize) :
    image.length target = place.size.toNat := by
  obtain ⟨admits, ⟨record, bytes, rfl, -, rfl⟩ | ⟨bytes, -, length, rfl⟩⟩ := argumentImage_eq_ok h
  · have addresses := isAddress_of_admits admits trivial
    rw [size]
    cases ty with
    | pointer | function => rfl
    | void | bool | int | float | record => exact addresses.elim
  · exact length

end

/-! ## Slots of a checked struct -/

/-- The slots of a model lie in a record, one behind the other, and have the sizes of their
types. -/
structure LaidOut (pointerSize : UInt32) (record : PlacedRecord) (model : StructModel) : Prop where
  size : ∀ slot ∈ model.slots, (fieldPlace record slot).size = slot.ty.size pointerSize
  within : ∀ slot ∈ model.slots, (fieldPlace record slot).stop ≤ record.size.toNat
  ordered : (model.slots.map (fieldPlace record)).Pairwise fun a b => a.stop ≤ b.offset.toNat

theorem laidOut_structRecord {pointerSize : UInt32} {name : String} {model : StructModel}
    (fits : structSize pointerSize (model.slots.map Slot.ty) < 2 ^ 32) :
    LaidOut pointerSize (structRecord pointerSize name model.slots) model := by
  obtain ⟨ordered, within⟩ := @pairwise_fieldPlace name pointerSize model fits
  exact ⟨fun slot hslot => (fieldPlace_structRecord hslot).1, within, ordered⟩

section
variable {caller : Caller} {r : Ready} {record : PlacedRecord} {args : List Value}
  {function : List UInt8} {arguments : List (SlotPlace × ArgumentImage)}

/-- The images of all arguments fill their slots, which lie behind the callee's. -/
theorem images_of_laidOut (laid : LaidOut r.target.pointerSize record caller.model)
    (layout : r.layout = layoutOf record caller.model)
    (h : caller.images r args = .ok (function, arguments)) :
    (∀ p ∈ arguments, p.2.length r.target = p.1.size.toNat ∧ p.1.stop ≤ record.size.toNat) ∧
      (r.layout.function :: arguments.map Prod.fst).Pairwise
        (fun a b => a.stop ≤ b.offset.toNat) ∧
      ∀ base sides m stop, (∀ p ∈ arguments, Stored r.target base sides m stop p.1 p.2) →
        List.Forall₂ (fun slot v =>
          Carries r.target base sides m stop slot.ty (fieldPlace record slot) v)
            caller.model.inputSlots args := by
  obtain ⟨arity, checked, -⟩ := images_eq_ok.mp h
  rw [layout, ← inputSlots_tys] at checked
  obtain ⟨places, belong, carries⟩ :=
    images_of_argumentImages (arity.trans (length_inputSlots _).symm) checked
  refine ⟨fun p hp => ?_, ?_, carries⟩
  · obtain ⟨slot, hslot, place, i, v, image⟩ := belong p hp
    have member := inputSlots_subset caller.model hslot
    rw [place] at image ⊢
    exact ⟨length_of_argumentImage image (laid.size slot member), laid.within slot member⟩
  · -- the result's slot comes last and is not written
    have ordered := laid.ordered
    rw [places, layout]
    unfold StructModel.slots at ordered
    rw [List.cons_append, List.map_cons, List.map_append] at ordered
    exact ordered.sublist (List.Sublist.cons_cons _ (List.sublist_append_left ..))

/-- The slot of the callee has the size of a pointer. -/
theorem function_of_laidOut (laid : LaidOut r.target.pointerSize record caller.model)
    (layout : r.layout = layoutOf record caller.model) :
    r.layout.function.size = r.target.pointerSize ∧
      r.layout.function.stop ≤ record.size.toNat := by
  have callee := calleeSlot_mem caller.model
  have function : r.layout.function = fieldPlace record caller.model.calleeSlot := by
    rw [layout]
    rfl
  rw [function]
  exact ⟨laid.size _ callee, laid.within _ callee⟩

/-- A write that is done leaves the callee's address in its slot and every argument in its own. -/
theorem carries_of_write {ω : Type} {ctx : Context ω} {memory : ω → Memory}
    {s s' : Activation × ω} {u : PUnit} (manages : ctx.Manages memory)
    (ready : caller.ready = .ok r) (laid : LaidOut r.target.pointerSize record caller.model)
    (layout : r.layout = layoutOf record caller.model)
    (written : Yields (caller.write ctx args) s u s') (bounded : (memory s.2).Bounded)
    (inside : s.1.structAddress.toNat + record.size.toNat ≤ (memory s.2).next.toNat) :
    ∃ function arguments, caller.images r args = .ok (function, arguments) ∧
      (memory s'.2).contents.read (slotAddress s'.1 r.layout.function) function.length = function ∧
      List.Forall₂ (fun slot v => Carries r.target s'.1.structAddress s'.1.sides (memory s'.2)
        record.size.toNat slot.ty (fieldPlace record slot) v) caller.model.inputSlots args := by
  obtain ⟨function, arguments, images, -, -, held, stored⟩ :=
    stored_of_write manages ready written bounded inside (function_of_laidOut laid layout)
      fun function arguments images =>
        have ⟨sizes, ordered, _⟩ := images_of_laidOut laid layout images
        ⟨fun p hp => ⟨Nat.le_of_eq (sizes p hp).1, (sizes p hp).2⟩, ordered.imp .inl⟩
  obtain ⟨-, -, carries⟩ := images_of_laidOut laid layout images
  exact ⟨function, arguments, images, held, carries _ _ _ _ stored⟩

end

end CallThunk
