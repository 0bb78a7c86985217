import CallThunk.Proofs.Call.Images

/-!
# Reading arguments back

What the slots of a struct carry is read back from them: every value with the bits that were
written, an aggregate with all its bytes. Only the pointee of a pointer is not in memory; it is
taken from the slot.
-/

namespace CallThunk

open Caller (slotAddress)

/-- A value as it is read back from a slot. -/
def Value.readBack : Ty → Value → Value
  | .pointer pointee, .pointer _ address => .pointer pointee address
  | .function ret params variadic, .pointer _ address =>
    .pointer (.function ret params variadic) address
  | _, v => v

/-! ## Decoding images -/

section
variable {target : Target} {slot : Ty} {v : Value} {bytes : List UInt8}

theorem decodeWord_image {count n : Nat} (h : n < 256 ^ count) :
    Value.decodeWord target slot count (target.order.image count n) = .ok n := by
  unfold Value.decodeWord
  rw [if_pos (ByteOrder.length_image ..), ByteOrder.value_image, Nat.mod_eq_of_lt h]

/-- An address that has an image is found in it. -/
theorem addressOf_image {address : UInt64} {image : List UInt8}
    (h : target.addressImage address = .ok image) :
    Value.addressOf target slot image = .ok address := by
  obtain ⟨width, fits, rfl⟩ := addressImage_eq_ok.mp h
  unfold Value.addressOf
  rw [if_pos width, decodeWord_image fits]
  show Except.ok (UInt64.ofNat address.toNat) = _
  rw [UInt64.ofNat_toNat]

/-- The slot of an address is decoded as a pointer, and every pointer is read back from it so. -/
theorem decode_addressImage (addresses : slot.IsAddress) {address : UInt64} {image : List UInt8}
    (h : target.addressImage address = .ok image) :
    ∃ pointee, Value.decode target slot image = .ok (.pointer pointee address) ∧
      ∀ own, (Value.pointer own address).readBack slot = .pointer pointee address := by
  cases slot with
  | pointer pointee =>
      refine ⟨pointee, ?_, fun _ => rfl⟩
      rw [Value.decode, addressOf_image h]
      rfl
  | function ret params variadic =>
      refine ⟨.function ret params variadic, ?_, fun _ => rfl⟩
      rw [Value.decode, addressOf_image h]
      rfl
  | void | bool | int | float | record => exact addresses.elim

/-- What is encoded for a slot is decoded again. -/
theorem decode_encode (admits : slot.admits v.slotTy) (encoded : v.encode target = .ok bytes) :
    Value.decode target slot bytes = .ok (v.readBack slot) := by
  cases v with
  | void => cases encoded
  | aggregate => cases encoded
  | pointer pointee address =>
      have addresses : slot.IsAddress := by
        refine isAddress_of_admits admits ?_
        cases pointee <;> trivial
      obtain ⟨own, decoded, back⟩ := decode_addressImage addresses encoded
      rw [decoded, back]
  | bool b =>
      cases encoded
      cases eq_of_admits admits id
      cases b <;> cases target with | mk size order => cases order <;> rfl
  | int kind bits =>
      cases encoded
      cases eq_of_admits admits id
      show (Value.decodeWord target _ _ _).map _ = _
      rw [decodeWord_image (IntKind.toNat_lt bits)]
      show Except.ok (Value.int kind (BitVec.ofNat _ bits.toNat)) = _
      rw [BitVec.ofNat_toNat, BitVec.setWidth_eq]
      rfl
  | float kind bits =>
      cases encoded
      cases eq_of_admits admits id
      show (Value.decodeWord target _ _ _).map _ = _
      rw [decodeWord_image (FloatKind.toNat_lt bits)]
      show Except.ok (Value.float kind (BitVec.ofNat _ bits.toNat)) = _
      rw [BitVec.ofNat_toNat, BitVec.setWidth_eq]
      rfl

end

/-! ## Reading slots -/

section
variable {ω : Type} {ctx : Context ω} {memory : ω → Memory} {target : Target}
  {activation : Activation} {stop : Nat} {w : ω}

/-- A range that holds bytes is read. -/
theorem Context.Manages.yields_read (manages : ctx.Manages memory) {a : UInt64} {n : Nat}
    {bytes : List UInt8} (held : (memory w).read? a n = some bytes) :
    ∃ w', Yields (ctx.read a n) w bytes w' ∧ memory w' = memory w := by
  rcases ran : (ctx.read a n).run.run w with ⟨result, w'⟩
  obtain ⟨reads, same⟩ := manages.reads ran
  cases reads with
  | unmapped unmapped => cases held.symm.trans unmapped
  | read read =>
      cases held.symm.trans read
      exact ⟨w', ran, same⟩

/-- A range that is accessible is written. -/
theorem Context.Manages.yields_write (manages : ctx.Manages memory) {a : UInt64}
    {bytes : List UInt8} (accessible : ((memory w).region? a bytes.length).isSome) :
    ∃ w', Yields (ctx.write a bytes) w () w' ∧
      memory w' = { memory w with contents := (memory w).contents.write a bytes } := by
  have held := Memory.write?_eq_some.mpr ⟨accessible, rfl⟩
  rcases ran : (ctx.write a bytes).run.run w with ⟨result, w'⟩
  have stores := manages.stores ran
  generalize same : memory w' = m at stores
  cases stores with
  | unmapped unmapped => cases held.symm.trans unmapped
  | stored stored =>
      cases held.symm.trans stored
      exact ⟨w', ran, same⟩

/-- A slot that carries a value is read back. -/
theorem yields_readArgument (manages : ctx.Manages memory) {slot : Ty} {place : SlotPlace}
    {v : Value} (size : place.size = slot.size target.pointerSize)
    (accessible : ((memory w).region? (slotAddress activation place) place.size.toNat).isSome)
    (carries : Carries target activation.structAddress activation.sides (memory w) stop slot place
      v) :
    ∃ w', Yields (Caller.readArgument ctx target activation slot place (some v)) w
      (v.readBack slot) w' ∧ memory w' = memory w := by
  obtain ⟨index, image, checked, stored⟩ := carries
  have length := length_of_argumentImage checked size
  obtain ⟨admits, ⟨record, bytes, rfl, whole, rfl⟩ | ⟨bytes, encoded, -, rfl⟩⟩ :=
    argumentImage_eq_ok checked
  · cases stored with
    | @side _ image _ address owned behind buffer encoded held =>
        have width := (length_of_addressImage encoded).trans length
        obtain ⟨w₁, slotRead, same₁⟩ := manages.yields_read
          (Memory.read?_eq_some.mpr ⟨accessible, (width ▸ held).symm⟩)
        rw [whole, ← same₁] at buffer
        obtain ⟨w₂, bufferRead, same₂⟩ := manages.yields_read buffer
        obtain ⟨pointee, decoded, -⟩ :=
          decode_addressImage (isAddress_of_admits admits trivial) encoded
        refine ⟨w₂, ?_, same₂.trans same₁⟩
        refine yields_bind.mpr ⟨image, w₁, yields_access.mpr slotRead, ?_⟩
        rw [decoded]
        refine yields_bind.mpr ⟨bytes, w₂, yields_access.mpr bufferRead, ?_⟩
        refine yields_pure.mpr ⟨?_, rfl⟩
        cases slot <;> rfl
  · cases stored with
    | word held =>
        have width : bytes.length = place.size.toNat := length
        obtain ⟨w₁, slotRead, same⟩ := manages.yields_read
          (Memory.read?_eq_some.mpr ⟨accessible, (width ▸ held).symm⟩)
        refine ⟨w₁, ?_, same⟩
        refine yields_bind.mpr ⟨bytes, w₁, yields_access.mpr slotRead, ?_⟩
        rw [decode_encode admits encoded]
        cases v with
        | aggregate => cases encoded
        | void | bool | int | float | pointer => exact yields_pure.mpr ⟨rfl, rfl⟩

/-- All slots are read back in order. -/
theorem yields_readAll (manages : ctx.Manages memory) {m : Memory} (current : memory w = m)
    {record : PlacedRecord} {slots : List Slot} {values : List Value}
    (size : ∀ slot ∈ slots, (fieldPlace record slot).size = slot.ty.size target.pointerSize)
    (accessible : ∀ slot ∈ slots, (m.region? (slotAddress activation (fieldPlace record slot))
      (fieldPlace record slot).size.toNat).isSome)
    (carries : List.Forall₂ (fun slot v => Carries target activation.structAddress activation.sides
      m stop slot.ty (fieldPlace record slot) v) slots values) :
    ∃ w', Yields (Caller.readAll ctx target activation (slots.map Slot.ty)
      (slots.map (fieldPlace record)) values) w
        (List.zipWith Value.readBack (slots.map Slot.ty) values) w' := by
  induction carries generalizing w with
  | nil => exact ⟨w, yields_pure.mpr ⟨rfl, rfl⟩⟩
  | @cons slot v slots values first rest ih =>
      rw [← current] at first
      have one := accessible slot (List.mem_cons_self ..)
      rw [← current] at one
      obtain ⟨w₁, read, same⟩ :=
        yields_readArgument manages (size slot (List.mem_cons_self ..)) one first
      obtain ⟨w₂, others⟩ := ih (same.trans current)
        (fun other member => size other (.tail _ member))
        fun other member => accessible other (.tail _ member)
      exact ⟨w₂, yields_bind.mpr ⟨_, w₁, read,
        yields_bind.mpr ⟨_, w₂, others, yields_pure.mpr ⟨rfl, rfl⟩⟩⟩⟩

/-- A struct whose slots carry the arguments of an activation is read back. -/
theorem yields_readBack (manages : ctx.Manages memory) {caller : Caller} {r : Ready}
    {record : PlacedRecord} (ready : caller.ready = .ok r)
    (laid : LaidOut r.target.pointerSize record caller.model)
    (layout : r.layout = layoutOf record caller.model) (written : activation.stage ≠ .prepared)
    (accessible : ∀ slot ∈ caller.model.inputSlots, ((memory w).region? (slotAddress activation
      (fieldPlace record slot)) (fieldPlace record slot).size.toNat).isSome)
    (carries : List.Forall₂ (fun slot v => Carries r.target activation.structAddress
      activation.sides (memory w) stop slot.ty (fieldPlace record slot) v) caller.model.inputSlots
        activation.arguments) :
    ∃ w', Yields (caller.read ctx activation) w
      (List.zipWith Value.readBack caller.model.argumentTys activation.arguments) w' := by
  obtain ⟨w', all⟩ := yields_readAll manages rfl
    (fun slot member => laid.size slot (inputSlots_subset caller.model member)) accessible carries
  refine ⟨w', ?_⟩
  unfold Caller.read
  rw [ready]
  dsimp only
  rw [if_neg written, layout, ← inputSlots_tys]
  exact all

end

end CallThunk
