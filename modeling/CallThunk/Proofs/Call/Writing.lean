import CallThunk.Proofs.Process.Services
import CallThunk.Proofs.Runs

/-!
# What writing leaves in memory

Writing the arguments of a call stores each image in its slot, or the address of a new side buffer
that holds it. Side buffers lie behind everything that was in use, so nothing but the slots changes
below them, and slots that lie apart do not disturb each other.
-/

namespace CallThunk

open Caller (ArgumentImage slotAddress)

/-- Whether an address lies in a slot of the struct at a base. -/
def SlotPlace.Covers (slot : SlotPlace) (base x : UInt64) : Prop :=
  base.toNat + slot.offset.toNat ≤ x.toNat ∧ x.toNat < base.toNat + slot.stop

/-- One of two slots lies behind the other. -/
def SlotPlace.Apart (a b : SlotPlace) : Prop := a.stop ≤ b.offset.toNat ∨ b.stop ≤ a.offset.toNat

/-- What writing into slots does not change: all other bytes of memory in use, the regions that are
live, and what the activation owns. -/
structure Writes {ω : Type} (memory : ω → Memory) (slots : List SlotPlace) (s s' : Activation × ω) :
    Prop where
  struct : s'.1.structAddress = s.1.structAddress
  sides : s.1.sides ⊆ s'.1.sides
  live : (memory s.2).live ⊆ (memory s'.2).live
  bounded : (memory s'.2).Bounded
  next : (memory s.2).next.toNat ≤ (memory s'.2).next.toNat
  frame : ∀ x : UInt64, x.toNat < (memory s.2).next.toNat →
    (∀ slot ∈ slots, ¬ slot.Covers s.1.structAddress x) →
      (memory s'.2).contents x = (memory s.2).contents x

namespace Writes

variable {ω : Type} {memory : ω → Memory} {slots slots' : List SlotPlace} {s t u : Activation × ω}

theorem refl (bounded : (memory s.2).Bounded) : Writes memory [] s s :=
  ⟨rfl, fun _ h => h, fun _ h => h, bounded, Nat.le_refl _, fun _ _ _ => rfl⟩

theorem trans (h : Writes memory slots s t) (h' : Writes memory slots' t u) :
    Writes memory (slots ++ slots') s u where
  struct := h'.struct.trans h.struct
  sides := fun _ hx => h'.sides (h.sides hx)
  live := fun _ hx => h'.live (h.live hx)
  bounded := h'.bounded
  next := Nat.le_trans h.next h'.next
  frame := by
    intro x below outside
    have second := h'.frame x (Nat.lt_of_lt_of_le below h.next) fun slot hslot => by
      rw [h.struct]
      exact outside slot (List.mem_append_right _ hslot)
    have first := h.frame x below fun slot hslot => outside slot (List.mem_append_left _ hslot)
    exact second.trans first

/-- Bytes below the memory in use stay if none of them lies in a slot that is written. -/
theorem read_eq (h : Writes memory slots s t) {a : UInt64} {n : Nat}
    (below : a.toNat + n ≤ (memory s.2).next.toNat)
    (apart : ∀ slot ∈ slots, a.toNat + n ≤ s.1.structAddress.toNat + slot.offset.toNat ∨
      s.1.structAddress.toNat + slot.stop ≤ a.toNat) :
    (memory t.2).contents.read a n = (memory s.2).contents.read a n := by
  have bound := (memory s.2).next.toNat_lt
  refine Contents.read_congr (by omega) fun x low high => ?_
  refine h.frame x (by omega) fun slot hslot covers => ?_
  obtain ⟨first, last⟩ := covers
  rcases apart slot hslot with before | behind
  · omega
  · omega

/-- A buffer behind the slots that are written keeps its bytes. -/
theorem read?_eq (h : Writes memory slots s t) (bounded : (memory s.2).Bounded) {a : UInt64}
    {n : Nat} {bytes : List UInt8} (held : (memory s.2).read? a n = some bytes)
    (behind : ∀ slot ∈ slots, s.1.structAddress.toNat + slot.stop ≤ a.toNat) :
    (memory t.2).read? a n = some bytes := by
  obtain ⟨accessible, rfl⟩ := Memory.read?_eq_some.mp held
  have below := bounded.below accessible
  refine Memory.read?_eq_some.mpr ⟨?_, ?_⟩
  · obtain ⟨r, hr, covers⟩ := Memory.region?_isSome.mp accessible
    exact Memory.region?_isSome.mpr ⟨r, h.live hr, covers⟩
  · exact (h.read_eq (by omega) fun slot hslot => .inr (behind slot hslot)).symm

end Writes

section
variable {ω : Type} {ctx : Context ω} {memory : ω → Memory} {target : Target}
  {s s' : Activation × ω} {slot : SlotPlace} {bytes : List UInt8} {stop : Nat}

/-! ## One slot -/

/-- The address of a slot of a struct that does not wrap. -/
theorem toNat_slotAddress {base : UInt64} (fits : base.toNat + slot.stop < 2 ^ 64) :
    (base + slot.offset.toUInt64).toNat = base.toNat + slot.offset.toNat := by
  unfold SlotPlace.stop at fits
  rw [UInt64.toNat_add, UInt32.toNat_toUInt64, Nat.mod_eq_of_lt (by omega)]

/-- The slots of a struct are mapped where the struct is. -/
theorem mapped_slot {m : Memory} {base : UInt64} {n : Nat} (mapped : (m.region? base stop).isSome)
    (fits : base.toNat + stop < 2 ^ 64) (within : slot.stop ≤ stop) (size : n ≤ slot.size.toNat) :
    (m.region? (base + slot.offset.toUInt64) n).isSome := by
  have start := @toNat_slotAddress slot base (by omega)
  unfold SlotPlace.stop at within
  exact Memory.mapped_within mapped (by omega) (by omega)

/-- A slot that is written holds what was written. -/
theorem writes_of_writeSlot (manages : ctx.Manages memory) {u : PUnit}
    (h : Yields (Caller.writeSlot ctx slot bytes) s u s')
    (bounded : (memory s.2).Bounded) (size : bytes.length ≤ slot.size.toNat)
    (inside : s.1.structAddress.toNat + slot.stop ≤ (memory s.2).next.toNat) :
    Writes memory [slot] s s' ∧
      (memory s'.2).contents.read (s.1.structAddress + slot.offset.toUInt64) bytes.length =
        bytes := by
  obtain ⟨_, _, got, h⟩ := yields_bind.mp h
  obtain ⟨current, kept⟩ := yields_get.mp got
  rw [current, kept] at h
  obtain ⟨written, same⟩ := yields_service.mp h
  obtain ⟨accessible, after⟩ := Memory.write?_eq_some.mp (manages.stored written)
  have bound := (memory s.2).next.toNat_lt
  have start := @toNat_slotAddress slot s.1.structAddress (by omega)
  have stop : slot.offset.toNat + bytes.length ≤ slot.stop := Nat.add_le_add_left size _
  unfold slotAddress at after
  rw [after]
  refine ⟨⟨by rw [same], fun _ h => by rwa [same], fun _ h => by rwa [after], ?_, ?_,
    fun x below outside => ?_⟩, Contents.read_write (by omega)⟩
  · rw [after]
    exact bounded
  · exact Nat.le_of_eq (by rw [after])
  · rw [after]
    refine Contents.write_of_outside (by omega) ?_
    have uncovered := outside slot (List.mem_singleton_self slot)
    unfold SlotPlace.Covers at uncovered
    omega

/-- A new side buffer lies behind everything in use and holds what was written. -/
theorem writes_of_newSide (manages : ctx.Manages memory) {align : UInt32} {address : UInt64}
    (h : Yields (Caller.newSide ctx bytes align) s address s') (bounded : (memory s.2).Bounded) :
    Writes memory [] s s' ∧ address ∈ s'.1.sides ∧ (memory s.2).next.toNat ≤ address.toNat ∧
      (memory s'.2).read? address bytes.length = some bytes := by
  obtain ⟨a, s₁, allocated, h⟩ := yields_bind.mp h
  obtain ⟨_, s₂, updated, h⟩ := yields_bind.mp h
  obtain ⟨_, s₃, written, h⟩ := yields_bind.mp h
  obtain ⟨rfl, rfl⟩ := yields_pure.mp h
  obtain ⟨allocated, same₁⟩ := yields_service.mp allocated
  cases yields_update.mp updated
  obtain ⟨written, same₃⟩ := yields_service.mp written
  obtain ⟨n, -, region⟩ := manages.allocated allocated
  obtain ⟨accessible, after⟩ := Memory.write?_eq_some.mp (manages.stored written)
  dsimp only at same₃ accessible after
  have bounded₁ := region.bounded bounded
  have inside := bounded₁.below accessible
  have bound := (memory s₁.2).next.toNat_lt
  have above := region.above
  have sides : s'.1.sides = s.1.sides ++ [address] := by rw [same₃, same₁]
  refine ⟨⟨by rw [same₃, same₁], fun _ h => ?_, fun r hr => ?_, ?_, ?_, fun x below _ => ?_⟩,
    ?_, above, Memory.read?_eq_some.mpr ⟨?_, ?_⟩⟩
  · rw [sides]
    exact List.mem_append_left _ h
  · rw [after]
    dsimp only
    rw [region.live]
    exact List.mem_cons_of_mem _ hr
  · rw [after]
    exact bounded₁
  · rw [after]
    dsimp only
    omega
  · rw [after]
    dsimp only
    rw [Contents.write_of_outside (by omega) (.inl (by omega)), region.contents x below]
  · rw [sides]
    exact List.mem_append_right _ (List.mem_singleton_self _)
  · rw [after]
    exact accessible
  · rw [after]
    exact (Contents.read_write (by omega)).symm

/-! ## All slots -/

/-- The bytes that an image takes in its slot. -/
def Caller.ArgumentImage.length (target : Target) : ArgumentImage → Nat
  | .word bytes => bytes.length
  | .side .. => target.pointerSize.toNat

/-- A slot of a struct up to `stop` holds the image of its argument, or the address of a side buffer
behind the struct that does. -/
inductive Stored (target : Target) (base : UInt64) (sides : List UInt64) (m : Memory) (stop : Nat)
    (slot : SlotPlace) : ArgumentImage → Prop where
  | word {bytes : List UInt8}
      (held : m.contents.read (base + slot.offset.toUInt64) bytes.length = bytes) :
      Stored target base sides m stop slot (.word bytes)
  | side {bytes image : List UInt8} {align : UInt32} {address : UInt64} (owned : address ∈ sides)
      (behind : base.toNat + stop ≤ address.toNat)
      (buffer : m.read? address bytes.length = some bytes)
      (encoded : target.addressImage address = .ok image)
      (held : m.contents.read (base + slot.offset.toUInt64) image.length = image) :
      Stored target base sides m stop slot (.side bytes align)

/-- An address has an image when pointers have a width and it fits them. -/
theorem addressImage_eq_ok {address : UInt64} {image : List UInt8} :
    target.addressImage address = .ok image ↔ Target.isPointerWidth target.pointerSize ∧
      address.toNat < 256 ^ target.pointerSize.toNat ∧
      image = target.order.image target.pointerSize.toNat address.toNat := by
  unfold Target.addressImage
  dsimp only
  split
  next fits =>
    constructor
    · intro h
      exact ⟨fits.1, fits.2, (Except.ok.inj h).symm⟩
    · rintro ⟨-, -, rfl⟩
      rfl
  next unfit => exact ⟨nofun, fun h => absurd ⟨h.1, h.2.1⟩ unfit⟩

theorem length_of_addressImage {address : UInt64} {image : List UInt8}
    (h : target.addressImage address = .ok image) : image.length = target.pointerSize.toNat := by
  obtain ⟨-, -, rfl⟩ := addressImage_eq_ok.mp h
  exact ByteOrder.length_image ..

/-- What a slot holds stays when other slots are written. -/
theorem Stored.later {image : ArgumentImage} {slots : List SlotPlace}
    (h : Stored target s.1.structAddress s.1.sides (memory s.2) stop slot image)
    (writes : Writes memory slots s s') (bounded : (memory s.2).Bounded)
    (size : image.length target ≤ slot.size.toNat)
    (inside : s.1.structAddress.toNat + stop ≤ (memory s.2).next.toNat) (within : slot.stop ≤ stop)
    (apart : ∀ other ∈ slots, slot.Apart other ∧ other.stop ≤ stop) :
    Stored target s'.1.structAddress s'.1.sides (memory s'.2) stop slot image := by
  have bound := (memory s.2).next.toNat_lt
  have start := @toNat_slotAddress slot s.1.structAddress (by omega)
  have kept (n : Nat) (hn : n ≤ slot.size.toNat) :
      (memory s'.2).contents.read (s.1.structAddress + slot.offset.toUInt64) n =
        (memory s.2).contents.read (s.1.structAddress + slot.offset.toUInt64) n := by
    have last : slot.offset.toNat + n ≤ slot.stop := Nat.add_le_add_left hn _
    refine writes.read_eq (by omega) fun other hother => ?_
    rcases (apart other hother).1 with before | behind
    · exact .inl (by omega)
    · exact .inr (by omega)
  rw [writes.struct]
  cases h with
  | word held => exact .word ((kept _ size).trans held)
  | @side bytes image align address owned behind buffer encoded held =>
      have kept' := kept _ (Nat.le_trans (Nat.le_of_eq (length_of_addressImage encoded)) size)
      refine .side (writes.sides owned) behind ?_ encoded
        (kept'.trans held)
      refine writes.read?_eq bounded buffer fun other hother => ?_
      have last := (apart other hother).2
      omega

/-- An argument that is written is stored. -/
theorem stored_of_writeArgument (manages : ctx.Manages memory) {image : ArgumentImage}
    {u : PUnit}
    (h : Yields (Caller.writeArgument ctx target slot image)
      s u s') (bounded : (memory s.2).Bounded) (size : image.length target ≤ slot.size.toNat)
    (inside : s.1.structAddress.toNat + stop ≤ (memory s.2).next.toNat)
    (within : slot.stop ≤ stop) :
    Writes memory [slot] s s' ∧
      Stored target s'.1.structAddress s'.1.sides (memory s'.2) stop slot image := by
  cases image with
  | word bytes =>
      obtain ⟨writes, held⟩ := writes_of_writeSlot manages h bounded size (by omega)
      refine ⟨writes, .word ?_⟩
      rw [writes.struct]
      exact held
  | side bytes align =>
      obtain ⟨address, t, side, h⟩ := yields_bind.mp h
      obtain ⟨writes, owned, above, buffer⟩ := writes_of_newSide manages side bounded
      split at h
      next image encoded =>
        have bound := writes.next
        have length := length_of_addressImage encoded
        have inside' : t.1.structAddress.toNat + slot.stop ≤ (memory t.2).next.toNat := by
          rw [writes.struct]
          omega
        obtain ⟨writes', held⟩ :=
          writes_of_writeSlot manages h writes.bounded (Nat.le_trans (Nat.le_of_eq length) size)
            inside'
        refine ⟨writes.trans writes', .side (writes'.sides owned) ?_ ?_ encoded ?_⟩
        · rw [writes'.struct, writes.struct]
          omega
        · refine writes'.read?_eq writes.bounded buffer fun other hother => ?_
          rw [List.mem_singleton.mp hother, writes.struct]
          omega
        · rw [writes'.struct]
          exact held
      next e => exact absurd h not_yields_throw

/-- Arguments whose slots lie apart are all stored. -/
theorem stored_of_writeAll (manages : ctx.Manages memory)
    {arguments : List (SlotPlace × ArgumentImage)} {u : PUnit}
    (h : Yields (Caller.writeAll ctx target arguments) s u s')
    (bounded : (memory s.2).Bounded)
    (inside : s.1.structAddress.toNat + stop ≤ (memory s.2).next.toNat)
    (sizes : ∀ p ∈ arguments, p.2.length target ≤ p.1.size.toNat ∧ p.1.stop ≤ stop)
    (apart : (arguments.map Prod.fst).Pairwise SlotPlace.Apart) :
    Writes memory (arguments.map Prod.fst) s s' ∧ ∀ p ∈ arguments,
      Stored target s'.1.structAddress s'.1.sides (memory s'.2) stop p.1 p.2 := by
  induction arguments generalizing s with
  | nil =>
      obtain ⟨-, rfl⟩ := yields_pure.mp h
      exact ⟨.refl bounded, nofun⟩
  | cons argument rest ih =>
      obtain ⟨slot, image⟩ := argument
      obtain ⟨_, t, first, h⟩ := yields_bind.mp h
      obtain ⟨size, within⟩ := sizes _ (List.mem_cons_self ..)
      obtain ⟨first_apart, apart⟩ := List.pairwise_cons.mp apart
      obtain ⟨writes, stored⟩ := stored_of_writeArgument manages first bounded size inside within
      have sizes' := fun p hp => sizes p (List.mem_cons_of_mem _ hp)
      have inside' : t.1.structAddress.toNat + stop ≤ (memory t.2).next.toNat := by
        rw [writes.struct]
        exact Nat.le_trans inside writes.next
      obtain ⟨writes', all⟩ := ih h writes.bounded inside' sizes' apart
      refine ⟨writes.trans writes', ?_⟩
      rintro p (_ | ⟨_, hp⟩)
      · refine stored.later writes' writes.bounded size inside' within fun other hother => ?_
        obtain ⟨q, hq, rfl⟩ := List.mem_map.mp hother
        exact ⟨first_apart _ hother, (sizes' q hq).2⟩
      · exact all p hp

/-! ## A whole write -/

theorem images_eq_ok {caller : Caller} {r : Ready} {args : List Value} {function : List UInt8}
    {arguments : List (SlotPlace × ArgumentImage)} :
    caller.images r args = .ok (function, arguments) ↔ args.length = caller.model.arity ∧
      Caller.argumentImages r.target 0 caller.model.argumentTys r.layout.arguments args =
        .ok arguments ∧
      r.target.addressImage caller.callee.address = .ok function := by
  unfold Caller.images
  by_cases count : args.length = caller.model.arity
  · dsimp only
    rw [if_neg (not_not_intro count)]
    simp only [bind_eq_ok]
    constructor
    · rintro ⟨arguments, checked, function, encoded, h⟩
      cases h
      exact ⟨count, checked, encoded⟩
    · rintro ⟨-, checked, encoded⟩
      exact ⟨_, checked, _, encoded, rfl⟩
  · dsimp only
    rw [if_pos count]
    exact ⟨nofun, fun h => absurd h.1 count⟩

/-- A write that is done has stored the callee's address and all arguments. -/
theorem stored_of_write (manages : ctx.Manages memory) {caller : Caller} {r : Ready}
    {args : List Value} {u : PUnit} (ready : caller.ready = .ok r)
    (h : Yields (caller.write ctx args) s u s')
    (bounded : (memory s.2).Bounded)
    (inside : s.1.structAddress.toNat + stop ≤ (memory s.2).next.toNat)
    (pointer : r.layout.function.size = r.target.pointerSize ∧ r.layout.function.stop ≤ stop)
    (sizes : ∀ function arguments, caller.images r args = .ok (function, arguments) →
      (∀ p ∈ arguments, p.2.length r.target ≤ p.1.size.toNat ∧ p.1.stop ≤ stop) ∧
        (r.layout.function :: arguments.map Prod.fst).Pairwise SlotPlace.Apart) :
    ∃ function arguments, caller.images r args = .ok (function, arguments) ∧
      s'.1.structAddress = s.1.structAddress ∧ (memory s'.2).Bounded ∧
      (memory s'.2).contents.read (slotAddress s'.1 r.layout.function) function.length = function ∧
      ∀ p ∈ arguments,
        Stored r.target s'.1.structAddress s'.1.sides (memory s'.2) stop p.1 p.2 := by
  obtain ⟨r', function, arguments, s₁, s₂, s₃, ready', images, freed, first, rest, rfl⟩ :=
    steps_of_write h
  cases ready.symm.trans ready'
  obtain ⟨-, -, encoded⟩ := images_eq_ok.mp images
  obtain ⟨sizes, apart⟩ := sizes function arguments images
  obtain ⟨function_apart, apart⟩ := List.pairwise_cons.mp apart
  -- freeing the side buffers of the arguments before gives no address back
  have between : Within (fun w w' => (memory w).Later (memory w'))
      ({ s.1 with stage := .prepared, arguments := [] }, s.2) s₁ :=
    manages.respects_later.freeSides.of_run freed
  obtain ⟨bounded₁, next₁⟩ := between.world bounded
  have struct₁ : s₁.1.structAddress = s.1.structAddress := between.struct
  have inside₁ : s₁.1.structAddress.toNat + stop ≤ (memory s₁.2).next.toNat := by
    rw [struct₁]
    exact Nat.le_trans inside next₁
  have size : function.length = r.layout.function.size.toNat := by
    rw [length_of_addressImage encoded, pointer.1]
  obtain ⟨writes, held⟩ := writes_of_writeSlot manages first bounded₁ (Nat.le_of_eq size)
    (Nat.le_trans (Nat.add_le_add_left pointer.2 _) inside₁)
  have inside₂ : s₂.1.structAddress.toNat + stop ≤ (memory s₂.2).next.toNat := by
    rw [writes.struct]
    exact Nat.le_trans inside₁ writes.next
  obtain ⟨writes', stored⟩ := stored_of_writeAll manages rest writes.bounded inside₂ sizes apart
  have bound := (memory s₁.2).next.toNat_lt
  have start := @toNat_slotAddress r.layout.function s₁.1.structAddress
    (by have := pointer.2; omega)
  have last : r.layout.function.stop = r.layout.function.offset.toNat + function.length := by
    rw [size]
    rfl
  refine ⟨function, arguments, images, (writes'.struct.trans writes.struct).trans struct₁,
    writes'.bounded, ?_, stored⟩
  show (memory s₃.2).contents.read (s₃.1.structAddress + _) _ = _
  have next₁ := writes.next
  rw [writes'.struct, writes.struct, writes'.read_eq (by omega) fun slot hslot => ?_, held]
  rw [writes.struct, start]
  rcases function_apart slot hslot with before | behind
  · exact .inl (by omega)
  · exact .inr (by omega)

end

end CallThunk
