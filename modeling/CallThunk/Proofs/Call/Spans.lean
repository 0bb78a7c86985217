import CallThunk.Proofs.Call.EndToEnd
import CallThunk.Proofs.Call.Frames
import CallThunk.Proofs.Call.Structs

/-!
# How far a write reaches

Any compiler may lay out the struct. Slots lie inside of it and apart from each other, and scalars
are checked against the sizes of their slots. But the slot of an aggregate takes an address of the
target, whatever its size. So a write reaches from the start of each slot as far as its image does,
and it stays inside the slots if those of aggregates have room for an address.
-/

namespace CallThunk

open Caller (ArgumentImage slotAddress)

/-- The bytes that an image is written to. They start where its slot does, but there may be more of
them. -/
def Caller.ArgumentImage.span (target : Target) (slot : SlotPlace) (image : ArgumentImage) :
    SlotPlace :=
  { slot with size := UInt32.ofNat (image.length target) }

section
variable {ω : Type} {ctx : Context ω} {memory : ω → Memory} {target : Target}
  {s s' : Activation × ω} {slot : SlotPlace} {bytes : List UInt8} {u : PUnit}

/-! ## Spans -/

theorem stop_span {image : ArgumentImage} (short : image.length target < 2 ^ 32) :
    (image.span target slot).stop = slot.offset.toNat + image.length target := by
  unfold SlotPlace.stop ArgumentImage.span
  rw [UInt32.toNat_ofNat', Nat.mod_eq_of_lt short]

/-- An image that fits its slot stays inside. -/
theorem covers_of_span {image : ArgumentImage} {base x : UInt64}
    (fits : image.length target ≤ slot.size.toNat) (h : (image.span target slot).Covers base x) :
    slot.Covers base x := by
  have bound := slot.size.toNat_lt
  obtain ⟨first, last⟩ := h
  rw [stop_span (by omega)] at last
  refine ⟨first, ?_⟩
  unfold SlotPlace.stop
  omega

section
variable (manages : ctx.Manages memory)
include manages

/-- What can be written lies in memory that was handed out. -/
theorem inside_of_writeSlot (h : Yields (Caller.writeSlot ctx slot bytes) s u s')
    (bounded : (memory s.2).Bounded)
    (start : s.1.structAddress.toNat + slot.offset.toNat < 2 ^ 64) :
    s.1.structAddress.toNat + slot.offset.toNat + bytes.length ≤ (memory s.2).next.toNat := by
  obtain ⟨_, _, got, h⟩ := yields_bind.mp h
  obtain ⟨current, kept⟩ := yields_get.mp got
  rw [current, kept] at h
  obtain ⟨written, -⟩ := yields_service.mp h
  obtain ⟨accessible, -⟩ := Memory.write?_eq_some.mp (manages.stored written)
  have below := bounded.below accessible
  have first := @toNat_slotAddress { slot with size := 0 } s.1.structAddress start
  unfold slotAddress at below
  rw [first] at below
  exact Nat.le_of_lt below

/-- A write to a slot changes the bytes that it has, not the ones that the slot has. -/
theorem spans_of_writeSlot {image : ArgumentImage}
    (h : Yields (Caller.writeSlot ctx slot bytes) s u s') (bounded : (memory s.2).Bounded)
    (start : s.1.structAddress.toNat + slot.offset.toNat < 2 ^ 64)
    (length : bytes.length = image.length target) (short : image.length target < 2 ^ 32) :
    Writes memory [image.span target slot] s s' := by
  have inside := inside_of_writeSlot manages h bounded start
  have stop := @stop_span target slot image short
  have written : Yields (Caller.writeSlot ctx (image.span target slot) bytes) s u s' := h
  refine (writes_of_writeSlot manages written bounded ?_ (by omega)).1
  show _ ≤ (UInt32.ofNat _).toNat
  rw [UInt32.toNat_ofNat', Nat.mod_eq_of_lt short]
  exact Nat.le_of_eq length

theorem spans_of_writeArgument {image : ArgumentImage}
    (h : Yields (Caller.writeArgument ctx target slot image) s u s')
    (bounded : (memory s.2).Bounded)
    (start : s.1.structAddress.toNat + slot.offset.toNat < 2 ^ 64)
    (short : image.length target < 2 ^ 32) : Writes memory [image.span target slot] s s' := by
  cases image with
  | word bytes => exact spans_of_writeSlot manages h bounded start rfl short
  | side bytes align =>
      obtain ⟨address, t, side, h⟩ := yields_bind.mp h
      obtain ⟨writes, -, -, -⟩ := writes_of_newSide manages side bounded
      split at h
      next image encoded =>
        rw [← writes.struct] at start
        exact writes.trans (spans_of_writeSlot manages h writes.bounded start
          (length_of_addressImage encoded) short)
      next e => exact absurd h not_yields_throw

theorem spans_of_writeAll {arguments : List (SlotPlace × ArgumentImage)}
    (h : Yields (Caller.writeAll ctx target arguments) s u s') (bounded : (memory s.2).Bounded)
    (start : ∀ p ∈ arguments, s.1.structAddress.toNat + p.1.offset.toNat < 2 ^ 64)
    (short : ∀ p ∈ arguments, p.2.length target < 2 ^ 32) :
    Writes memory (arguments.map fun p => p.2.span target p.1) s s' := by
  induction arguments generalizing s with
  | nil =>
      obtain ⟨-, rfl⟩ := yields_pure.mp h
      exact .refl bounded
  | cons argument rest ih =>
      obtain ⟨place, image⟩ := argument
      obtain ⟨_, t, first, h⟩ := yields_bind.mp h
      have head := List.mem_cons_self (a := (place, image)) (l := rest)
      have writes := spans_of_writeArgument manages first bounded (start _ head) (short _ head)
      refine writes.trans (ih h writes.bounded (fun p hp => ?_) fun p hp => ?_)
      · rw [writes.struct]
        exact start p (List.mem_cons_of_mem _ hp)
      · exact short p (List.mem_cons_of_mem _ hp)

end

/-! ## Images and their slots -/

/-- The slots of aggregates have room for an address. -/
def Caller.HasRoom (target : Target) (arguments : List (SlotPlace × ArgumentImage)) : Prop :=
  ∀ p ∈ arguments, ∀ bytes align, p.2 = .side bytes align → target.pointerSize ≤ p.1.size

variable {caller : Caller} {r : Ready} {args : List Value} {function : List UInt8}
  {arguments : List (SlotPlace × ArgumentImage)} {record : PlacedRecord}

/-- The image of a scalar has the size of its slot, and that of an aggregate the size of an
address. -/
theorem length_of_images (layout : r.layout = layoutOf record caller.model)
    (h : caller.images r args = .ok (function, arguments)) :
    arguments.map Prod.fst = r.layout.arguments ∧ ∀ p ∈ arguments,
      p.2.length r.target = p.1.size.toNat ∨
        (∃ bytes align, p.2 = .side bytes align) ∧
          p.2.length r.target = r.target.pointerSize.toNat := by
  obtain ⟨arity, checked, -⟩ := images_eq_ok.mp h
  rw [layout, ← inputSlots_tys] at checked
  obtain ⟨places, belong, -⟩ :=
    images_of_argumentImages (arity.trans (length_inputSlots _).symm) checked
  refine ⟨by rw [places, layout]; rfl, fun p hp => ?_⟩
  obtain ⟨slot, -, -, i, v, image⟩ := belong p hp
  obtain ⟨-, ⟨_, bytes, -, -, side⟩ | ⟨bytes, -, length, word⟩⟩ := argumentImage_eq_ok image
  · exact .inr ⟨⟨bytes, _, side⟩, by rw [side]; rfl⟩
  · exact .inl (by rw [word]; exact length)

theorem short_of_images (layout : r.layout = layoutOf record caller.model)
    (h : caller.images r args = .ok (function, arguments)) {p : SlotPlace × ArgumentImage}
    (hp : p ∈ arguments) : p.2.length r.target < 2 ^ 32 := by
  have size := p.1.size.toNat_lt
  have pointer := r.target.pointerSize.toNat_lt
  rcases (length_of_images layout h).2 p hp with same | ⟨-, same⟩
  · omega
  · omega

theorem fits_of_hasRoom (layout : r.layout = layoutOf record caller.model)
    (h : caller.images r args = .ok (function, arguments))
    (room : Caller.HasRoom r.target arguments) {p : SlotPlace × ArgumentImage}
    (hp : p ∈ arguments) : p.2.length r.target ≤ p.1.size.toNat := by
  rcases (length_of_images layout h).2 p hp with same | ⟨⟨bytes, align, side⟩, same⟩
  · exact Nat.le_of_eq same
  · rw [same]
    exact UInt32.le_iff_toNat_le.mp (room p hp bytes align side)

/-- The callee's address and the images go to slots of the struct. -/
theorem slots_of_images (layout : r.layout = layoutOf record caller.model)
    (h : caller.images r args = .ok (function, arguments)) :
    (r.layout.function :: arguments.map Prod.fst).Sublist r.layout.slots := by
  rw [(length_of_images layout h).1]
  exact List.sublist_append_left ..

section
variable (accommodates : record.Accommodates r.target.pointerSize caller.model)
include accommodates

theorem stop_of_images (layout : r.layout = layoutOf record caller.model)
    (h : caller.images r args = .ok (function, arguments)) {slot : SlotPlace}
    (member : slot ∈ r.layout.function :: arguments.map Prod.fst) :
    slot.stop ≤ r.layout.size.toNat := by
  have listed := (slots_of_images layout h).subset member
  rw [layout] at listed ⊢
  exact accommodates.stop_le listed

theorem apart_of_images (layout : r.layout = layoutOf record caller.model)
    (h : caller.images r args = .ok (function, arguments)) :
    (r.layout.function :: arguments.map Prod.fst).Pairwise SlotPlace.Apart := by
  refine List.Pairwise.sublist (slots_of_images layout h) ?_
  rw [layout]
  exact accommodates.slots_apart

theorem size_of_function (layout : r.layout = layoutOf record caller.model) :
    r.layout.function.size = r.target.pointerSize := by
  rw [layout]
  exact accommodates.callee

theorem length_of_function (layout : r.layout = layoutOf record caller.model)
    (h : caller.images r args = .ok (function, arguments)) :
    function.length = r.layout.function.size.toNat := by
  obtain ⟨-, -, encoded⟩ := images_eq_ok.mp h
  rw [length_of_addressImage encoded, size_of_function accommodates layout]

end

/-! ## A whole write -/

/-- All that a write that is done has done to memory and to what its call owns. -/
structure Wrote (memory : ω → Memory) (r : Ready) (function : List UInt8)
    (arguments : List (SlotPlace × ArgumentImage)) (s s' : Activation × ω) : Prop where
  struct : s'.1.structAddress = s.1.structAddress
  /-- Side buffers are new. -/
  fresh : ∀ a ∈ s'.1.sides, (memory s.2).next.toNat ≤ a.toNat
  /-- Nothing is freed but the side buffers of the arguments before. -/
  live : ∀ region ∈ (memory s.2).live, region.start ∉ s.1.sides → region ∈ (memory s'.2).live
  /-- Bytes change where images are written, and nowhere else. -/
  frame : ∀ x : UInt64, x.toNat < (memory s.2).next.toNat →
    ¬ r.layout.function.Covers s.1.structAddress x →
    (∀ p ∈ arguments, ¬ (p.2.span r.target p.1).Covers s.1.structAddress x) →
      (memory s'.2).contents x = (memory s.2).contents x
  /-- Every slot holds its image if there is room for addresses. -/
  stored : Caller.HasRoom r.target arguments →
    (memory s'.2).contents.read (slotAddress s.1 r.layout.function) function.length = function ∧
      ∀ p ∈ arguments, Stored r.target s.1.structAddress s'.1.sides (memory s'.2)
        r.layout.size.toNat p.1 p.2

/-- The side buffers of before are freed first, which changes no byte and takes nothing else. -/
theorem spares_of_freeSides (manages : ctx.Manages memory)
    (h : Yields (Caller.freeSides ctx) s u s') (bounded : (memory s.2).Bounded) :
    s'.1 = { s.1 with sides := [] } ∧ (memory s.2).Spares 0 0 (memory s'.2) ∧
      ∀ region ∈ (memory s.2).live, region.start ∉ s.1.sides → region ∈ (memory s'.2).live := by
  unfold Yields at h
  rw [Caller.run_freeSides] at h
  cases congrArg Prod.snd h
  exact ⟨rfl, leaves_freeEach manages s.1.sides s.2 bounded, live_of_freeEach manages s.2⟩

/-- Writing the callee's address and all arguments only adds side buffers that are new. -/
theorem advances_of_steps (manages : ctx.Manages memory) {t : Activation × ω} {v : PUnit}
    (first : Yields (Caller.writeSlot ctx r.layout.function function) s u t)
    (rest : Yields (Caller.writeAll ctx r.target arguments) t v s') : Advances memory s s' := by
  refine .trans _ _ _ ((advances_writeSlot manages _ _).of_run first) ?_
  exact (Caller.keeps_writeAll (P := fun _ _ => True) Advances.refl Advances.trans
    (fun place bytes _ => advances_writeSlot manages place bytes) (advances_newSide manages)
    fun _ _ _ _ => trivial).of_run rest

/-- Writing the callee's address and all arguments changes the slot of the callee and the spans of
the images. -/
theorem spans_of_steps (manages : ctx.Manages memory) {t : Activation × ω} {v : PUnit}
    (first : Yields (Caller.writeSlot ctx r.layout.function function) s u t)
    (rest : Yields (Caller.writeAll ctx r.target arguments) t v s')
    (bounded : (memory s.2).Bounded) (length : function.length = r.layout.function.size.toNat)
    (inside : ∀ slot ∈ r.layout.function :: arguments.map Prod.fst,
      s.1.structAddress.toNat + slot.stop ≤ (memory s.2).next.toNat)
    (short : ∀ p ∈ arguments, p.2.length r.target < 2 ^ 32) :
    Writes memory (r.layout.function :: arguments.map fun p => p.2.span r.target p.1) s s' := by
  have writes := (writes_of_writeSlot manages first bounded (Nat.le_of_eq length)
    (inside _ (List.mem_cons_self ..))).1
  refine writes.trans (spans_of_writeAll manages rest writes.bounded (fun p hp => ?_) short)
  have within := inside p.1 (List.mem_cons_of_mem _ (List.mem_map_of_mem hp))
  have offset : p.1.offset.toNat ≤ p.1.stop := Nat.le_add_right ..
  have bound := (memory s.2).next.toNat_lt
  rw [writes.struct]
  omega

theorem wrote_of_write (manages : ctx.Manages memory) (ready : caller.ready = .ok r)
    (accommodates : record.Accommodates r.target.pointerSize caller.model)
    (layout : r.layout = layoutOf record caller.model)
    (images : caller.images r args = .ok (function, arguments))
    (h : Yields (caller.write ctx args) s u s') (bounded : (memory s.2).Bounded)
    (inside : s.1.structAddress.toNat + r.layout.size.toNat ≤ (memory s.2).next.toNat) :
    Wrote memory r function arguments s s' := by
  have within {slot : SlotPlace} (member : slot ∈ r.layout.function :: arguments.map Prod.fst) :
      slot.stop ≤ r.layout.size.toNat := stop_of_images accommodates layout images member
  have whole := h
  obtain ⟨r', function', arguments', s₁, s₂, s₃, ready', images', freed, first, rest, last⟩ :=
    steps_of_write h
  cases ready.symm.trans ready'
  cases images.symm.trans images'
  obtain ⟨state, spares, live⟩ := spares_of_freeSides manages freed bounded
  have struct : s₁.1.structAddress = s.1.structAddress := by rw [state]
  have writes := spans_of_steps manages first rest spares.bounded
    (length_of_function accommodates layout images)
    (fun slot member => by
      rw [struct]
      exact Nat.le_trans (Nat.add_le_add_left (within member) _)
        (Nat.le_trans inside spares.next))
    fun p hp => short_of_images layout images hp
  have advances := advances_of_steps manages first rest
  subst last
  exact {
    struct := writes.struct.trans struct
    fresh := fun a member => by
      rcases advances.sides a member with old | new
      · rw [state] at old
        cases old
      · exact Nat.le_trans spares.next new
    live := fun region member other => writes.live (live region member other)
    frame := fun x below outside beyond => by
      have kept := writes.frame x (Nat.lt_of_lt_of_le below spares.next) fun slot member => by
        rw [struct]
        rcases List.mem_cons.mp member with rfl | span
        · exact outside
        · obtain ⟨p, hp, rfl⟩ := List.mem_map.mp span
          exact beyond p hp
      exact kept.trans (spares.contents x below (.inr (Nat.zero_le _)))
    stored := fun room => by
      obtain ⟨function', arguments', images', same, -, held, stored⟩ :=
        stored_of_write manages ready whole bounded inside
          ⟨size_of_function accommodates layout, within (List.mem_cons_self ..)⟩
          fun function' arguments' images' => by
            cases images.symm.trans images'
            refine ⟨fun p hp => ⟨fits_of_hasRoom layout images room hp, ?_⟩,
              apart_of_images accommodates layout images⟩
            exact within (List.mem_cons_of_mem _ (List.mem_map_of_mem hp))
      cases images.symm.trans images'
      unfold slotAddress at held ⊢
      rw [same] at held stored
      exact ⟨held, stored⟩ }

end

/-! ## Sessions -/

namespace Session

/-- Whatever was done before, wherever the struct lies and whatever compiler laid it out: a write
that is done changes the slot of the callee and the spans of its images, fills new side buffers and
frees none but the old ones. If the slots of aggregates have room for an address, no byte outside of
the slots of the callee and the arguments changes and every slot holds its image. -/
theorem write_spans {ω : Type} {ctx : Context ω} {memory : ω → Memory}
    (manages : ctx.Manages memory) {start : Session ω} (new : start.caller.status = .new)
    (empty : start.activations = []) (bounded : (memory start.world).Bounded)
    (actions : List Action) {index : Nat} {args : List Value} {s' : Session ω}
    (done : (step ctx (.write index args)).run (after ctx start actions) = (.done, s')) :
    let s := after ctx start actions
    ∃ r function arguments before activation,
      s.caller.ready = .ok r ∧ s.caller.images r args = .ok (function, arguments) ∧
      s.activations[index]? = some (some before) ∧
      s' = { s with
        world := s'.world
        activations := s.activations.set index (some activation) } ∧
      r.layout.slots.Pairwise SlotPlace.Apart ∧ (∀ slot ∈ r.layout.slots,
        before.structAddress.toNat + slot.stop ≤ (memory s.world).next.toNat) ∧
      Wrote memory r function arguments (before, s.world) (activation, s'.world) ∧
      (Caller.HasRoom r.target arguments → ∀ x : UInt64,
        x.toNat < (memory s.world).next.toNat →
        (∀ slot ∈ r.layout.function :: r.layout.arguments,
          ¬ slot.Covers before.structAddress x) →
          (memory s'.world).contents x = (memory s.world).contents x) := by
  intro s
  have grounded := (Grounded.of_new new empty bounded).after manages actions
  obtain ⟨before, t, live, written, moved⟩ := yields_of_step_write done
  obtain ⟨r, ready, call⟩ := grounded.calls index before live
  obtain ⟨record, accommodates, layout⟩ := (grounded.proper r ready).accommodates
  obtain ⟨r', function, arguments, -, -, -, ready', images, -⟩ := steps_of_write written
  cases ready.symm.trans ready'
  have wrote := wrote_of_write manages ready accommodates layout images written grounded.bounded
    call.inside
  obtain ⟨places, -⟩ := length_of_images layout images
  have world : s'.world = t.2 := by rw [moved]
  rw [← world] at moved
  refine ⟨r, function, arguments, before, t.1, ready, images, live, moved, ?_,
    fun slot member => ?_, ?_, fun room x below outside => ?_⟩
  · rw [layout]
    exact accommodates.slots_apart
  · rw [layout] at member
    have stop := accommodates.stop_le member
    rw [← layout] at stop
    exact Nat.le_trans (Nat.add_le_add_left stop _) call.inside
  · rw [world]
    exact wrote
  · rw [world]
    refine wrote.frame x below (outside _ (List.mem_cons_self ..)) fun p hp covers => ?_
    have member : p.1 ∈ r.layout.arguments := by
      rw [← places]
      exact List.mem_map_of_mem hp
    exact outside p.1 (List.mem_cons_of_mem _ member)
      (covers_of_span (fits_of_hasRoom layout images room hp) covers)

/-! ## A slot without room -/

/-- A compiler that is told its records makes a caller ready if a layout is recovered from them. -/
theorem run_compile_scripted {s : Session Debuggee} (new : s.caller.status = .new)
    {target : Target} {allocator : Debuggee.Allocator} {entry : UInt64}
    {records : List PlacedRecord} {layout : StructLayout}
    (recovered : StructLayout.recover records s.caller.source.structName s.caller.model
      target.pointerSize = .ok layout) :
    (step (Debuggee.context target allocator (.scripted [] [] true entry records)) .compile).run s =
      (.errors 0, { s with
        caller := { s.caller with
          status := .ready ⟨⟨s.caller.source.functionName, entry, records, none⟩, layout, target⟩ }
        reports := s.reports ++ [] }) := by
  have settled : s.caller.settle target
      (some ⟨s.caller.source.functionName, entry, records, none⟩) (Diagnostics.errorCount []) =
        (.ready ⟨⟨s.caller.source.functionName, entry, records, none⟩, layout, target⟩, []) := by
    show s.caller.settle target _ 0 = _
    rw [Caller.settle_some, recovered]
  have compiles : ((Debuggee.context target allocator
      (.scripted [] [] true entry records)).compile s.caller.source).run s.world =
        ((some ⟨s.caller.source.functionName, entry, records, none⟩, []), s.world) := rfl
  rw [Session.run_compile, Caller.run_compile_new new]
  dsimp only
  rw [compiles]
  dsimp only
  rw [show (Debuggee.context target allocator (.scripted [] [] true entry records)).target = target
    from rfl, settled]
  rfl

/-- A caller of a function that takes an aggregate and returns a number. -/
def narrow : Caller :=
  .ofSignature "f" ⟨⟨.int .i32, [.pointer (.record ⟨"pair", 4, 2⟩)], false⟩, 0x1000⟩

/-- A record that has four bytes for the address of the aggregate, right in front of the result. -/
def narrowRecord : PlacedRecord where
  name := "__fncall_args_f"
  size := 16
  align := 8
  fields := [⟨"fn_ptr", narrow.model.signature.ty, 0, 8, 8⟩,
    ⟨"arg_0", .pointer (.record ⟨"pair", 4, 2⟩), 8, 4, 4⟩, ⟨"return_value", .int .i32, 12, 4, 4⟩]

theorem recover_narrow :
    StructLayout.recover [narrowRecord] narrow.source.structName narrow.model 8 =
      .ok ⟨16, 8, ⟨0, 8, 8⟩, [⟨8, 4, 4⟩], some ⟨12, 4, 4⟩⟩ := by
  have laidOut : layoutOf narrowRecord narrow.model =
      ⟨16, 8, ⟨0, 8, 8⟩, [⟨8, 4, 4⟩], some ⟨12, 4, 4⟩⟩ := by decide +kernel
  have typed : ∀ slot ∈ narrow.model.slots,
      (narrowRecord.field? slot.field).map PlacedField.ty = some slot.ty := by decide +kernel
  rw [← laidOut]
  refine recover_of_ordered (by decide +kernel) (fun slot member => ?_) ?_ ?_ ?_
  · exact Option.map_eq_some_iff.mp (typed slot member)
  · decide +kernel
  · decide +kernel
  · decide +kernel

/-- Prepares a struct and fills the slot of its result. -/
def filling : List Action :=
  [.prepare .fresh, .writeMemory 0x1000000c [0xaa, 0xbb, 0xcc, 0xdd]]

/-- The address of a side buffer runs over the slot of the result. -/
theorem overruns_narrow :
    let ctx := Debuggee.sparse ⟨8, .little⟩ (.scripted [] [] true 0 [narrowRecord])
    let s := after ctx (.ofCaller narrow 0x10000000 {} []) (.compile :: filling)
    let given := (step ctx (.write 0 [.aggregate ⟨"pair", 4, 2⟩ [1, 2, 3, 4]])).run s
    given.1.isDone ∧
      s.caller.ready?.map (fun r => r.layout.result) = some (some ⟨12, 4, 4⟩) ∧
      s.activations = [some { structAddress := 0x10000000, ownsStruct := true }] ∧
      s.world.memory.contents.read 0x1000000c 4 = [0xaa, 0xbb, 0xcc, 0xdd] ∧
      given.2.world.memory.contents.read 0x1000000c 4 = [0, 0, 0, 0] := by
  intro ctx s given
  have compiled := @run_compile_scripted (.ofCaller narrow 0x10000000 {} []) rfl ⟨8, .little⟩
    Debuggee.sparseAllocator 0 [narrowRecord] _ recover_narrow
  unfold given s ctx
  rw [after]
  unfold Debuggee.sparse
  rw [compiled]
  decide +kernel

/-- So a write may change the slot of the result. -/
theorem write_overruns_slots :
    ¬ ∀ (target : Target) (choice : Debuggee.CompilerChoice) (base : UInt64) (caller : Caller)
        (actions : List Action) (index : Nat) (args : List Value) (s' : Session Debuggee) (r : Ready)
        (place : SlotPlace) (activation : Activation), caller.Made →
      let ctx := Debuggee.sparse target choice
      let s := after ctx (.ofCaller caller base {} []) actions
      s.caller.ready? = some r → r.layout.result = some place →
      s.activations[index]? = some (some activation) →
      (step ctx (.write index args)).run s = (.done, s') →
        s'.world.memory.contents.read (slotAddress activation place) place.size.toNat =
          s.world.memory.contents.read (slotAddress activation place) place.size.toNat := by
  intro inside
  obtain ⟨isDone, layout, live, before, after⟩ := overruns_narrow
  obtain ⟨r, ready, result⟩ := Option.map_eq_some_iff.mp layout
  have kept := inside ⟨8, .little⟩ (.scripted [] [] true 0 [narrowRecord]) 0x10000000 narrow
    (.compile :: filling) 0 [.aggregate ⟨"pair", 4, 2⟩ [1, 2, 3, 4]] _ r ⟨12, 4, 4⟩
    { structAddress := 0x10000000, ownsStruct := true } (.ofSignature "f" _) ready result
    (by rw [live]; rfl) (Outcome.eq_of_isDone isDone)
  rw [show slotAddress { structAddress := 0x10000000, ownsStruct := true } ⟨12, 4, 4⟩ = 0x1000000c
    from rfl] at kept
  cases after.symm.trans (kept.trans before)

/-- The write that runs over the result has changed the spans of its images. -/
theorem write_spans_narrow :
    let ctx := Debuggee.sparse ⟨8, .little⟩ (.scripted [] [] true 0 [narrowRecord])
    let start : Session Debuggee := .ofCaller narrow 0x10000000 {} []
    let s := after ctx start (.compile :: filling)
    ctx.Manages Debuggee.memory ∧ start.caller.status = .new ∧ start.activations = [] ∧
      start.world.memory.Bounded ∧ ∃ s' r function arguments before activation,
        (step ctx (.write 0 [.aggregate ⟨"pair", 4, 2⟩ [1, 2, 3, 4]])).run s = (.done, s') ∧
        s.caller.ready = .ok r ∧
        s.caller.images r [.aggregate ⟨"pair", 4, 2⟩ [1, 2, 3, 4]] = .ok (function, arguments) ∧
        s.activations[0]? = some (some before) ∧
        Wrote Debuggee.memory r function arguments (before, s.world) (activation, s'.world) := by
  intro ctx start s
  have manages := Debuggee.manages Debuggee.fresh_sparse ⟨8, .little⟩
    (.scripted [] [] true 0 [narrowRecord])
  have bounded := Memory.bounded_ofBase 0x10000000
  obtain ⟨isDone, -⟩ := overruns_narrow
  have done := Outcome.eq_of_isDone isDone
  obtain ⟨r, function, arguments, before, activation, ready, images, live, -, -, -, wrote, -⟩ :=
    @write_spans _ _ _ manages (.ofCaller narrow 0x10000000 {} []) rfl rfl bounded
      (.compile :: filling) _ _ _ done
  exact ⟨manages, rfl, rfl, bounded, _, r, function, arguments, before, activation, done, ready,
    images, live, wrote⟩

end Session

end CallThunk
