import CallThunk.Proofs.Call.Marshaling
import CallThunk.Proofs.Call.Validation

/-!
# When a write is done

A sparse process hands out the same memory whatever was freed and written, and the struct of a call
stays mapped while its arguments are written. So a write on a compiled layout is done exactly if the
caller takes the arguments and the process affords their side buffers, all where pointers reach.
Sizes of slots and the memory of the struct are never to blame, and all that slots hold is decoded.
-/

namespace CallThunk

open Caller (ArgumentImage slotAddress)

/-- Failures that blame where a slot lies: its size, or the memory there. -/
def CallError.Misplaced : CallError → Prop
  | .mismatch m => m.Misfit
  | .memory (.unmapped ..) => True
  | _ => False

/-! ## Side buffers -/

/-- The size and the alignment of the buffer that a value takes besides its slot. -/
def Value.buffer? : Value → Option (UInt64 × UInt64)
  | .aggregate record bytes => some (UInt64.ofNat bytes.length, record.align.toUInt64)
  | _ => none

def Caller.ArgumentImage.buffer? : ArgumentImage → Option (UInt64 × UInt64)
  | .side bytes align => some (UInt64.ofNat bytes.length, align.toUInt64)
  | .word _ => none

section
variable {ω : Type}

/-- Allocates buffers one after the other. -/
def Context.allocateEach (ctx : Context ω) : List (UInt64 × UInt64) → Service ω (List UInt64)
  | [] => return []
  | (size, align) :: rest => do
    let address ← ctx.allocate size align
    let addresses ← ctx.allocateEach rest
    return address :: addresses

/-- Whether buffers can be allocated one after the other, all of them where pointers reach. -/
def Context.Affords (ctx : Context ω) (target : Target) (buffers : List (UInt64 × UInt64)) (w : ω) :
    Prop :=
  ∃ addresses w', Yields (ctx.allocateEach buffers) w addresses w' ∧
    ∀ address ∈ addresses, target.Reaches address

variable {ctx : Context ω} {target : Target} {size align address : UInt64}
  {buffers : List (UInt64 × UInt64)} {w w' : ω}

theorem affords_nil : ctx.Affords target [] w := ⟨[], w, yields_pure.mpr ⟨rfl, rfl⟩, nofun⟩

theorem yields_allocateEach_cons {addresses : List UInt64} :
    Yields (ctx.allocateEach ((size, align) :: buffers)) w addresses w' ↔
      ∃ address t rest, Yields (ctx.allocate size align) w address t ∧
        Yields (ctx.allocateEach buffers) t rest w' ∧ addresses = address :: rest := by
  rw [Context.allocateEach, yields_bind]
  constructor
  · rintro ⟨address, t, first, h⟩
    obtain ⟨rest, u, others, h⟩ := yields_bind.mp h
    obtain ⟨rfl, rfl⟩ := yields_pure.mp h
    exact ⟨address, t, rest, first, others, rfl⟩
  · rintro ⟨address, t, rest, first, others, rfl⟩
    exact ⟨address, t, first, yields_bind.mpr ⟨rest, w', others, yields_pure.mpr ⟨rfl, rfl⟩⟩⟩

/-- Behind a first allocation, it is up to its address and to the buffers that are left. -/
theorem affords_cons (first : Yields (ctx.allocate size align) w address w') :
    ctx.Affords target ((size, align) :: buffers) w ↔
      target.Reaches address ∧ ctx.Affords target buffers w' := by
  constructor
  · rintro ⟨addresses, u, given, reach⟩
    obtain ⟨a, t, rest, first', others, rfl⟩ := yields_allocateEach_cons.mp given
    cases first.symm.trans first'
    exact ⟨reach address (List.mem_cons_self ..), rest, u, others,
      fun a member => reach a (List.mem_cons_of_mem _ member)⟩
  · rintro ⟨reaches, rest, u, others, reach⟩
    refine ⟨address :: rest, u,
      yields_allocateEach_cons.mpr ⟨address, w', rest, first, others, rfl⟩, fun a member => ?_⟩
    rcases List.mem_cons.mp member with rfl | later
    · exact reaches
    · exact reach a later

theorem not_affords_cons {e : MemoryFault}
    (failed : (ctx.allocate size align).run.run w = (.error e, w')) :
    ¬ ctx.Affords target ((size, align) :: buffers) w := by
  rintro ⟨addresses, u, given, -⟩
  obtain ⟨a, t, rest, first, -, -⟩ := yields_allocateEach_cons.mp given
  cases failed.symm.trans first

end

/-! ## Writing to a mapped struct -/

/-- What holds while arguments are written: the struct up to a size is mapped, and its process hands
out memory like one that does nothing else. -/
structure Provides (size : Nat) (d : Debuggee) (s : Activation × Debuggee) : Prop where
  fits : s.1.structAddress.toNat + size < 2 ^ 64
  mapped : (s.2.memory.region? s.1.structAddress size).isSome
  alike : d.Alike s.2

section
variable (target : Target) (choice : Debuggee.CompilerChoice) {size : Nat} {d : Debuggee}
  {s : Activation × Debuggee}

/-- A region that holds the struct stays live, and memory is handed out as before. -/
theorem Provides.later (h : Provides size d s) {e : Debuggee} {t : Activation × Debuggee}
    (struct : t.1.structAddress = s.1.structAddress) (alike : e.Alike t.2)
    (live : ∀ region ∈ s.2.memory.live, region.covers s.1.structAddress size →
      region ∈ t.2.memory.live) : Provides size e t where
  fits := by
    rw [struct]
    exact h.fits
  mapped := by
    obtain ⟨region, member, covers⟩ := Memory.region?_isSome.mp h.mapped
    rw [struct]
    exact Memory.region?_isSome.mpr ⟨region, live region member covers, covers⟩
  alike := alike

/-- Bytes that fit a slot of the struct are written. -/
theorem Provides.writeSlot (h : Provides size d s) {place : SlotPlace} {bytes : List UInt8}
    (fits : bytes.length ≤ place.size.toNat) (within : place.stop ≤ size) :
    ∃ t, Yields (Caller.writeSlot (Debuggee.sparse target choice) place bytes) s () t ∧
      Provides size d t := by
  have manages := Debuggee.manages Debuggee.fresh_sparse target choice
  have accessible : (s.2.memory.region? (slotAddress s.1 place) bytes.length).isSome :=
    mapped_slot h.mapped h.fits within fits
  obtain ⟨w, written, after⟩ := manages.yields_write accessible
  have alike := (Debuggee.alike_write _ _).of_run written
  refine ⟨(s.1, w), ?_, h.later rfl (h.alike.trans alike) fun region member _ => ?_⟩
  · exact yields_bind.mpr ⟨s, s, yields_get.mpr ⟨rfl, rfl⟩, yields_service.mpr ⟨written, rfl⟩⟩
  · dsimp only
    rw [after]
    exact member

/-- A side buffer is made if it can be allocated. -/
theorem Provides.newSide (h : Provides size d s) {bytes : List UInt8} {align : UInt32}
    (short : bytes.length < 2 ^ 64) :
    let ctx := Debuggee.sparse target choice
    (∃ address d' t, Yields (ctx.allocate (UInt64.ofNat bytes.length) align.toUInt64) d address d' ∧
        Yields (Caller.newSide ctx bytes align) s address t ∧ Provides size d' t) ∨
      ∃ d' t e, (ctx.allocate (UInt64.ofNat bytes.length) align.toUInt64).run.run d =
          (.error e, d') ∧
        ((Caller.newSide ctx bytes align).run.run s : Except CallError UInt64 × _) =
          (.error (.memory (.allocationFailed (UInt64.ofNat bytes.length))), t) := by
  intro ctx
  have manages := Debuggee.manages Debuggee.fresh_sparse target choice
  rcases h.alike.hands (UInt64.ofNat bytes.length) align.toUInt64 with
    ⟨address, d', w, given, given', alike⟩ | ⟨d', w, failed, failed'⟩
  · obtain ⟨n, room, region⟩ := manages.allocated given'
    rw [UInt64.toNat_ofNat', Nat.mod_eq_of_lt short] at room
    have accessible : (w.memory.region? address bytes.length).isSome := by
      refine Memory.region?_isSome.mpr ⟨⟨address, n⟩, ?_, Region.covers_iff.mpr ⟨Nat.le_refl _, ?_⟩⟩
      · rw [region.live]
        exact List.mem_cons_self ..
      · exact Nat.add_le_add_left room _
    obtain ⟨w', written, after⟩ := manages.yields_write accessible
    have filled := (Debuggee.alike_write _ _).of_run written
    refine .inl ⟨address, d', ({ s.1 with sides := s.1.sides ++ [address] }, w'), given, ?_,
      h.later rfl (alike.trans filled) fun other member _ => ?_⟩
    · unfold Yields
      rw [@Caller.run_newSide_ok _ ctx _ _ s _ _ given',
        show (ctx.write address bytes).run.run w = _ from written]
      rfl
    · dsimp only
      rw [after]
      dsimp only
      rw [region.live]
      exact List.mem_cons_of_mem _ member
  · exact .inr ⟨d', _, _, failed, @Caller.run_newSide_error _ ctx _ _ s _ _ failed'⟩

/-- An image that fits its slot is written exactly if its buffer can be afforded. -/
theorem Provides.writeArgument (h : Provides size d s) {place : SlotPlace} {image : ArgumentImage}
    (fits : image.length target ≤ place.size.toNat) (within : place.stop ≤ size)
    (short : ∀ bytes align, image = .side bytes align → bytes.length < 2 ^ 64) :
    let ctx := Debuggee.sparse target choice
    let x := Caller.writeArgument ctx target place image
    (∃ d' t, Yields x s () t ∧ Provides size d' t ∧ ∀ buffers,
      ctx.Affords target (image.buffer?.toList ++ buffers) d ↔ ctx.Affords target buffers d') ∨
    ∃ e t, (x.run.run s : Except CallError PUnit × _) = (.error e, t) ∧ ¬ e.Misplaced ∧
      ∀ buffers, ¬ ctx.Affords target (image.buffer?.toList ++ buffers) d := by
  intro ctx x
  cases image with
  | word bytes =>
      obtain ⟨t, written, provides⟩ := h.writeSlot target choice fits within
      exact .inl ⟨d, t, written, provides, fun _ => Iff.rfl⟩
  | side bytes align =>
      rcases @Provides.newSide target choice _ _ _ h bytes align (short bytes align rfl) with
        ⟨address, d', t, given, made, provides⟩ | ⟨d', t, e, failed, left⟩
      · have ran : (x.run.run s : Except CallError PUnit × _) = _ := run_exceptBind_ok made
        have encodes := checks_addressImage target address
        generalize encoded : target.addressImage address = result at encodes
        rw [encoded] at ran
        cases encodes with
        | refused fails fair =>
            exact .inr ⟨_, t, ran, fair, fun _ affords => fails ((affords_cons given).mp affords).1⟩
        | passed reaches image =>
            have length := Nat.le_of_eq (length_of_addressImage encoded)
            obtain ⟨u, written, provides⟩ := provides.writeSlot target choice
              (Nat.le_trans length fits) within
            exact .inl ⟨d', u, ran.trans written, provides, fun _ =>
              (affords_cons given).trans (and_iff_right reaches)⟩
      · exact .inr ⟨_, t, run_exceptBind_error left, id, fun _ => not_affords_cons failed⟩

/-- Images that fit their slots are written exactly if their buffers can be afforded. -/
theorem Provides.checks_writeAll (h : Provides size d s)
    {arguments : List (SlotPlace × ArgumentImage)}
    (places : ∀ p ∈ arguments, p.2.length target ≤ p.1.size.toNat ∧ p.1.stop ≤ size)
    (short : ∀ p ∈ arguments, ∀ bytes align, p.2 = .side bytes align → bytes.length < 2 ^ 64) :
    let ctx := Debuggee.sparse target choice
    Checks CallError.Misplaced (ctx.Affords target (arguments.filterMap (·.2.buffer?)) d)
      ((Caller.writeAll ctx target arguments).run.run s).1 := by
  intro ctx
  induction arguments generalizing s d with
  | nil => exact .passed affords_nil _
  | cons argument rest ih =>
      obtain ⟨place, image⟩ := argument
      obtain ⟨fits, within⟩ := places _ (List.mem_cons_self ..)
      have first : ((place, image) :: rest).filterMap (·.2.buffer?) =
          image.buffer?.toList ++ rest.filterMap (·.2.buffer?) := by
        cases image <;> rfl
      rw [first, Caller.writeAll]
      rcases h.writeArgument target choice fits within (short _ (List.mem_cons_self ..)) with
        ⟨d', t, written, provides, same⟩ | ⟨e, t, failed, fair, short⟩
      · rw [run_exceptBind_ok written]
        refine (ih provides (fun p hp => ?_) fun p hp => ?_).of_iff (same _).symm
        · exact places p (List.mem_cons_of_mem _ hp)
        · exact short p (List.mem_cons_of_mem _ hp)
      · rw [run_exceptBind_error failed]
        exact .refused (short _) fair

/-- The side buffers of the arguments before lie behind the struct, so it stays mapped when they are
freed. -/
theorem Provides.freeSides (h : Provides size d s) (positive : 0 < size)
    (behind : ∀ a ∈ s.1.sides, s.1.structAddress.toNat + size ≤ a.toNat)
    (freed : ((Activation.freeEach (Debuggee.sparse target choice) s.1.sides).run s.2).1 = .ok ()) :
    ∃ t, Yields (Caller.freeSides (Debuggee.sparse target choice)) s () t ∧ Provides size d t := by
  have manages := Debuggee.manages Debuggee.fresh_sparse target choice
  have alike : Keeps Debuggee.Alike
      (Activation.freeEach (Debuggee.sparse target choice) s.1.sides) :=
    keeps_freeEach .refl (fun _ _ _ => .trans) fun address _ => Debuggee.alike_free address
  rcases ran : (Activation.freeEach (Debuggee.sparse target choice) s.1.sides).run s.2 with
    ⟨result, w⟩
  rw [ran] at freed
  cases freed
  refine ⟨({ s.1 with sides := [] }, w), ?_, h.later rfl (h.alike.trans (alike.of_run ran))
    fun region member covers => ?_⟩
  · unfold Yields
    rw [Caller.run_freeSides, ran]
    rfl
  · refine (live_of_freeEach manages).of_run ran region member fun own => ?_
    have after := behind _ own
    have before := (Region.covers_iff.mp covers).1
    omega

end

/-! ## Whole writes -/

/-- An image takes a side buffer if its value does, and it is short. -/
theorem buffer_of_argumentImage {target : Target} {i : Nat} {ty : Ty} {place : SlotPlace}
    {v : Value} {image : ArgumentImage}
    (h : Caller.argumentImage target i ty place v = .ok image) :
    image.buffer? = v.buffer? ∧
      ∀ bytes align, image = .side bytes align → bytes.length < 2 ^ 64 := by
  obtain ⟨-, ⟨record, bytes, rfl, whole, rfl⟩ | ⟨bytes, encoded, -, rfl⟩⟩ := argumentImage_eq_ok h
  · refine ⟨rfl, ?_⟩
    rintro _ _ ⟨⟩
    have short := record.size.toNat_lt
    omega
  · refine ⟨?_, nofun⟩
    cases v with
    | aggregate => cases encoded
    | void | bool | int | float | pointer => rfl

theorem buffers_of_argumentImages {target : Target} {record : PlacedRecord} {slots : List Slot}
    {values : List Value} {index : Nat} {images : List (SlotPlace × ArgumentImage)}
    (count : values.length = slots.length)
    (h : Caller.argumentImages target index (slots.map Slot.ty) (slots.map (fieldPlace record))
      values = .ok images) :
    images.filterMap (·.2.buffer?) = values.filterMap Value.buffer? ∧
      ∀ p ∈ images, ∀ bytes align, p.2 = .side bytes align → bytes.length < 2 ^ 64 := by
  induction slots generalizing values index images with
  | nil =>
      cases List.length_eq_zero_iff.mp count
      cases h
      exact ⟨rfl, nofun⟩
  | cons slot slots ih =>
      cases values with
      | nil => cases count
      | cons v values =>
          obtain ⟨image, first, h⟩ := bind_eq_ok.mp h
          obtain ⟨rest, others, h⟩ := bind_eq_ok.mp h
          cases h
          obtain ⟨buffer, short⟩ := buffer_of_argumentImage first
          obtain ⟨buffers, shorter⟩ := ih (Nat.succ.inj count) others
          refine ⟨?_, ?_⟩
          · rw [List.filterMap_cons, List.filterMap_cons, buffer, buffers]
          · rintro p (_ | ⟨_, hp⟩)
            · exact short
            · exact shorter p hp

theorem two_le_of_isPointerWidth {size : UInt32} (h : Target.isPointerWidth size) :
    2 ≤ size.toNat := by
  unfold Target.isPointerWidth at h
  simp only [Bool.or_eq_true, decide_eq_true_eq] at h
  rcases h with (rfl | rfl) | rfl <;> decide

theorem Caller.run_thenUpdate {ω : Type} {x : Caller.OnActivation ω PUnit}
    {f : Activation → Activation} {s : Activation × ω} :
    ((x >>= fun _ => Caller.update f).run.run s : Except CallError PUnit × _).1 =
      (x.run.run s).1 := by
  rw [run_exceptBind]
  rcases (x.run.run s : Except CallError PUnit × _) with ⟨e | u, t⟩ <;> rfl

section
variable {target : Target} (choice : Debuggee.CompilerChoice) {s : Activation × Debuggee}
  {d : Debuggee} {caller : Caller} {r : Ready} {args : List Value}

/-- Images of a compiled caller's arguments are written exactly if their buffers can be afforded. -/
theorem Provides.checks_transfer (h : Provides r.layout.size.toNat d s)
    (compiled : caller.FromSource target r)
    (behind : ∀ a ∈ s.1.sides, s.1.structAddress.toNat + r.layout.size.toNat ≤ a.toNat)
    (freed : ((Activation.freeEach (Debuggee.sparse target choice) s.1.sides).run s.2).1 = .ok ())
    {function : List UInt8} {arguments : List (SlotPlace × ArgumentImage)}
    (images : caller.images r args = .ok (function, arguments)) :
    let ctx := Debuggee.sparse target choice
    Checks CallError.Misplaced (ctx.Affords target (args.filterMap Value.buffer?) d)
      ((Caller.transfer ctx r function arguments).run.run s).1 := by
  intro ctx
  have laid := compiled.laidOut
  rw [← compiled.targeted] at laid
  have layout := compiled.layout
  rw [← compiled.targeted] at layout
  obtain ⟨callee, within⟩ := function_of_laidOut laid layout
  obtain ⟨places, -, -⟩ := images_of_laidOut laid layout images
  obtain ⟨arity, checked, encoded⟩ := images_eq_ok.mp images
  have length := length_of_addressImage encoded
  have width := two_le_of_isPointerWidth (addressImage_eq_ok.mp encoded).1
  have size : r.layout.size = (structRecord r.target.pointerSize
      (WrapperSource.ofModel caller.name caller.model).structName caller.model.slots).size := by
    rw [layout]
    rfl
  rw [← size] at within places
  rw [layout, ← inputSlots_tys] at checked
  obtain ⟨buffers, short⟩ :=
    buffers_of_argumentImages (arity.trans (length_inputSlots _).symm) checked
  have positive : 0 < r.layout.size.toNat := by
    unfold SlotPlace.stop at within
    rw [callee] at within
    omega
  obtain ⟨t, first, provides⟩ := h.freeSides target choice positive behind freed
  obtain ⟨u, second, provides⟩ := provides.writeSlot target choice
    (Nat.le_of_eq (length.trans (congrArg UInt32.toNat callee.symm))) within
  rw [Caller.transfer, run_exceptBind_ok first, run_exceptBind_ok second, ← buffers,
    compiled.targeted]
  refine provides.checks_writeAll target choice (fun p hp => ?_) short
  obtain ⟨fills, stop⟩ := places p hp
  rw [← compiled.targeted]
  exact ⟨Nat.le_of_eq fills, stop⟩

/-- A write is done exactly if its arguments are taken and their buffers can be afforded. -/
theorem Provides.checks_write (h : Provides r.layout.size.toNat d s)
    (compiled : caller.FromSource target r) (ready : caller.ready = .ok r)
    (behind : ∀ a ∈ s.1.sides, s.1.structAddress.toNat + r.layout.size.toNat ≤ a.toNat)
    (freed : ((Activation.freeEach (Debuggee.sparse target choice) s.1.sides).run s.2).1 = .ok ()) :
    let ctx := Debuggee.sparse target choice
    Checks CallError.Misplaced
      (caller.Takes target args ∧ ctx.Affords target (args.filterMap Value.buffer?) d)
      ((caller.write ctx args).run.run s).1 := by
  intro ctx
  have checks := compiled.checks_images args
  generalize given : caller.images r args = result at checks
  cases checks with
  | refused fails fair =>
      rw [Caller.run_write_of_error ((Caller.validate_eq_mismatch ready).mpr given)]
      exact .refused (mt And.left fails) fair
  | passed takes images =>
      obtain ⟨function, arguments⟩ := images
      rw [Caller.run_write_of_ok (Caller.validate_eq_ok.mpr ⟨ready, given⟩), Caller.run_thenUpdate]
      have provides : Provides r.layout.size.toNat d (Caller.givenUp s) :=
        ⟨h.fits, h.mapped, h.alike⟩
      exact (provides.checks_transfer choice compiled behind freed given).of_iff
        (and_iff_right takes).symm

end

/-! ## Sessions -/

namespace Session

/-- A caller that was compiled from its source writes to a mapped struct in a sparse process, and
all side buffers of before can be freed: that is done exactly if the caller takes the arguments and
the process affords their side buffers, all where pointers reach. Otherwise neither the size of a
slot nor the memory of one is to blame. No slot wraps around, and no matter what the struct and its
buffers hold, reading arguments or a result never fails for a value. -/
theorem write_done_iff (target : Target) {choice : Debuggee.CompilerChoice}
    (compiles : choice.compiles) {caller : Caller} (made : caller.Made) (base : UInt64)
    (faults : Faults) (script : List Stop) (actions : List Action) {r : Ready} {index : Nat}
    {activation : Activation} :
    let ctx := Debuggee.sparse target choice
    let s := after ctx (.ofCaller caller base faults script) actions
    s.caller.ready = .ok r → s.activations[index]? = some (some activation) →
      (∀ slot ∈ r.layout.slots, activation.structAddress.toNat + slot.stop < 2 ^ 64) ∧
      (∀ m, ((step ctx (.read index)).run s).1 ≠ .failed (.mismatch m)) ∧
      (∀ m, ((step ctx (.fetch index)).run s).1 ≠ .failed (.mismatch m)) ∧
      ((s.world.memory.region? activation.structAddress r.layout.size.toNat).isSome →
        ((Activation.freeEach ctx activation.sides).run s.world).1 = .ok () → ∀ args,
          (((step ctx (.write index args)).run s).1 = .done ↔ s.caller.Takes target args ∧
            ctx.Affords target (args.filterMap Value.buffer?) s.world) ∧
          ∀ e, ((step ctx (.write index args)).run s).1 = .failed e → ¬ e.Misplaced) := by
  intro ctx s ready live
  have manages := Debuggee.manages Debuggee.fresh_sparse target choice
  have compiled : s.caller.FromSource target r :=
    fromSource_after Debuggee.fresh_sparse compiles made base faults script actions ready
  have grounded : Grounded ctx Debuggee.memory s :=
    (Grounded.of_new made.new rfl (Memory.bounded_ofBase base)).after manages actions
  obtain ⟨r', ready', call⟩ := grounded.calls index activation live
  cases ready.symm.trans ready'
  have width := call.width
  rw [compiled.targeted] at width
  have bound := s.world.memory.next.toNat_lt
  refine ⟨fun slot member => ?_, fun m failed => ?_, fun m failed => ?_,
    fun mapped freed args => ?_⟩
  · have stop := compiled.stop_le member
    have inside := call.inside
    omega
  · rw [run_step_read live] at failed
    rcases ran : ((s.caller.read ctx activation).run.run s.world : Except CallError _ × _) with
      ⟨e | values, w⟩
    · rw [ran] at failed
      cases failed
      exact compiled.run_read_ne_mismatch manages ready width ran
    · rw [ran] at failed
      cases failed
  · obtain ⟨result, t, ends, ran⟩ := @run_step_fetch _ ctx _ _ _ live
    rw [ran] at failed
    cases result with
    | ok v => cases failed
    | error e =>
        cases failed
        exact compiled.fetchEnds_ne_mismatch manages ready width ends rfl
  · have provides : Provides r.layout.size.toNat s.world (activation, s.world) :=
      ⟨Nat.lt_of_le_of_lt call.inside bound, mapped, .refl _⟩
    have checks : Checks _ _ ((s.caller.write ctx args).run.run (activation, s.world)).1 :=
      provides.checks_write choice compiled ready call.sides freed
    rcases ran : ((s.caller.write ctx args).run.run (activation, s.world) :
      Except CallError PUnit × _) with ⟨result, t⟩
    rw [run_step_write_of live ran]
    rw [ran] at checks
    cases checks with
    | passed holds => exact ⟨⟨fun _ => holds, fun _ => rfl⟩, nofun⟩
    | refused fails fair =>
        refine ⟨⟨nofun, fun holds => absurd holds fails⟩, fun e failed => ?_⟩
        cases failed
        exact fair

/-- A call that owns its struct and the side buffer of an aggregate. -/
def aggregatedCall : Activation where
  structAddress := 0x10000000
  ownsStruct := true
  sides := [0x1000000e]
  arguments := aggregated
  stage := .written

/-- The call is written, and its struct is mapped. Its side buffer can be freed, and there is room
for another one. -/
theorem written_aggregated :
    let ctx := Debuggee.sparse ⟨4, .big⟩ .layoutOnly
    let s := after ctx (.ofCaller mixing 0x10000000 {} [])
      [.compile, .prepare .fresh, .write 0 aggregated]
    s.caller.ready?.map (fun r => r.layout.size) = some 12 ∧
      s.activations[0]? = some (some aggregatedCall) ∧
      (s.world.memory.region? aggregatedCall.structAddress 12).isSome ∧
      ((Activation.freeEach ctx aggregatedCall.sides).run s.world).1.isOk ∧
      ((step ctx (.write 0 aggregated)).run s).1.isDone := by
  have compiled := @run_compile_layoutOnly _ (Debuggee.sparse ⟨4, .big⟩ .layoutOnly)
    (.ofCaller mixing 0x10000000 {} []) (.ofSignature "f" _) compilable_mixing
    (Debuggee.compile_layoutOnly ..)
  dsimp only
  rw [after, compiled]
  decide +kernel

/-- So an aggregate that was written is written again. -/
theorem write_done_again :
    let ctx := Debuggee.sparse ⟨4, .big⟩ .layoutOnly
    let s := after ctx (.ofCaller mixing 0x10000000 {} [])
      [.compile, .prepare .fresh, .write 0 aggregated]
    ∃ r, s.caller.ready = .ok r ∧ s.activations[0]? = some (some aggregatedCall) ∧
      (s.world.memory.region? aggregatedCall.structAddress r.layout.size.toNat).isSome ∧
      ((Activation.freeEach ctx aggregatedCall.sides).run s.world).1 = .ok () ∧
      s.caller.Takes ⟨4, .big⟩ aggregated ∧ ctx.Affords ⟨4, .big⟩ [(4, 2)] s.world := by
  have written := written_aggregated
  have progress := fun r => @write_done_iff ⟨4, .big⟩ .layoutOnly rfl mixing (.ofSignature "f" _)
    0x10000000 {} [] [.compile, .prepare .fresh, .write 0 aggregated] r 0 aggregatedCall
  dsimp only at written progress ⊢
  -- what is left does not depend on how the session came about
  generalize after _ _ _ = s at written progress ⊢
  obtain ⟨isReady, live, mapped, isFreed, isDone⟩ := written
  obtain ⟨r, known, size⟩ := Option.map_eq_some_iff.mp isReady
  have ready := ready?_eq_some.mp known
  rw [show 12 = r.layout.size.toNat by rw [size]; rfl] at mapped
  have freed : ((Activation.freeEach (Debuggee.sparse ⟨4, .big⟩ .layoutOnly)
      aggregatedCall.sides).run s.world).1 = .ok () := by
    revert isFreed
    cases ((Activation.freeEach _ aggregatedCall.sides).run s.world).1 with
    | ok => exact fun _ => rfl
    | error => nofun
  obtain ⟨-, -, -, writes⟩ := progress r ready live
  obtain ⟨iff, -⟩ := writes mapped freed aggregated
  obtain ⟨takes, affords⟩ := iff.mp (Outcome.isDone_iff.mp isDone)
  exact ⟨r, ready, live, mapped, freed, takes, affords⟩

end Session

end CallThunk
