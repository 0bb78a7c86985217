import CallThunk.Proofs.Call.EndToEnd
import CallThunk.Proofs.Call.Progress
import CallThunk.Proofs.Wrapper.Alignment

/-!
# What calls return

A struct that is written is mapped in one piece, so the slot of the result can be read when the call
has completed. It holds what the callee gave: the low bits of a word, or the bytes of a record. So
running a written call returns a value of the declared type with exactly these bits.
-/

namespace CallThunk

open Checked
open Caller (ArgumentImage FetchEnds)
open Machine (WordTy Callees Code)

/-! ## A written struct is mapped -/

section
variable {ω : Type} {ctx : Context ω} {memory : ω → Memory} {caller : Caller} {r : Ready}
  {s s' : Activation × ω}

/-- All that was live is still live. -/
def Remains (memory : ω → Memory) (s t : Activation × ω) : Prop :=
  (memory s.2).live ⊆ (memory t.2).live

theorem Remains.refl (s : Activation × ω) : Remains memory s s := List.Subset.refl _

theorem Remains.trans (s t u : Activation × ω) (h : Remains memory s t)
    (h' : Remains memory t u) : Remains memory s u := List.Subset.trans h h'

variable (manages : ctx.Manages memory)
include manages

theorem remains_writeSlot (place : SlotPlace) (bytes : List UInt8) :
    Keeps (Remains memory) (Caller.writeSlot ctx place bytes).run := by
  refine .exceptBind Remains.trans Remains.refl fun current => ?_
  rintro ⟨activation, w⟩
  exact (manages.write _ bytes w).live_subset

theorem remains_newSide (bytes : List UInt8) (align : UInt32) :
    Keeps (Remains memory) (Caller.newSide ctx bytes align).run := by
  intro s
  have given := (manages.allocate (UInt64.ofNat bytes.length) align.toUInt64 s.2).live_subset
  rcases ran : (ctx.allocate (UInt64.ofNat bytes.length) align.toUInt64).run.run s.2 with
    ⟨e | address, w⟩
  · rw [ran] at given
    rw [Caller.run_newSide_error ran]
    exact given
  · rw [ran] at given
    rw [Caller.run_newSide_ok ran]
    exact List.Subset.trans given (manages.write address bytes w).live_subset

theorem remains_writeAll {target : Target} {arguments : List (SlotPlace × Caller.ArgumentImage)} :
    Keeps (Remains memory) (Caller.writeAll ctx target arguments).run :=
  Caller.keeps_writeAll (P := fun _ _ => True) Remains.refl Remains.trans
    (fun place bytes _ => remains_writeSlot manages place bytes) (remains_newSide manages)
    fun _ _ _ _ => trivial

/-- The slot of the callee was written and is not freed any more, so the whole struct is mapped. -/
theorem mapped_of_write {args : List Value} {u : PUnit} (ready : caller.ready = .ok r)
    (written : Yields (caller.write ctx args) s u s')
    (whole : (memory s.2).Whole s.1.structAddress r.layout.size.toNat)
    (function : r.layout.function.size = r.target.pointerSize)
    (within : r.layout.function.stop ≤ r.layout.size.toNat) :
    s'.1.stage = .written ∧ s'.1.structAddress.toNat + r.layout.size.toNat < 2 ^ 64 ∧
      ((memory s'.2).region? s'.1.structAddress r.layout.size.toNat).isSome := by
  have moved := (manages.respects_ages.writeAgain caller args).of_run written
  have still := whole.later moved.world
  obtain ⟨r', image, arguments, s₁, s₂, s₃, ready', images, freed, first, rest, rfl⟩ :=
    steps_of_write written
  cases ready.symm.trans ready'
  have bound := (memory s₃.2).next.toNat_lt
  have fits := Nat.lt_of_le_of_lt still.inside bound
  rw [moved.struct]
  refine ⟨rfl, fits, ?_⟩
  have struct := (manages.respects_ages.freeSides.of_run freed).struct
  obtain ⟨_, _, got, store⟩ := yields_bind.mp first
  obtain ⟨current, kept⟩ := yields_get.mp got
  rw [current, kept] at store
  obtain ⟨store, -⟩ := yields_service.mp store
  obtain ⟨accessible, -⟩ := Memory.write?_eq_some.mp (manages.stored store)
  obtain ⟨region, live, covers⟩ := Memory.region?_isSome.mp accessible
  have remains : Remains memory s₁ s₃ := .trans _ _ _ ((remains_writeSlot manages _ _).of_run first)
    ((remains_writeAll manages).of_run rest)
  have mapped := Memory.region?_isSome.mpr ⟨region, remains live, covers⟩
  -- an address has a byte at least, by which the struct is found
  obtain ⟨-, -, encoded⟩ := images_eq_ok.mp images
  have length := length_of_addressImage encoded
  have width := two_le_of_isPointerWidth (addressImage_eq_ok.mp encoded).1
  rw [← function] at length width
  have start := @toNat_slotAddress r.layout.function s.1.structAddress (by omega)
  unfold Caller.slotAddress at mapped
  rw [struct] at mapped
  unfold SlotPlace.stop at within
  exact still.mapped mapped (by omega) (by rw [start]; omega) (by rw [start]; omega)

end

/-! ## Values of results -/

/-- The value that a call returns, from what the callee gives: the low bits of a word, or the bytes
that the callee leaves in the slot of the result. -/
inductive StructLayout.Returns (layout : StructLayout) (base : UInt64) (result : Nat × Contents) :
    Ty → Value → Prop where
  | void : Returns layout base result .void .void
  | bool : Returns layout base result .bool (.bool (result.1 % 256 != 0))
  | int {kind : IntKind} : Returns layout base result (.int kind) (.int kind (.ofNat _ result.1))
  | float {kind : FloatKind} :
      Returns layout base result (.float kind) (.float kind (.ofNat _ result.1))
  | pointer {pointee : Ty} :
      Returns layout base result (.pointer pointee) (.pointer pointee (.ofNat result.1))
  | function {ret : Ty} {params : List Ty} {variadic : Bool} :
      Returns layout base result (.function ret params variadic)
        (.pointer (.function ret params variadic) (.ofNat result.1))
  | record {r : RecordTy} {place : SlotPlace} (held : layout.result = some place) :
      Returns layout base result (.record r)
        (.aggregate r (result.2.read (base + place.offset.toUInt64) r.size.toNat))

section
variable {layout : StructLayout} {base : UInt64} {result : Nat × Contents} {ret : Ty}
  {place : SlotPlace}

/-- The slot of a result that is a word holds its low bits. -/
theorem value_keep {word : WordTy} (held : layout.result = some place)
    (hword : ret.word? = some word) :
    ByteOrder.little.value ((layout.keep base ret result).read
      (base + place.offset.toUInt64) word.bytes) = result.1 % 256 ^ word.bytes := by
  have length : (word.word result.1).image.length = word.bytes := ByteOrder.length_image ..
  have small : word.bytes ≤ 2 ^ 64 := by cases word <;> decide
  have read := @Contents.read_write result.2 (base + place.offset.toUInt64)
    (word.word result.1).image (by rw [length]; exact small)
  rw [length] at read
  unfold StructLayout.keep
  rw [held, hword]
  dsimp only
  rw [read]
  show ByteOrder.little.value (ByteOrder.little.image word.bytes (result.1 % 256 ^ word.bytes)) = _
  rw [ByteOrder.value_image, Nat.mod_mod]

theorem read_keep_record {r : RecordTy} (a : UInt64) (n : Nat) :
    (layout.keep base (.record r) result).read a n = result.2.read a n := by
  unfold StructLayout.keep
  cases layout.result <;> rfl

theorem ofNat_low (width n : Nat) : BitVec.ofNat width (n % 2 ^ width) = BitVec.ofNat width n :=
  BitVec.eq_of_toNat_eq (by rw [BitVec.toNat_ofNat, BitVec.toNat_ofNat, Nat.mod_mod])

/-- The low bits that the slot of a result holds are decoded as the value that is returned. -/
theorem decode_low {word : WordTy} {bytes : List UInt8} (hword : ret.word? = some word)
    (length : bytes.length = word.bytes)
    (low : ByteOrder.little.value bytes = result.1 % 256 ^ word.bytes) :
    ∃ v, Value.decode .host ret bytes = .ok v ∧ layout.Returns base result ret v := by
  cases ret with
  | void | record => cases hword
  | bool =>
      cases hword
      refine ⟨_, ?_, .bool⟩
      rw [Value.decode, decodeWord_of_length (show bytes.length = 1 from length)]
      exact congrArg (fun n => Except.ok (Value.bool (n != 0))) low
  | int kind =>
      cases (Machine.word?_int kind).symm.trans hword
      rw [Machine.bytes_intWord] at length low
      have bits := congrArg (BitVec.ofNat kind.width) low
      rw [Machine.pow_256, ofNat_low] at bits
      refine ⟨_, ?_, .int⟩
      rw [Value.decode, decodeWord_of_length length]
      exact congrArg (fun bits => Except.ok (Value.int kind bits)) bits
  | float kind =>
      have word : (Ty.float kind).word? = some (Machine.floatWord kind) := by cases kind <;> rfl
      cases word.symm.trans hword
      rw [bytes_floatWord] at length low
      have bits := congrArg (BitVec.ofNat kind.width) low
      rw [show 256 ^ kind.bytes = 2 ^ kind.width by cases kind <;> rfl, ofNat_low] at bits
      refine ⟨_, ?_, .float⟩
      rw [Value.decode, decodeWord_of_length length]
      exact congrArg (fun bits => Except.ok (Value.float kind bits)) bits
  | pointer | function =>
      cases hword
      have address := (congrArg UInt64.ofNat low).trans UInt64.ofNat_mod_size
      refine ⟨_, ?_, by constructor⟩
      rw [Value.decode, @addressOf_of_length .host _ _ rfl length]
      exact congrArg (fun address => Except.ok (Value.pointer _ address)) address

/-- The slot of a result is decoded as the value that is returned. -/
theorem decode_keep (held : layout.result = some place) (size : place.size = ret.size 8)
    (returns : ret ≠ .void) :
    ∃ v, Value.decode .host ret ((layout.keep base ret result).read
        (base + place.offset.toUInt64) place.size.toNat) = .ok v ∧
      layout.Returns base result ret v := by
  rw [size]
  by_cases value : ∀ r, ret ≠ .record r
  · obtain ⟨word, hword⟩ := Machine.word?_of_hasValues (Ty.hasValues_of_ne returns value)
    rw [(size_of_word? hword).1]
    exact decode_low hword (Contents.length_read ..) (value_keep held hword)
  · obtain ⟨r, record⟩ := Classical.not_forall.mp value
    cases Classical.not_not.mp record
    refine ⟨_, ?_, .record held⟩
    rw [read_keep_record]
    exact if_pos (Contents.length_read ..)

end

/-! ## Fetching from a mapped struct -/

/-- A struct of a caller for the host that is laid out and mapped at a base. -/
structure Ready.Mapped (r : Ready) (model : StructModel) (m : Memory) (base : UInt64) : Prop where
  target : r.target = .host
  laid : ∃ record, LaidOut 8 record model ∧ r.layout = layoutOf record model
  fits : base.toNat + r.layout.size.toNat < 2 ^ 64
  mapped : (m.region? base r.layout.size.toNat).isSome

namespace Ready.Mapped

variable {r : Ready} {model : StructModel} {m : Memory} {base : UInt64} {place : SlotPlace}
  {given : Nat × Contents}

/-- Changing bytes leaves a struct mapped. -/
theorem overwritten (h : r.Mapped model m base) (contents : Contents) :
    r.Mapped model { m with contents } base :=
  ⟨h.target, h.laid, h.fits, h.mapped⟩

/-- The slot of a result has the size of its type and is mapped. -/
theorem slot (h : r.Mapped model m base) (held : r.layout.result = some place) :
    model.signature.ret ≠ .void ∧ place.size = model.signature.ret.size 8 ∧
      (m.region? (base + place.offset.toUInt64) place.size.toNat).isSome := by
  obtain ⟨record, laid, layout⟩ := h.laid
  have inside : r.layout.size = record.size := by rw [layout]; rfl
  rw [layout] at held
  obtain ⟨slot, typed, rfl⟩ := Option.map_eq_some_iff.mp held
  obtain ⟨ty, member⟩ := resultSlot?_eq_some typed
  have within := laid.within slot member
  have fits := h.fits
  have mapped := h.mapped
  rw [inside] at fits mapped
  refine ⟨fun void => ?_, by rw [laid.size slot member, ty], ?_⟩
  · unfold StructModel.resultSlot? at typed
    rw [void] at typed
    cases typed
  · exact mapped_slot mapped fits within (Nat.le_refl _)

/-- The slot of a result is read and decoded as what is returned. -/
theorem decodes (h : r.Mapped model m base) (held : r.layout.result = some place)
    (kept : m.contents = r.layout.keep base model.signature.ret given) :
    ∃ bytes v, m.read? (base + place.offset.toUInt64) place.size.toNat = some bytes ∧
      Value.decode r.target model.signature.ret bytes = .ok v ∧
      r.layout.Returns base given model.signature.ret v := by
  obtain ⟨returns, size, mapped⟩ := h.slot held
  obtain ⟨v, decodes, gives⟩ := @decode_keep r.layout base given _ place held size returns
  rw [h.target]
  exact ⟨_, v, Memory.read?_eq_some.mpr ⟨mapped, rfl⟩, by rw [kept]; exact decodes, gives⟩

theorem void (h : r.Mapped model m base)
    (none : r.layout.result = none ∨ model.resultSlot? = none) : model.signature.ret = .void := by
  refine resultSlot?_eq_none ?_
  rcases none with none | none
  · obtain ⟨record, -, layout⟩ := h.laid
    rw [layout] at none
    exact Option.map_eq_none_iff.mp none
  · exact none

/-- The result of a completed call is fetched. -/
theorem fetch {ω : Type} {ctx : Context ω} {memory : ω → Memory} {caller : Caller}
    {s t : Activation × ω}
    (h : r.Mapped caller.model (memory s.2) s.1.structAddress) (manages : ctx.Manages memory)
    (ready : caller.ready = .ok r) (completed : s.1.stage = .completed)
    (kept : (memory s.2).contents =
      r.layout.keep s.1.structAddress caller.model.signature.ret given)
    {result : Except CallError Value} (ends : FetchEnds ctx caller s result t) :
    ∃ v, result = .ok v ∧ t.1 = { s.1 with result := some v } ∧ memory t.2 = memory s.2 ∧
      r.layout.Returns s.1.structAddress given caller.model.signature.ret v := by
  cases ends with
  | unready unready => cases ready.symm.trans unready
  | early early => exact absurd completed early
  | unreadable ready' held failed =>
      cases ready.symm.trans ready'
      obtain ⟨bytes, v, read, -, -⟩ := h.decodes held kept
      cases (manages.reads failed).1 with
      | unmapped unmapped => cases read.symm.trans unmapped
  | undecodable ready' held read failed _ typed =>
      cases ready.symm.trans ready'
      obtain ⟨bytes, v, read', decodes, -⟩ := h.decodes held kept
      cases read'.symm.trans (manages.fetched read).1
      rw [(resultSlot?_eq_some typed).1] at failed
      cases decodes.symm.trans failed
  | @decoded _ _ _ _ v _ _ ready' held typed read decodes =>
      cases ready.symm.trans ready'
      obtain ⟨found, same⟩ := manages.fetched read
      obtain ⟨bytes, v', read', decodes', gives⟩ := h.decodes held kept
      cases read'.symm.trans found
      rw [(resultSlot?_eq_some typed).1] at decodes
      cases decodes'.symm.trans decodes
      exact ⟨v, rfl, rfl, same, gives⟩
  | void _ ready' none =>
      cases ready.symm.trans ready'
      refine ⟨_, rfl, rfl, rfl, ?_⟩
      rw [h.void none]
      exact .void

end Ready.Mapped

/-! ## Running a written call -/

namespace Debuggee

/-- A process in which every plan runs code to its end, on the struct of the plan. -/
def running (ctx : Context Debuggee) (code : Code) (callees : Callees) : Context Debuggee :=
  { ctx with run := fun plan d => (.completed, { d with memory := { d.memory with
      contents := (code.run callees plan.structAddress d.memory.contents).contents } }) }

variable {ctx : Context Debuggee} {code : Code} {callees : Callees}

/-- The thread of a process runs the code at the entry of a plan in this way, with the functions of
the host. -/
theorem runWrapper_of_lookup {plan : Plan} {d : Debuggee} (entry : plan.wrapperEntry ≠ 0)
    (struct : plan.structAddress ≠ 0) (known : d.code.lookup plan.wrapperEntry = some code) :
    (runWrapper plan).run d = ((running ctx code HostFunction.callees).run plan).run d := by
  show runWrapper plan d = _
  unfold runWrapper
  rw [if_neg entry, if_neg struct, known]
  rfl

theorem manages_running (manages : ctx.Manages memory) :
    (running ctx code callees).Manages memory where
  allocate := manages.allocate
  free := manages.free
  read := manages.read
  write := manages.write
  run _ _ := ⟨_, rfl⟩
  compile := manages.compile

end Debuggee

section
variable {ctx : Context Debuggee} {caller : Caller} {r : Ready} {code : Code} {callees : Callees}
  {given : Nat × Contents}

/-- Running a written call runs the code on its struct and returns what the callee gives. -/
theorem Session.run_of_written (manages : ctx.Manages Debuggee.memory) {s : Session Debuggee}
    {index : Nat} {activation : Activation}
    (live : s.activations[index]? = some (some activation)) (ready : s.caller.ready = .ok r)
    (written : activation.stage = .written)
    (mapped : r.Mapped s.caller.model s.world.memory activation.structAddress)
    (kept : (code.run callees activation.structAddress s.world.memory.contents).contents =
      r.layout.keep activation.structAddress s.caller.model.signature.ret given)
    (options : RunOptions) :
    ∃ v s', (step (Debuggee.running ctx code callees) (.run index options)).run s =
        (.value v, s') ∧
      s'.activations[index]? =
        some (some { activation with stage := .completed, result := some v }) ∧
      s'.world.memory = { s.world.memory with
        contents := r.layout.keep activation.structAddress s.caller.model.signature.ret given } ∧
      r.layout.Returns activation.structAddress given s.caller.model.signature.ret v := by
  obtain ⟨result, t, ends, ran⟩ := @run_step_run _ (Debuggee.running ctx code callees) s _ _ live
    options
  have planned : s.caller.plan activation options = .ok ⟨s.caller.name, r.compiled.entry,
      activation.structAddress, s.caller.callee.address, options⟩ := by
    unfold Caller.plan
    rw [ready]
    exact if_neg (by rw [written]; nofun)
  cases ends with
  | refused unplanned => cases planned.symm.trans unplanned
  | interrupted _ stopped early =>
      cases stopped
      cases early
  | completed planned' stopped _ fetched =>
      cases planned.symm.trans planned'
      cases stopped
      obtain ⟨v, rfl, same, memory, returns⟩ :=
        (mapped.overwritten _).fetch (Debuggee.manages_running manages) ready rfl kept fetched
      refine ⟨v, _, ran, ?_, ?_, returns⟩
      · dsimp only
        rw [List.getElem?_set_self (List.getElem?_eq_some_iff.mp live).1, same]
      · dsimp only at memory ⊢
        rw [memory, kept]

end

/-! ## Sessions -/

/-- The layout of a caller with native code. -/
theorem Caller.Native.laidOut {caller : Caller} {r : Ready} {code : Code}
    (native : caller.Native r code) (plain : caller.model.Plain) :
    ∃ record, LaidOut 8 record caller.model ∧ r.layout = layoutOf record caller.model := by
  obtain ⟨program, settles, -⟩ := native.lowers
  obtain ⟨accepted, -, layout⟩ := settles.accepted plain
  exact ⟨_, laidOut_structRecord accepted.fits, layout⟩

namespace Session

theorem whole_ofCaller (caller : Caller) (base : UInt64) (faults : Faults) (script : List Stop) :
    Whole Debuggee.memory (.ofCaller caller base faults script) where
  tidy := Memory.tidy_ofBase base
  structs _ _ live := by cases List.getElem?_nil.symm.trans live

theorem Reaches.whole {ω : Type} {ctx : Context ω} {memory : ω → Memory} {start s : Session ω}
    (manages : ctx.Manages memory) (first : Whole memory start) (h : Reaches ctx start s) :
    Whole memory s := by
  induction h with
  | start => exact first
  | step action _ ih => exact ih.step manages action

/-- A write that is done leaves a struct of the host that is mapped. -/
theorem Whole.mapped {ctx : Context Debuggee} {s : Session Debuggee} {r : Ready} {code : Code}
    {index : Nat} {args : List Value} {before : Activation} {t : Activation × Debuggee}
    (h : Whole Debuggee.memory s) (manages : ctx.Manages Debuggee.memory)
    (ready : s.caller.ready = .ok r) (native : s.caller.Native r code)
    (plain : s.caller.model.Plain) (live : s.activations[index]? = some (some before))
    (written : Yields (s.caller.write ctx args) (before, s.world) () t) :
    t.1.stage = .written ∧ r.Mapped s.caller.model t.2.memory t.1.structAddress := by
  obtain ⟨r', ready', whole⟩ := h.structs index before live
  cases ready.symm.trans ready'
  obtain ⟨record, laid, layout⟩ := native.laidOut plain
  obtain ⟨callee, within⟩ := function_of_laidOut (by rw [native.target]; exact laid) layout
  have size : r.layout.size = record.size := by rw [layout]; rfl
  rw [← size] at within
  obtain ⟨stage, fits, mapped⟩ := mapped_of_write manages ready written whole callee within
  exact ⟨stage, native.target, ⟨record, laid, layout⟩, fits, mapped⟩

/-- Whatever a session does, a write that is done leaves a struct on which the code of the wrapper
makes exactly one call, whatever the callee does: to the address of the callee, with the address of
the result's slot in front if and only if the result is a record, and then with one word for each
argument, in which it arrives. What the callee gives is kept in the slot of the result, and running
the call returns it. -/
theorem returns_of_write {ctx : Context Debuggee} {caller : Caller}
    (native : Debuggee.HasNative ctx) (made : caller.Made) (base : UInt64) (faults : Faults)
    (script : List Stop) {s s' : Session Debuggee} {index : Nat} {args : List Value}
    (reaches : Reaches ctx (.ofCaller caller base faults script) s)
    (written : (step ctx (.write index args)).run s = (.done, s')) :
    ∃ r code activation hidden words, s'.caller.status = .ready r ∧
      r.compiled.code = some code ∧ s'.activations[index]? = some (some activation) ∧
      args.length = caller.callee.signature.params.length ∧
      r.layout.Hidden activation.structAddress caller.callee.signature.ret hidden ∧
      List.Forall₂ (fun (p : Value × Ty) w => p.1.Arrives activation.sides s'.world.memory p.2 w)
        (args.zip caller.callee.signature.params) words ∧
      ∀ callees : Callees,
        let given := callees caller.callee.address (hidden ++ words) s'.world.memory.contents
        let kept := r.layout.keep activation.structAddress caller.callee.signature.ret given
        (code.run callees activation.structAddress s'.world.memory.contents).world =
            ⟨kept, [⟨caller.callee.address, hidden ++ words⟩]⟩ ∧
          ∀ options : RunOptions, ∃ v s'',
            (step (Debuggee.running ctx code callees) (.run index options)).run s' =
              (.value v, s'') ∧
            s''.activations[index]? =
              some (some { activation with stage := .completed, result := some v }) ∧
            s''.world.memory = { s'.world.memory with contents := kept } ∧
            r.layout.Returns activation.structAddress given caller.callee.signature.ret v := by
  obtain ⟨r, code, activation, hidden, words, status, loaded, kept, count, front, arrives, runs⟩ :=
    run_of_write native made base faults script reaches written
  refine ⟨r, code, activation, hidden, words, status, loaded, kept, count, front, arrives,
    fun callees => ⟨runs callees, fun options => ?_⟩⟩
  have contents := congrArg World.contents (runs callees)
  obtain ⟨target, allocator, limits, fresh, rfl⟩ := native.fresh
  have manages := Debuggee.manages fresh target (.native limits)
  have sound := made.sound fresh reaches
  have whole := reaches.whole manages (whole_ofCaller caller base faults script)
  obtain ⟨before, t, live, yields, rfl⟩ := yields_of_step_write written
  have inside := (List.getElem?_eq_some_iff.mp live).1
  cases kept.symm.trans (List.getElem?_set_self inside)
  obtain ⟨same, own⟩ := sound.caller
  obtain ⟨loaded', native⟩ := sound.native r status
  have plain : s.caller.model.Plain := by
    rw [own]
    exact made.plain
  have ret : s.caller.model.signature.ret = caller.callee.signature.ret := by
    rw [own, ← made.signature_eq]
  obtain ⟨stage, mapped⟩ :=
    whole.mapped manages (ready_eq_ok.mpr status) native plain live yields
  rw [← ret] at contents ⊢
  exact run_of_written manages kept (ready_eq_ok.mpr status) stage mapped contents options

/-- The argument -1 of 32 bits arrives as -1 of 64 bits, and what the callee gives comes back. -/
theorem returns_of_write_widening :
    let ctx := Debuggee.host (.native {})
    ∃ s s', Reaches ctx (.ofCaller wideningCaller Debuggee.hostBase {} []) s ∧
      (step ctx (.write 0 [.int .i32 (-1)])).run s = (.done, s') ∧
      ∃ r code activation, s'.caller.status = .ready r ∧ r.compiled.code = some code ∧
        s'.activations[0]? = some (some activation) ∧ ∀ (callees : Callees) (options : RunOptions),
          let contents := s'.world.memory.contents
          (code.run callees activation.structAddress contents).calls =
              [⟨0x1000, [⟨.i64, 2 ^ 64 - 1⟩]⟩] ∧
            ((step (Debuggee.running ctx code callees) (.run 0 options)).run s').1 =
              .value (.int .i64 (.ofNat _ (callees 0x1000 [⟨.i64, 2 ^ 64 - 1⟩] contents).1)) := by
  intro ctx
  have made : wideningCaller.Made := .ofValues "f" _ _
  have ready :=
    @reaches_ready _ made compilable_widening wideningCode rfl {} Debuggee.hostBase {} []
  obtain ⟨s, reaches, accepted⟩ : ∃ s,
      Reaches ctx (.ofCaller wideningCaller Debuggee.hostBase {} []) s ∧
        ((step ctx (.write 0 [.int .i32 (-1)])).run s).1.isDone :=
    ⟨_, ready.step (.prepare .fresh), by decide +kernel⟩
  have written := @Prod.ext _ _ _ (Outcome.done, _) (Outcome.isDone_iff.mp accepted) rfl
  obtain ⟨r, code, activation, hidden, words, ready, loaded, kept, -, front, arrives, calls⟩ :=
    returns_of_write (.host {}) made Debuggee.hostBase {} [] reaches written
  refine ⟨s, _, reaches, written, r, code, activation, ready, loaded, kept,
    fun callees options => ?_⟩
  obtain ⟨runs, returns⟩ := calls callees
  cases front
  cases arrives with
  | cons first rest =>
      cases rest
      cases first
      obtain ⟨v, s'', ran, -, -, gives⟩ := returns options
      cases gives
      exact ⟨congrArg World.calls runs, congrArg Prod.fst ran⟩

end Session

end CallThunk
