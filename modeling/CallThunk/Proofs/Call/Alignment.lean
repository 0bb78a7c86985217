import CallThunk.Proofs.Call.Layouts
import CallThunk.Proofs.Wrapper.Alignment

/-!
# Alignment of the structs of calls

A struct that is allocated for a call is aligned as its layout asks. Memory that a call is given
must hold the struct, but nothing looks at where it starts, and all accesses of the wrapper count on
an aligned struct. So a call is aligned exactly when the struct was allocated or the address that
was given happens to be aligned.
-/

namespace CallThunk

open Caller (PrepareEnds slotAddress)
open Machine (Code Callees)

/-- A context that allocates at multiples of the alignment that is asked for. -/
def Context.Aligns {ω : Type} (ctx : Context ω) : Prop :=
  ∀ (size align a : UInt64) (w w' : ω), Yields (ctx.allocate size align) w a w' →
    max align.toNat 1 ∣ a.toNat

theorem Debuggee.aligns {allocator : Allocator} (aligning : Aligning allocator) (target : Target)
    (choice : CompilerChoice) : (context target allocator choice).Aligns :=
  fun _ _ _ _ _ => dvd_of_allocate aligning

/-! ## Where structs lie -/

/-- A struct lies at the address that was given, or at an aligned one. -/
inductive Activation.Seated (r : Ready) (activation : Activation) : StructPlace → Prop where
  | given : Seated r activation (.given activation.structAddress)
  | fresh (aligned : max r.layout.align.toNat 1 ∣ activation.structAddress.toNat) :
      Seated r activation .fresh

namespace Activation.Seated

variable {ω : Type} {ctx : Context ω} {memory : ω → Memory} {caller : Caller} {r : Ready}
  {activation : Activation} {place : StructPlace} {w w' : ω}

theorem of_same {other : Activation} (h : activation.Seated r place)
    (same : other.structAddress = activation.structAddress) : other.Seated r place := by
  cases h with
  | given =>
      rw [← same]
      exact .given
  | fresh aligned =>
      rw [← same] at aligned
      exact .fresh aligned

theorem of_prepare (aligns : ctx.Aligns) (ready : caller.ready = .ok r)
    (h : PrepareEnds ctx caller w place (.ok activation) w') : activation.Seated r place := by
  cases h with
  | adopted => exact .given
  | allocated ready' allocated =>
      cases ready.symm.trans ready'
      have aligned := aligns _ _ _ _ _ allocated
      rw [UInt32.toNat_toUInt64] at aligned
      exact .fresh aligned

theorem of_opens (manages : ctx.Manages memory) (aligns : ctx.Aligns) (ready : caller.ready = .ok r)
    {action : Action} (opens : Session.Opens ctx caller w action (.ok activation) w') :
    ∃ place, action.place? = some place ∧ activation.Seated r place := by
  cases opens with
  | prepare ends => exact ⟨_, rfl, of_prepare aligns ready ends⟩
  | insert ends =>
      cases ends with
      | written prepared written =>
          have moved := (advances_write manages written).1
          exact ⟨_, rfl, (of_prepare aligns ready prepared).of_same moved.struct⟩

theorem eq_of_given (h : activation.Seated r place) {address : UInt64}
    (given : place = .given address) : activation.structAddress = address := by
  subst given
  cases h with
  | given => rfl

/-- A struct is aligned unless it was given at an address that is not. -/
theorem aligned_iff (h : activation.Seated r place) (positive : 0 < r.layout.align.toNat) :
    r.layout.align.toNat ∣ activation.structAddress.toNat ↔
      ∀ address, place = .given address → r.layout.align.toNat ∣ address.toNat := by
  cases h with
  | given => exact ⟨fun struct _ same => by cases same; exact struct, fun given => given _ rfl⟩
  | fresh struct =>
      rw [Nat.max_eq_left positive] at struct
      exact ⟨nofun, fun _ => struct⟩

/-- No operation moves the struct. -/
theorem changes (manages : ctx.Manages memory) {s t : Activation × ω} (h : s.1.Seated r place)
    {index : Nat} {action : Action} {given : Outcome}
    (changes : Session.Changes ctx caller index s action given t) : t.1.Seated r place :=
  h.of_same (changes.struct manages)

end Activation.Seated

namespace Session

section
variable {ω : Type} {ctx : Context ω} {memory : ω → Memory} {start s s' : Session ω} {r : Ready}
  {index : Nat} {activation : Activation} {last : Option StructPlace}

/-- The place that is asked for by the action that finds a name unused. -/
def placedBy (index : Nat) (s : Session ω) (action : Action) (last : Option StructPlace) :
    Option StructPlace :=
  if s.activations.length = index then action.place? else last

/-- The place that was asked for by the action that made the call of a name. -/
def placed? (ctx : Context ω) (index : Nat) (s : Session ω) (actions : List Action) :
    Option StructPlace :=
  noted ctx (placedBy index) none s actions

/-- A live call lies where it was asked to lie. -/
def Lies (s : Session ω) (index : Nat) (last : Option StructPlace) : Prop :=
  ∀ activation r, s.activations[index]? = some (some activation) → s.caller.ready = .ok r →
    ∃ place, last = some place ∧ activation.Seated r place

theorem placedBy_of_live (live : s.activations[index]? = some (some activation)) (action : Action) :
    placedBy index s action last = last :=
  if_neg (Nat.ne_of_gt (List.getElem?_eq_some_iff.mp live).1)

/-- Every action leaves calls where they were asked to lie. -/
theorem Lies.step (h : Lies s index last) (manages : ctx.Manages memory) (aligns : ctx.Aligns)
    (grounded : Grounded ctx memory s) (action : Action) :
    Lies ((Session.step ctx action).run s).2 index (placedBy index s action last) := by
  have does := does_step ctx s action
  generalize ((Session.step ctx action).run s).1 = given at does
  generalize ((Session.step ctx action).run s).2 = s' at *
  intro activation r live ready
  -- a call that was live before has a caller that was ready before
  have old {before : Activation} (known : s.activations[index]? = some (some before)) :
      ∃ place, placedBy index s action last = some place ∧ before.Seated r place := by
    obtain ⟨r', ready', -⟩ := grounded.calls index before known
    cases ready.symm.trans (does.ready ready')
    rw [placedBy_of_live known]
    exact h before r known ready'
  obtain ⟨_, known, moves⟩ := does.moves_to live
  cases moves with
  | kept | looked => exact old known
  | @changed before _ changes =>
      obtain ⟨place, placed, seated⟩ := old known
      exact ⟨place, placed, seated.changes (s := (before, s.world)) manages changes⟩
  | opened last _ caller opens =>
      rw [caller] at ready
      unfold placedBy
      rw [if_pos last]
      exact Activation.Seated.of_opens manages aligns ready opens

theorem lies_after (manages : ctx.Manages memory) (aligns : ctx.Aligns)
    (grounded : Grounded ctx memory start) (empty : start.activations = []) (index : Nat)
    (actions : List Action) :
    Lies (after ctx start actions) index (placed? ctx index start actions) := by
  induction actions using List.reverseRecOn with
  | nil =>
      intro activation r live
      rw [show after ctx start [] = start from rfl, empty] at live
      cases live
  | append_singleton actions action ih =>
      unfold placed?
      rw [after_concat, noted_concat]
      exact ih.step manages aligns (grounded.after manages actions) action

end

end Session

/-! ## Accesses of compiled callers -/

def Outcome.plan? : Outcome → Option Plan
  | .plan p => some p
  | _ => none

theorem Outcome.plan?_eq_some {outcome : Outcome} {p : Plan} :
    outcome.plan? = some p ↔ outcome = .plan p := by
  cases outcome <;> simp [plan?]

/-- A plan is about the struct of its call. -/
theorem Caller.struct_of_plan {caller : Caller} {activation : Activation} {options : RunOptions}
    {p : Plan} (planned : caller.plan activation options = .ok p) :
    p.structAddress = activation.structAddress := by
  unfold plan at planned
  obtain ⟨r, -, planned⟩ := bind_eq_ok.mp planned
  split at planned
  · cases planned
  · cases planned
    rfl

/-- All that the wrapper of a compiled caller loads and stores are whole slots of its struct, so it
is mapped where the struct is. -/
theorem Caller.FromSource.accesses {caller : Caller} {target : Target} {r : Ready} {code : Code}
    (h : caller.FromSource target r) (loaded : r.compiled.code = some code) {base : UInt64}
    (fits : base.toNat + r.layout.size.toNat < 2 ^ 64) (callees : Callees) (contents : Contents) :
    ∀ access ∈ code.accesses callees base contents, ∃ place ∈ r.layout.slots,
      access.address.toNat = base.toNat + place.offset.toNat ∧
        access.ty.bytes = place.size.toNat ∧ access.ty.bytes = place.align.toNat := by
  intro access made
  obtain ⟨host, lowered⟩ := h.lowered code loaded
  subst host
  obtain ⟨slot, member, word, address⟩ := accesses_wrapperBody lowered callees base contents access
    made
  obtain ⟨size, align⟩ := @fieldPlace_structRecord
    (WrapperSource.ofModel caller.name caller.model).structName 8 caller.model slot member
  obtain ⟨bytes, natural⟩ := size_of_word? word
  have inside : fieldPlace (structRecord 8
      (WrapperSource.ofModel caller.name caller.model).structName caller.model.slots) slot ∈
        r.layout.slots := by
    rw [h.layout, slots_layoutOf]
    exact List.mem_map_of_mem member
  have stop := h.stop_le inside
  refine ⟨_, inside, ?_, ?_, ?_⟩
  · rw [address]
    exact toNat_slotAddress (Nat.lt_of_le_of_lt (Nat.add_le_add_left stop _) fits)
  · rw [size, bytes]
  · rw [align, natural]

/-- In an aligned struct each slot is aligned. -/
theorem StructLayout.Aligned.slot {layout : StructLayout} (h : layout.Aligned)
    {activation : Activation} (struct : layout.align.toNat ∣ activation.structAddress.toNat)
    {place : SlotPlace} (member : place ∈ layout.slots)
    (fits : activation.structAddress.toNat + place.stop < 2 ^ 64) :
    place.align.toNat ∣ (slotAddress activation place).toNat := by
  unfold slotAddress
  rw [toNat_slotAddress fits]
  exact Nat.dvd_add (Nat.dvd_trans (h.struct place member) struct) (h.offset place member)

namespace Session

/-- The plan of a call is about its struct. -/
theorem struct_of_planned {ω : Type} {ctx : Context ω} {s : Session ω} {index : Nat}
    {activation : Activation} (live : s.activations[index]? = some (some activation))
    {options : RunOptions} {p : Plan}
    (planned : ((step ctx (.plan index options)).run s).1 = .plan p) :
    p.structAddress = activation.structAddress := by
  rw [run_step_plan live] at planned
  cases plans : s.caller.plan activation options with
  | error e =>
      rw [plans] at planned
      cases planned
  | ok own =>
      rw [plans] at planned
      cases planned
      exact Caller.struct_of_plan plans

/-- Where the struct of a call lies, and what that means for the code that is run on it. The struct
of its plan is the struct that was allocated, which is aligned, or the one that was given, which is
aligned if the address given is. All that its wrapper loads and stores is mapped as long as the
struct is; if the struct is aligned, so are its slots and every load and store. -/
theorem plan_aligned_iff {target : Target} (pointer : ∃ k, target.pointerSize.toNat = 2 ^ k)
    {allocator : Debuggee.Allocator} (fresh : Debuggee.Fresh allocator)
    (aligning : Debuggee.Aligning allocator) {choice : Debuggee.CompilerChoice}
    (compiles : choice.compiles) {caller : Caller} (made : caller.Made) (base : UInt64)
    (faults : Faults) (script : List Stop) (actions : List Action) (index : Nat)
    (activation : Activation) :
    let ctx := Debuggee.context target allocator choice
    let start := Session.ofCaller caller base faults script
    let s := after ctx start actions
    s.activations[index]? = some (some activation) →
    ∃ r place, s.caller.ready = .ok r ∧ placed? ctx index start actions = some place ∧
      (∀ options p, ((step ctx (.plan index options)).run s).1 = .plan p →
        p.structAddress = activation.structAddress) ∧
      (∀ address, place = .given address → activation.structAddress = address) ∧
      (r.layout.align.toNat ∣ activation.structAddress.toNat ↔
        ∀ address, place = .given address → r.layout.align.toNat ∣ address.toNat) ∧
      (r.layout.align.toNat ∣ activation.structAddress.toNat → ∀ slot ∈ r.layout.slots,
        slot.align.toNat ∣ (slotAddress activation slot).toNat) ∧
      ∀ code, r.compiled.code = some code → ∀ callees contents,
        ∀ access ∈ code.accesses callees activation.structAddress contents,
          (∀ m : Memory, (m.region? activation.structAddress r.layout.size.toNat).isSome →
            (m.region? access.address access.ty.bytes).isSome) ∧
          (r.layout.align.toNat ∣ activation.structAddress.toNat →
            access.ty.bytes ∣ access.address.toNat) := by
  intro ctx start s live
  have manages := Debuggee.manages fresh target choice
  have initial := @Grounded.of_new _ ctx Debuggee.memory start made.new rfl
    (Memory.bounded_ofBase base)
  obtain ⟨r, ready, grounded⟩ := (initial.after manages actions).calls index activation live
  obtain ⟨place, placed, seated⟩ := lies_after manages (Debuggee.aligns aligning target choice)
    initial rfl index actions activation r live ready
  have source := @fromSource_after target allocator fresh choice compiles caller made base faults
    script actions r ready
  have aligned := aligned_of_accepted pointer source.accepted
  rw [← source.layout] at aligned
  have positive : 0 < r.layout.align.toNat := by
    obtain ⟨k, power⟩ := aligned.power
    rw [power]
    exact Nat.two_pow_pos k
  have fits := Nat.lt_of_le_of_lt grounded.inside (UInt64.toNat_lt _)
  have fits_slot {slot : SlotPlace} (member : slot ∈ r.layout.slots) :
      activation.structAddress.toNat + slot.stop < 2 ^ 64 :=
    Nat.lt_of_le_of_lt (Nat.add_le_add_left (source.stop_le member) _) fits
  refine ⟨r, place, ready, placed, fun options p => struct_of_planned live,
    fun address => seated.eq_of_given, seated.aligned_iff positive,
    fun struct slot member => aligned.slot struct member (fits_slot member), ?_⟩
  intro code loaded callees contents access made
  obtain ⟨slot, member, address, size, align⟩ :=
    source.accesses loaded fits callees contents access made
  refine ⟨fun m mapped => ?_, fun struct => ?_⟩
  · have stop := source.stop_le member
    unfold SlotPlace.stop at stop
    exact Memory.mapped_within mapped (by omega) (by omega)
  · rw [align, address, ← toNat_slotAddress (fits_slot member)]
    exact aligned.slot struct member (fits_slot member)

/-- The host allocates the struct at its first address. -/
theorem prepares_widening :
    let ctx := Debuggee.host (.native {})
    let start := Session.ofCaller wideningCaller Debuggee.hostBase {} []
    let s := after ctx start [.compile, .prepare .fresh]
    s.activations[0]? = some (some { structAddress := 0x7f0000000000, ownsStruct := true }) ∧
      placed? ctx 0 start [.compile, .prepare .fresh] = some .fresh := by
  have made : wideningCaller.Made := .ofValues "f" _ _
  have compiled := @run_compile_lowered _ made compilable_widening wideningCode rfl {}
    Debuggee.hostBase {} []
  dsimp only
  rw [placed?, after, noted, compiled]
  decide +kernel

/-- A struct that the host allocates is aligned, and so is all that the code of its wrapper
moves. -/
theorem plan_aligned_widening :
    let ctx := Debuggee.host (.native {})
    let start := Session.ofCaller wideningCaller Debuggee.hostBase {} []
    let s := after ctx start [.compile, .prepare .fresh]
    (∃ k, Target.host.pointerSize.toNat = 2 ^ k) ∧ Debuggee.Fresh Debuggee.hostAllocator ∧
      Debuggee.Aligning Debuggee.hostAllocator ∧ wideningCaller.Made ∧
      ∃ r activation, s.activations[0]? = some (some activation) ∧ s.caller.ready = .ok r ∧
        r.layout.align.toNat ∣ activation.structAddress.toNat ∧
        ∀ code, r.compiled.code = some code → ∀ callees contents,
          ∀ access ∈ code.accesses callees activation.structAddress contents,
            access.ty.bytes ∣ access.address.toNat := by
  have made : wideningCaller.Made := .ofValues "f" _ _
  have compiles : (Debuggee.CompilerChoice.native {}).compiles := rfl
  have prepares := prepares_widening
  dsimp only at prepares ⊢
  obtain ⟨live, asked⟩ := prepares
  obtain ⟨r, place, ready, placed, -, -, aligned, -, accesses⟩ :=
    plan_aligned_iff ⟨3, rfl⟩ Debuggee.fresh_host Debuggee.aligning_host compiles
      made Debuggee.hostBase {} [] [.compile, .prepare .fresh] 0 _ live
  cases placed.symm.trans asked
  have struct := aligned.mpr nofun
  refine ⟨⟨3, rfl⟩, Debuggee.fresh_host, Debuggee.aligning_host, made, r, _, live, ready, struct,
    fun code loaded callees contents access made => ?_⟩
  exact (accesses code loaded callees contents access made).2 struct

/-! ## A struct inside of other memory -/

/-- Prepares a struct one byte into a buffer and writes the argument. -/
def shifted : List Action :=
  [.allocateMemory 32 8, .prepare (.given 0x10000001), .write 0 [.int .i32 (-1)]]

theorem plans_shifted :
    let ctx := Debuggee.sparse ⟨8, .little⟩ .layoutOnly
    let s := after ctx (.ofCaller wideningCaller Debuggee.sparseBase {} []) (.compile :: shifted)
    s.caller.ready?.map (fun r => r.layout.align.toNat) = some 8 ∧
      ((step ctx (.plan 0 {})).run s).1.plan?.map Plan.structAddress = some 0x10000001 := by
  have made : wideningCaller.Made := .ofValues "f" _ _
  have compiled := @run_compile_layoutOnly _ (Debuggee.sparse ⟨8, .little⟩ .layoutOnly)
    (.ofCaller wideningCaller Debuggee.sparseBase {} []) made compilable_widening
    (Debuggee.compile_layoutOnly ..)
  dsimp only
  rw [after, compiled]
  decide +kernel

/-- So a plan may run a wrapper on a struct that is not aligned as its layout asks. -/
theorem plan_misaligned :
    ¬ ∀ (caller : Caller) (actions : List Action) (index : Nat) (options : RunOptions) (r : Ready)
        (p : Plan), caller.Made →
      let ctx := Debuggee.sparse ⟨8, .little⟩ .layoutOnly
      let s := after ctx (.ofCaller caller Debuggee.sparseBase {} []) actions
      s.caller.ready = .ok r → ((step ctx (.plan index options)).run s).1 = .plan p →
        r.layout.align.toNat ∣ p.structAddress.toNat := by
  intro aligned
  obtain ⟨known, planned⟩ := plans_shifted
  obtain ⟨r, ready, align⟩ := Option.map_eq_some_iff.mp known
  obtain ⟨p, given, address⟩ := Option.map_eq_some_iff.mp planned
  have struct := aligned wideningCaller (.compile :: shifted) 0 {} r p (.ofValues "f" _ _)
    (ready?_eq_some.mp ready) (Outcome.plan?_eq_some.mp given)
  rw [align, address] at struct
  exact absurd struct (by decide)

end Session

end CallThunk
