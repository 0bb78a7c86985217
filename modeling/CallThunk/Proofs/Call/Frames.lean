import CallThunk.Proofs.Call.Endings
import CallThunk.Proofs.Call.Images
import CallThunk.Proofs.Process.Debuggee

/-!
# What operations leave alone

Freeing and allocating change no byte that is in use. Writing arguments changes bytes inside the
struct of its activation and nowhere else, also when it fails on the way. Where no code was
compiled, running a plan changes nothing in memory.
-/

namespace CallThunk

open Caller (PrepareEnds InsertEnds CallEnds CallWithEnds WriteEnds RunEnds FetchEnds CompileEnds
  ArgumentImage slotAddress)

/-! ## Memory -/

namespace Memory

/-- Memory that has grown and holds what it held, except perhaps inside a struct. -/
structure Spares (m : Memory) (base : UInt64) (stop : Nat) (m' : Memory) : Prop where
  bounded : m'.Bounded
  next : m.next.toNat ≤ m'.next.toNat
  contents : ∀ x : UInt64, x.toNat < m.next.toNat →
    x.toNat < base.toNat ∨ base.toNat + stop ≤ x.toNat → m'.contents x = m.contents x

/-- Memory that has grown and holds what it held. -/
def Leaves (m m' : Memory) : Prop := m.Bounded → m.Spares 0 0 m'

variable {m m₀ m₁ m₂ m' : Memory} {base : UInt64} {stop : Nat}

theorem Spares.refl (bounded : m.Bounded) : m.Spares base stop m :=
  ⟨bounded, Nat.le_refl _, fun _ _ _ => rfl⟩

theorem Spares.trans (h : m₀.Spares base stop m₁) (h' : m₁.Spares base stop m₂) :
    m₀.Spares base stop m₂ where
  bounded := h'.bounded
  next := Nat.le_trans h.next h'.next
  contents x below outside :=
    (h'.contents x (Nat.lt_of_lt_of_le below h.next) outside).trans (h.contents x below outside)

theorem Leaves.refl (m : Memory) : m.Leaves m := fun bounded => Spares.refl bounded

theorem Leaves.trans (h : m₀.Leaves m₁) (h' : m₁.Leaves m₂) : m₀.Leaves m₂ :=
  fun bounded => (h bounded).trans (h' (h bounded).bounded)

theorem Leaves.of_eq (same : m' = m) : m.Leaves m' := by
  rw [same]
  exact .refl m

theorem Leaves.contents (h : m.Leaves m') (bounded : m.Bounded) {x : UInt64}
    (below : x.toNat < m.next.toNat) : m'.contents x = m.contents x :=
  (h bounded).contents x below (.inr (Nat.zero_le _))

theorem Leaves.spares (h : m.Leaves m') (bounded : m.Bounded) : m.Spares base stop m' where
  bounded := (h bounded).bounded
  next := (h bounded).next
  contents _ below _ := h.contents bounded below

/-- What changes inside a struct behind the memory in use changes nothing in use. -/
theorem Leaves.behind (h : m₀.Leaves m)
    (inside : m.Bounded → m₀.next.toNat ≤ base.toNat ∧ m.Spares base stop m') : m₀.Leaves m' := by
  intro bounded
  have first := h bounded
  obtain ⟨behind, second⟩ := inside first.bounded
  refine ⟨second.bounded, Nat.le_trans first.next second.next, fun x below outside => ?_⟩
  rw [second.contents x (Nat.lt_of_lt_of_le below first.next) (.inl (by omega))]
  exact first.contents x below outside

theorem Allocates.leaves {size : Nat} {result : Except MemoryFault UInt64}
    (h : m.Allocates size result m') : m.Leaves m' := by
  cases h with
  | failed => exact .refl m
  | given _ allocated =>
      intro bounded
      have above := allocated.above
      have below := allocated.below
      exact ⟨allocated.bounded bounded, by omega, fun x below _ => allocated.contents x below⟩

theorem Frees.leaves {a : UInt64} {result : Except MemoryFault PUnit}
    (h : m.Frees a result m') : m.Leaves m' := by
  cases h with
  | failed => exact .refl m
  | freed freed =>
      intro bounded
      obtain ⟨bounded, next, contents⟩ := bounded_of_free? freed bounded
      exact ⟨bounded, Nat.le_of_eq (by rw [next]), fun x _ _ => by rw [contents]⟩

/-- A store inside a struct leaves all other bytes. -/
theorem Stores.spares {a : UInt64} {bytes : List UInt8} {result : Except MemoryFault PUnit}
    (h : m.Stores a bytes result m') (bounded : m.Bounded) (first : base.toNat ≤ a.toNat)
    (last : a.toNat + bytes.length ≤ base.toNat + stop) : m.Spares base stop m' := by
  cases h with
  | unmapped => exact .refl bounded
  | stored stored =>
      obtain ⟨accessible, rfl⟩ := write?_eq_some.mp stored
      have below := bounded.below accessible
      have bound := m.next.toNat_lt
      exact ⟨bounded, Nat.le_refl _, fun x _ outside =>
        Contents.write_of_outside (by omega) (by omega)⟩

end Memory

/-! ## Processes that compile no code -/

/-- A process whose compiler checks wrappers and makes no code, so that there is nothing to run. -/
structure Context.LaysOut {ω : Type} (ctx : Context ω) (memory : ω → Memory) : Prop where
  compile : ∀ (source : WrapperSource) (w : ω), ((ctx.compile source).run w).1 =
    Compiler.layoutOnly .selfContained ctx.target source.text
  run : ∀ (plan : Plan) (w : ω), plan.wrapperEntry = 0 →
    memory ((ctx.run plan).run w).2 = memory w

theorem Debuggee.laysOut (target : Target) (allocator : Allocator) :
    (context target allocator .layoutOnly).LaysOut memory where
  compile _ _ := rfl
  run plan d absent := by
    show ((Debuggee.run plan).run d).2.memory = d.memory
    rcases run_run plan d with ⟨stop, script, ran⟩ | ran
    · rw [ran]
    · rw [ran]
      show (runWrapper plan _).2.memory = _
      unfold runWrapper
      rw [if_pos absent]

theorem Context.LaysOut.watched {ω : Type} {ctx : Context ω} {memory : ω → Memory}
    (h : ctx.LaysOut memory) : ctx.watched.LaysOut fun w => memory w.process where
  compile source w := h.compile source w.process
  run plan w absent := h.run plan w.process absent

/-- The record of a caller's struct, as it is laid out for a target. -/
def Caller.record (caller : Caller) (target : Target) : PlacedRecord :=
  structRecord target.pointerSize caller.source.structName caller.model.slots

/-- What is known of a caller that was compiled without code, once it is ready. -/
structure Caller.Bare (caller : Caller) (target : Target) (r : Ready) : Prop where
  targeted : r.target = target
  absent : r.compiled.entry = 0
  laid : LaidOut target.pointerSize (caller.record target) caller.model
  layout : r.layout = layoutOf (caller.record target) caller.model

theorem Caller.Bare.own {caller : Caller} {target : Target} {r : Ready}
    (h : caller.Bare target r) :
    LaidOut r.target.pointerSize (caller.record target) caller.model := by
  rw [h.targeted]
  exact h.laid

/-! ## Operations on an activation -/

/-- An operation on an activation changes bytes inside its struct only. -/
structure Confined {ω : Type} (memory : ω → Memory) (stop : Nat) (s s' : Activation × ω) :
    Prop where
  struct : s'.1.structAddress = s.1.structAddress
  spares : (memory s.2).Bounded →
    s.1.structAddress.toNat + stop ≤ (memory s.2).next.toNat →
      (memory s.2).Spares s.1.structAddress stop (memory s'.2)

/-- An operation on an activation that leaves memory and what is known of the struct as they are. -/
structure Rests {ω : Type} (memory : ω → Memory) (s s' : Activation × ω) : Prop where
  memory : memory s'.2 = memory s.2
  struct : s'.1.structAddress = s.1.structAddress
  owns : s'.1.ownsStruct = s.1.ownsStruct
  sides : s'.1.sides = s.1.sides
  arguments : s'.1.arguments = s.1.arguments
  written : s'.1.stage ≠ .prepared → s.1.stage ≠ .prepared

section
variable {ω : Type} {ctx : Context ω} {memory : ω → Memory} {stop : Nat} {s t u : Activation × ω}

theorem Confined.refl (s : Activation × ω) : Confined memory stop s s :=
  ⟨rfl, fun bounded _ => .refl bounded⟩

theorem Confined.trans (s t u : Activation × ω) (h : Confined memory stop s t)
    (h' : Confined memory stop t u) : Confined memory stop s u where
  struct := h'.struct.trans h.struct
  spares bounded inside := by
    have first := h.spares bounded inside
    have second := h'.spares first.bounded (by rw [h.struct]; exact Nat.le_trans inside first.next)
    rw [h.struct] at second
    exact first.trans second

/-- A change of the activation alone. -/
theorem Confined.of_eq (struct : t.1.structAddress = s.1.structAddress) (world : t.2 = s.2) :
    Confined memory stop s t := by
  refine ⟨struct, fun bounded _ => ?_⟩
  rw [world]
  exact .refl bounded

variable (manages : ctx.Manages memory)
include manages

theorem leaves_freeEach (addresses : List UInt64) :
    Keeps (fun w w' => (memory w).Leaves (memory w')) (Activation.freeEach ctx addresses) :=
  keeps_freeEach (fun _ => .refl _) (fun _ _ _ => .trans)
    fun a _ w => (manages.free a w).leaves

/-- Only what is freed is no longer live. -/
theorem live_of_freeEach {addresses : List UInt64} :
    Keeps (fun w w' => ∀ region ∈ (memory w).live, region.start ∉ addresses →
      region ∈ (memory w').live) (Activation.freeEach ctx addresses) := by
  refine keeps_freeEach (fun _ _ member _ => member) (fun a b c first second region member other =>
    second region (first region member other) other) fun address known w region member other => ?_
  refine (manages.free address w).live member fun same => other ?_
  rw [same]
  exact known

theorem confined_freeSides : Keeps (Confined memory stop) (Caller.freeSides ctx).run := by
  intro s
  rw [Caller.run_freeSides]
  exact ⟨rfl, fun bounded _ => (leaves_freeEach manages s.1.sides s.2).spares bounded⟩

theorem confined_writeSlot {place : SlotPlace} {bytes : List UInt8}
    (fills : bytes.length = place.size.toNat ∧ place.stop ≤ stop) :
    Keeps (Confined memory stop) (Caller.writeSlot ctx place bytes).run := by
  intro s
  rcases ran : (ctx.write (slotAddress s.1 place) bytes).run.run s.2 with ⟨result, w'⟩
  unfold Caller.writeSlot
  rw [run_exceptBind_ok (Caller.run_current s)]
  dsimp only
  rw [Caller.run_service_of ran]
  refine ⟨rfl, fun bounded inside => ?_⟩
  have bound := (memory s.2).next.toNat_lt
  obtain ⟨size, within⟩ := fills
  have start : (slotAddress s.1 place).toNat = s.1.structAddress.toNat + place.offset.toNat :=
    toNat_slotAddress (by omega)
  have last : place.stop = place.offset.toNat + bytes.length := by
    rw [size]
    rfl
  exact (manages.stores ran).spares bounded (by omega) (by omega)

/-- A side buffer is filled behind all memory in use. -/
theorem confined_newSide (bytes : List UInt8) (align : UInt32) :
    Keeps (Confined memory stop) (Caller.newSide ctx bytes align).run := by
  intro s
  rcases ran : (ctx.allocate (UInt64.ofNat bytes.length) align.toUInt64).run.run s.2 with
    ⟨e | address, w₁⟩
  · rw [Caller.run_newSide_error ran]
    exact ⟨rfl, fun bounded _ => (manages.allocates ran).leaves.spares bounded⟩
  · rw [Caller.run_newSide_ok ran]
    obtain ⟨n, -, region⟩ := manages.allocated ran
    have filled : (memory s.2).Leaves (memory ((ctx.write address bytes).run.run w₁).2) :=
      (manages.allocates ran).leaves.behind fun bounded =>
        ⟨region.above, (manages.stores rfl).spares bounded (Nat.le_refl _) (Nat.le_refl _)⟩
    exact ⟨rfl, fun bounded _ => filled.spares bounded⟩

omit manages in
theorem length_of_fills {target : Target} {image : ArgumentImage} {bytes : List UInt8}
    (h : image.Fills target bytes) : bytes.length = image.length target := by
  cases image with
  | word => exact congrArg List.length h
  | side =>
      obtain ⟨address, encoded⟩ := h
      exact length_of_addressImage encoded

variable {caller : Caller} {target : Target} {r : Ready}

/-- A write is confined to its struct, however it ends. -/
theorem confined_write {args : List Value} {result : Except CallError PUnit}
    (ready : caller.ready = .ok r) (bare : caller.Bare target r)
    (h : WriteEnds ctx caller args s result t) :
    Confined memory (caller.record target).size.toNat s t := by
  have transfer {function : List UInt8} {arguments : List (SlotPlace × ArgumentImage)}
      {r' : Ready} (valid : caller.validate args = .ok (r', function, arguments)) :
      Keeps (Confined memory (caller.record target).size.toNat)
        (Caller.transfer ctx r' function arguments).run := by
    obtain ⟨ready', images⟩ := Caller.validate_eq_ok.mp valid
    cases ready.symm.trans ready'
    -- every image has the size of its slot, and every slot lies in the struct
    obtain ⟨-, -, encoded⟩ := images_eq_ok.mp images
    obtain ⟨sizes, -, -⟩ := images_of_laidOut bare.own bare.layout images
    obtain ⟨pointer, within⟩ := function_of_laidOut bare.own bare.layout
    refine Caller.keeps_transfer Confined.refl Confined.trans (confined_freeSides manages)
      (fun place bytes fills => confined_writeSlot manages fills)
      (confined_newSide manages) ⟨?_, within⟩ fun p hp bytes fills => ?_
    · rw [length_of_addressImage encoded, pointer]
    · rw [length_of_fills fills]
      exact sizes p hp
  have opened : Confined memory (caller.record target).size.toNat s (Caller.givenUp s) :=
    .of_eq rfl rfl
  cases h with
  | refused => exact .refl s
  | broken valid failed => exact .trans _ _ _ opened ((transfer valid).of_run failed)
  | done valid transferred =>
      have moved := (transfer valid).of_run transferred
      exact .trans _ _ _ opened (.trans _ _ _ moved (.of_eq rfl rfl))

theorem rests_fetch {result : Except CallError Value} (h : FetchEnds ctx caller s result t) :
    Rests memory s t := by
  cases h with
  | unready => exact ⟨rfl, rfl, rfl, rfl, rfl, id⟩
  | early => exact ⟨rfl, rfl, rfl, rfl, rfl, id⟩
  | unreadable ready slot failed => exact ⟨(manages.reads failed).2, rfl, rfl, rfl, rfl, id⟩
  | undecodable ready held read => exact ⟨(manages.reads read).2, rfl, rfl, rfl, rfl, id⟩
  | decoded completed ready held typed read =>
      exact ⟨(manages.reads read).2, rfl, rfl, rfl, rfl, id⟩
  | void => exact ⟨rfl, rfl, rfl, rfl, rfl, id⟩

/-- Reading back changes nothing. -/
theorem memory_of_read {activation : Activation} {w w' : ω} {result : Except CallError (List Value)}
    (ran : (caller.read ctx activation).run.run w = (result, w')) : memory w' = memory w :=
  (keeps_read (R := fun w w' => memory w' = memory w) (fun _ => rfl)
    (fun _ _ _ first second => second.trans first) (fun a n w => (manages.read a n w).2) caller
      activation).of_run ran

variable (laysOut : ctx.LaysOut memory)
include laysOut

omit manages in
/-- A plan without code to run changes nothing. -/
theorem memory_of_planned {activation : Activation} {options : RunOptions} {p : Plan} {stop : Stop}
    {w w' : ω} (bare : ∀ r, caller.ready = .ok r → r.compiled.entry = 0)
    (planned : caller.plan activation options = .ok p)
    (ran : (ctx.run p).run w = (stop, w')) :
    memory w' = memory w ∧ activation.stage ≠ .prepared := by
  unfold Caller.plan at planned
  obtain ⟨r, ready, planned⟩ := bind_eq_ok.mp planned
  split at planned
  · cases planned
  next written =>
    have absent : p.wrapperEntry = 0 := by
      cases planned
      exact bare r ready
    have same := laysOut.run p w absent
    rw [ran] at same
    exact ⟨same, written⟩

/-- A run without code changes the stage alone. -/
theorem rests_run {options : RunOptions} {result : Except CallError Value}
    (bare : ∀ r, caller.ready = .ok r → r.compiled.entry = 0)
    (h : RunEnds ctx caller options s result t) : Rests memory s t := by
  cases h with
  | refused => exact ⟨rfl, rfl, rfl, rfl, rfl, id⟩
  | interrupted planned stopped =>
      obtain ⟨same, written⟩ := memory_of_planned laysOut bare planned stopped
      exact ⟨same, rfl, rfl, rfl, rfl, fun _ => written⟩
  | completed planned stopped completed fetched =>
      obtain ⟨same, written⟩ := memory_of_planned laysOut bare planned stopped
      have rests := rests_fetch manages fetched
      exact ⟨rests.memory.trans same, rests.struct, rests.owns, rests.sides, rests.arguments,
        fun _ => written⟩

end

/-! ## Compiling -/

/-- A caller that never has code: it is new, or it was compiled without. -/
structure Caller.Codeless (caller : Caller) (target : Target) : Prop where
  source : caller.source = .ofModel caller.name caller.model
  plain : caller.model.Plain
  bare : ∀ r, caller.ready = .ok r → caller.Bare target r

section
variable {ω : Type} {ctx : Context ω} {memory : ω → Memory} {caller next : Caller} {w w' : ω}

/-- Compiling lays the struct out and gives no code. -/
theorem Caller.Codeless.compiled (h : caller.Codeless ctx.target) (laysOut : ctx.LaysOut memory)
    (ends : CompileEnds ctx caller w next w') : next.Codeless ctx.target := by
  cases ends with
  | kept => exact h
  | @compiled outcome w' new run =>
      refine ⟨h.source, h.plain, fun r ready => ?_⟩
      -- what was settled is what the checker gave for the source, which tells the layout
      have settled := ready_eq_ok.mp ready
      obtain ⟨given, -, targeted, recovered⟩ := Caller.settle_eq_ready.mp settled
      have made := laysOut.compile caller.source w
      rw [run] at made
      dsimp only at made
      rw [made] at given
      obtain ⟨unit, reports, program, problems, parsed, checked, wrapper⟩ :=
        layoutOnly_eq_some.mp given
      rw [wrapper, h.source] at recovered
      rw [h.source] at parsed
      have settles : Settles caller.name caller.model ctx.target.pointerSize program r.layout :=
        ⟨⟨unit, reports, problems, parsed, checked⟩, recovered⟩
      obtain ⟨accepted, -, layout⟩ := settles.accepted h.plain
      rw [← h.source] at layout
      exact ⟨targeted, by rw [wrapper], laidOut_structRecord accepted.fits, layout⟩

theorem memory_of_compiles (manages : ctx.Manages memory)
    (ends : CompileEnds ctx caller w next w') : memory w' = memory w := by
  cases ends with
  | kept => rfl
  | compiled new run =>
      have same := manages.compile caller.source w
      rwa [run] at same

end

/-! ## Whole calls -/

section
variable {ω : Type} {ctx : Context ω} {memory : ω → Memory} {caller : Caller} {target : Target}
  {activation : Activation} {w w' : ω} (manages : ctx.Manages memory)
include manages

theorem leaves_drop (activation : Activation) :
    Keeps (fun w w' => (memory w).Leaves (memory w')) (activation.drop ctx) :=
  keeps_drop (fun _ => .refl _) (fun _ _ _ => .trans) (fun a w => (manages.free a w).leaves)
    activation

theorem leaves_release (activation : Activation) :
    Keeps (fun w w' => (memory w).Leaves (memory w')) (activation.release ctx).run :=
  keeps_release (fun _ => .refl _) (fun _ _ _ => .trans) (fun a w => (manages.free a w).leaves)
    activation

theorem leaves_prepare {result : Except CallError Activation}
    (h : PrepareEnds ctx caller w .fresh result w') : (memory w).Leaves (memory w') := by
  cases h with
  | unready => exact .refl _
  | unallocated ready failed => exact (manages.allocates failed).leaves
  | allocated ready allocated => exact (manages.allocates allocated).leaves

/-- A struct that is prepared lies behind all memory in use. -/
theorem allocated_of_prepare (h : PrepareEnds ctx caller w .fresh (.ok activation) w') :
    ∃ r n, caller.ready = .ok r ∧ r.layout.size.toNat ≤ n ∧
      (memory w).Allocated n activation.structAddress (memory w') ∧
        activation.ownsStruct = true ∧ activation.stage = .prepared := by
  cases h with
  | @allocated r address w' ready allocated =>
      obtain ⟨n, size, region⟩ := manages.allocated allocated
      rw [UInt32.toNat_toUInt64] at size
      exact ⟨r, n, ready, size, region, rfl, rfl⟩

/-- What is written to a new struct leaves all memory before it. -/
theorem leaves_of_confined {t : Activation × ω}
    (bare : ∀ r, caller.ready = .ok r → caller.Bare target r)
    (prepared : PrepareEnds ctx caller w .fresh (.ok activation) w')
    (confined : Confined memory (caller.record target).size.toNat (activation, w') t) :
    (memory w).Leaves (memory t.2) := by
  obtain ⟨r, n, ready, size, region, -, -⟩ := allocated_of_prepare manages prepared
  rw [(bare r ready).layout] at size
  have below := region.below
  have inside : activation.structAddress.toNat + (caller.record target).size.toNat ≤
      (memory w').next.toNat := Nat.le_trans (Nat.add_le_add_left size _) (Nat.le_of_lt below)
  exact (leaves_prepare manages prepared).behind fun bounded =>
    ⟨region.above, confined.spares bounded inside⟩

theorem leaves_insert {result : Except CallError Activation}
    (bare : ∀ r, caller.ready = .ok r → caller.Bare target r)
    (h : InsertEnds ctx caller .fresh w result w') : (memory w).Leaves (memory w') := by
  cases h with
  | unprepared failed => exact leaves_prepare manages failed
  | unwritten prepared failed =>
      obtain ⟨r, n, ready, -⟩ := allocated_of_prepare manages prepared
      have written := confined_write manages ready (bare r ready) failed
      exact (leaves_of_confined manages bare prepared written).trans (leaves_drop manages _ _)
  | written prepared written =>
      obtain ⟨r, n, ready, -⟩ := allocated_of_prepare manages prepared
      exact leaves_of_confined manages bare prepared
        (confined_write manages ready (bare r ready) written)

theorem leaves_call {args : List Value} {options : RunOptions} {result : Except CallError Value}
    (laysOut : ctx.LaysOut memory) (bare : ∀ r, caller.ready = .ok r → caller.Bare target r)
    (h : CallEnds ctx caller args .fresh options w result w') :
    (memory w).Leaves (memory w') := by
  have written {activation : Activation} {w₁ : ω} {result : Except CallError PUnit}
      {t : Activation × ω} (prepared : PrepareEnds ctx caller w .fresh (.ok activation) w₁)
      (ends : WriteEnds ctx caller args (activation, w₁) result t) :
      (memory w).Leaves (memory t.2) := by
    obtain ⟨r, n, ready, -⟩ := allocated_of_prepare manages prepared
    exact leaves_of_confined manages bare prepared
      (confined_write manages ready (bare r ready) ends)
  have ran {s t : Activation × ω} {result : Except CallError Value}
      (ends : RunEnds ctx caller options s result t) : (memory s.2).Leaves (memory t.2) :=
    .of_eq (rests_run manages laysOut (fun r ready => (bare r ready).absent) ends).memory
  cases h with
  | unprepared failed => exact leaves_prepare manages failed
  | unwritten prepared failed => exact (written prepared failed).trans (leaves_drop manages _ _)
  | failed prepared done failed =>
      exact ((written prepared done).trans (ran failed)).trans (leaves_drop manages _ _)
  | returned prepared done returned =>
      exact ((written prepared done).trans (ran returned)).trans (leaves_release manages _ _)

theorem leaves_callWith {args : List Value} {options : RunOptions}
    {result : Except CallError Value} {compiled : Caller} (laysOut : ctx.LaysOut memory)
    (codeless : caller.Codeless ctx.target)
    (h : CallWithEnds ctx caller args .fresh options w result compiled w') :
    (memory w).Leaves (memory w') := by
  cases h with
  | uncompiled compiles => exact .of_eq (memory_of_compiles manages compiles)
  | called compiles called =>
      have compiled := codeless.compiled laysOut compiles
      exact (Memory.Leaves.of_eq (memory_of_compiles manages compiles)).trans
        (leaves_call manages laysOut compiled.bare called)

end

end CallThunk
