import CallThunk.Proofs.Call.Lifecycle
import CallThunk.Proofs.Call.Protocol
import CallThunk.Proofs.Call.Writing
import CallThunk.Proofs.Wrapper.Recovering

/-!
# Structs of live calls

What holds of every live call, in every process that manages its memory and with any compiler: its
caller was compiled without errors, its struct lies in memory that was handed out, its side buffers
lie behind the struct, and once its arguments were written the target's pointers have a width. The
struct is mapped in one piece or not at all, because memory is not handed out twice.
-/

namespace CallThunk

open Caller (CompileEnds PrepareEnds InsertEnds CallWithEnds WriteEnds RunEnds FetchEnds)

/-! ## Compiled callers -/

/-- How a caller came to be ready: the compiler of the context gave its wrapper without an error,
and the layout was recovered from the records of the wrapper. -/
structure Caller.Compiled {ω : Type} (ctx : Context ω) (caller : Caller) (r : Ready) : Prop where
  compiled : ∃ w, ((ctx.compile caller.source).run w).1.1 = some r.compiled
  targeted : r.target = ctx.target
  recovered : StructLayout.recover r.compiled.records caller.source.structName caller.model
    ctx.target.pointerSize = .ok r.layout

/-- A caller that is ready only if it was compiled. -/
def Caller.Proper {ω : Type} (ctx : Context ω) (caller : Caller) : Prop :=
  ∀ r, caller.ready = .ok r → caller.Compiled ctx r

section
variable {ω : Type} {ctx : Context ω} {caller : Caller}

theorem Caller.Proper.of_new (new : caller.status = .new) : caller.Proper ctx := by
  intro r ready
  rw [ready_eq_ok, new] at ready
  cases ready

theorem Caller.Proper.compiled (h : caller.Proper ctx) {w w' : ω} {next : Caller}
    (ends : CompileEnds ctx caller w next w') : next.Proper ctx := by
  cases ends with
  | kept => exact h
  | @compiled outcome w' new run =>
      intro r ready
      obtain ⟨given, -, targeted, recovered⟩ := Caller.settle_eq_ready.mp (ready_eq_ok.mp ready)
      exact ⟨⟨w, by rw [run]; exact given⟩, targeted, recovered⟩

/-- The layout of a compiled caller is the one that some record of its wrapper gives. -/
theorem Caller.Compiled.accommodates {r : Ready} (h : caller.Compiled ctx r) :
    ∃ record : PlacedRecord, record.Accommodates r.target.pointerSize caller.model ∧
      r.layout = layoutOf record caller.model := by
  obtain ⟨record, -, accommodates, layout⟩ := of_recover h.recovered
  rw [← h.targeted] at accommodates
  exact ⟨record, accommodates, layout⟩

end

/-! ## Operations on an activation -/

/-- An operation on an activation leaves its struct where it is and takes side buffers behind all
memory that was in use. -/
structure Advances {ω : Type} (memory : ω → Memory) (s t : Activation × ω) : Prop where
  struct : t.1.structAddress = s.1.structAddress
  next : (memory s.2).next.toNat ≤ (memory t.2).next.toNat
  sides : ∀ a ∈ t.1.sides, a ∈ s.1.sides ∨ (memory s.2).next.toNat ≤ a.toNat

section
variable {ω : Type} {ctx : Context ω} {memory : ω → Memory} {caller : Caller}
  {s t u : Activation × ω}

theorem Advances.refl (s : Activation × ω) : Advances memory s s :=
  ⟨rfl, Nat.le_refl _, fun _ => .inl⟩

theorem Advances.trans (s t u : Activation × ω) (h : Advances memory s t)
    (h' : Advances memory t u) : Advances memory s u where
  struct := h'.struct.trans h.struct
  next := Nat.le_trans h.next h'.next
  sides := by
    intro a member
    rcases h'.sides a member with old | new
    · exact h.sides a old
    · exact .inr (Nat.le_trans h.next new)

theorem advances_service {α : Type} {service : Service ω α}
    (keeps : Keeps (fun w w' => (memory w).next.toNat ≤ (memory w').next.toNat) service.run) :
    Keeps (Advances memory) (Caller.service service : Caller.OnActivation ω α).run :=
  fun (_, world) => ⟨rfl, keeps world, fun _ => .inl⟩

variable (manages : ctx.Manages memory)
include manages

theorem advances_freeSides : Keeps (Advances memory) (Caller.freeSides ctx).run := by
  intro s
  rw [Caller.run_freeSides]
  exact ⟨rfl, manages.respects_next.freeEach s.1.sides s.2, nofun⟩

theorem advances_writeSlot (place : SlotPlace) (bytes : List UInt8) :
    Keeps (Advances memory) (Caller.writeSlot ctx place bytes).run :=
  .exceptBind Advances.trans Advances.refl fun _ =>
    advances_service (manages.respects_next.write _ _)

theorem advances_newSide (bytes : List UInt8) (align : UInt32) :
    Keeps (Advances memory) (Caller.newSide ctx bytes align).run := by
  intro s
  have grows := manages.respects_next
  rcases ran : (ctx.allocate (UInt64.ofNat bytes.length) align.toUInt64).run.run s.2 with
    ⟨e | address, w₁⟩
  · rw [Caller.run_newSide_error ran]
    exact ⟨rfl, (grows.allocate _ _).of_run ran, fun _ => .inl⟩
  · rw [Caller.run_newSide_ok ran]
    obtain ⟨n, -, region⟩ := manages.allocated ran
    have next := (grows.allocate _ _).of_run ran
    refine ⟨rfl, Nat.le_trans next (grows.write address bytes w₁), fun a member => ?_⟩
    rcases List.mem_append.mp member with old | new
    · exact .inl old
    · rw [List.mem_singleton.mp new]
      exact .inr region.above

theorem advances_transfer (r : Ready) (function : List UInt8)
    (arguments : List (SlotPlace × Caller.ArgumentImage)) :
    Keeps (Advances memory) (Caller.transfer ctx r function arguments).run :=
  Caller.keeps_transfer (P := fun _ _ => True) Advances.refl Advances.trans
    (advances_freeSides manages) (fun place bytes _ => advances_writeSlot manages place bytes)
    (advances_newSide manages) trivial fun _ _ _ _ => trivial

/-- A write moves on, and arguments are there behind it only if they were before or addresses have
an image. -/
theorem advances_write {args : List Value} {result : Except CallError PUnit}
    (h : WriteEnds ctx caller args s result t) : Advances memory s t ∧
      (t.1.stage ≠ .prepared → s.1.stage ≠ .prepared ∨
        ∃ r, caller.ready = .ok r ∧ Target.isPointerWidth r.target.pointerSize) := by
  have given : Advances memory s (Caller.givenUp s) := ⟨rfl, Nat.le_refl _, fun _ => .inl⟩
  cases h with
  | refused => exact ⟨.refl s, .inl⟩
  | broken valid failed =>
      refine ⟨.trans _ _ _ given ((advances_transfer manages _ _ _).of_run failed),
        fun written => ?_⟩
      have stage := (Caller.keeps_sameStage_transfer _ _ _).of_run failed
      exact absurd stage written
  | @done r function arguments t valid transferred =>
      have moved := (advances_transfer manages _ _ _).of_run transferred
      refine ⟨.trans _ _ _ given ⟨moved.struct, moved.next, moved.sides⟩, fun _ => .inr ?_⟩
      obtain ⟨ready, images⟩ := Caller.validate_eq_ok.mp valid
      obtain ⟨-, -, encoded⟩ := images_eq_ok.mp images
      exact ⟨r, ready, (addressImage_eq_ok.mp encoded).1⟩

theorem advances_fetch {result : Except CallError Value} (h : FetchEnds ctx caller s result t) :
    Advances memory s t := by
  have grows := manages.respects_next
  cases h with
  | unready | early | void => exact ⟨rfl, Nat.le_refl _, fun _ => .inl⟩
  | unreadable ready slot failed => exact ⟨rfl, (grows.read _ _).of_run failed, fun _ => .inl⟩
  | undecodable ready held read => exact ⟨rfl, (grows.read _ _).of_run read, fun _ => .inl⟩
  | decoded completed ready held typed read =>
      exact ⟨rfl, (grows.read _ _).of_run read, fun _ => .inl⟩

omit manages in
/-- Only written calls are planned. -/
theorem written_of_plan {activation : Activation} {options : RunOptions} {p : Plan}
    (planned : caller.plan activation options = .ok p) : activation.stage ≠ .prepared := by
  intro prepared
  cases ready : caller.ready with
  | error e =>
      unfold Caller.plan at planned
      rw [ready] at planned
      cases planned
  | ok r => cases ((Caller.plan_of_ready ready activation options).1 prepared).symm.trans planned

theorem advances_run {options : RunOptions} {result : Except CallError Value}
    (h : RunEnds ctx caller options s result t) :
    Advances memory s t ∧ (t.1.stage ≠ .prepared → s.1.stage ≠ .prepared) := by
  have grows := manages.respects_next
  cases h with
  | refused => exact ⟨.refl s, id⟩
  | interrupted planned stopped =>
      exact ⟨⟨rfl, (grows.run _).of_run stopped, fun _ => .inl⟩, fun _ => written_of_plan planned⟩
  | @completed p stop w result t planned stopped completed fetched =>
      have ran : Advances memory s ({ s.1 with stage := .completed }, w) :=
        ⟨rfl, (grows.run _).of_run stopped, fun _ => .inl⟩
      exact ⟨.trans _ _ _ ran (advances_fetch manages fetched), fun _ => written_of_plan planned⟩

end

section
variable {ω : Type} {ctx : Context ω} {caller : Caller} {s t : Activation × ω}

/-- What all services keep to, a write keeps to, and it does not move the struct. -/
theorem Context.Respects.writeEnds {R : ω → ω → Prop} (h : ctx.Respects R) {args : List Value}
    {result : Except CallError PUnit} (ends : WriteEnds ctx caller args s result t) :
    Within R s t := by
  have transfers (r : Ready) (function : List UInt8)
      (arguments : List (SlotPlace × Caller.ArgumentImage)) :
      Keeps (Within R) (Caller.transfer ctx r function arguments).run :=
    Caller.keeps_transfer (P := fun _ _ => True) h.within_refl h.within_trans h.freeSides
      (fun place bytes _ => h.writeSlot place bytes) h.newSide trivial fun _ _ _ _ => trivial
  cases ends with
  | refused => exact h.within_refl s
  | broken valid failed =>
      have moved := (transfers _ _ _).of_run failed
      exact ⟨moved.struct, moved.owns, moved.world⟩
  | done valid transferred =>
      have moved := (transfers _ _ _).of_run transferred
      exact ⟨moved.struct, moved.owns, moved.world⟩

/-- No operation on a call moves its struct. -/
theorem Session.Changes.struct {memory : ω → Memory} (manages : ctx.Manages memory) {index : Nat}
    {action : Action} {given : Outcome}
    (changes : Session.Changes ctx caller index s action given t) :
    t.1.structAddress = s.1.structAddress := by
  cases changes with
  | write ends => exact (advances_write manages ends).1.struct
  | run ends => exact (advances_run manages ends).1.struct
  | fetch ends => exact (advances_fetch manages ends).struct

end

/-! ## Live calls -/

/-- What is known of a live call of a ready caller. -/
structure Activation.Grounded (m : Memory) (r : Ready) (activation : Activation) : Prop where
  /-- The struct lies in memory that was handed out. -/
  inside : activation.structAddress.toNat + r.layout.size.toNat ≤ m.next.toNat
  /-- Side buffers lie behind the struct. -/
  sides : ∀ a ∈ activation.sides,
    activation.structAddress.toNat + r.layout.size.toNat ≤ a.toNat
  /-- Addresses were written. -/
  width : activation.stage ≠ .prepared → Target.isPointerWidth r.target.pointerSize

namespace Activation.Grounded

variable {ω : Type} {ctx : Context ω} {memory : ω → Memory} {m m' : Memory} {r : Ready}
  {caller : Caller} {activation : Activation} {s t : Activation × ω} {w w' : ω}

theorem later (h : activation.Grounded m r) (next : m.next.toNat ≤ m'.next.toNat) :
    activation.Grounded m' r :=
  ⟨Nat.le_trans h.inside next, h.sides, h.width⟩

theorem advance (h : s.1.Grounded (memory s.2) r) (moved : Advances memory s t)
    (width : t.1.stage ≠ .prepared → Target.isPointerWidth r.target.pointerSize) :
    t.1.Grounded (memory t.2) r where
  inside := by
    rw [moved.struct]
    exact Nat.le_trans h.inside moved.next
  sides := by
    intro a member
    rw [moved.struct]
    rcases moved.sides a member with old | new
    · exact h.sides a old
    · exact Nat.le_trans h.inside new
  width := width

theorem write (h : s.1.Grounded (memory s.2) r) (manages : ctx.Manages memory)
    (ready : caller.ready = .ok r) {args : List Value} {result : Except CallError PUnit}
    (ends : WriteEnds ctx caller args s result t) : t.1.Grounded (memory t.2) r := by
  obtain ⟨moved, written⟩ := advances_write manages ends
  refine h.advance moved fun stage => ?_
  rcases written stage with before | ⟨r', ready', width⟩
  · exact h.width before
  · cases ready.symm.trans ready'
    exact width

/-- Every operation on a live call leaves it grounded. -/
theorem changes {index : Nat} {action : Action} {given : Outcome}
    (h : s.1.Grounded (memory s.2) r) (manages : ctx.Manages memory)
    (ready : caller.ready = .ok r)
    (changes : Session.Changes ctx caller index s action given t) :
    t.1.Grounded (memory t.2) r := by
  cases changes with
  | write ends => exact h.write manages ready ends
  | run ends =>
      obtain ⟨moved, written⟩ := advances_run manages ends
      exact h.advance moved fun stage => h.width (written stage)
  | fetch ends =>
      refine h.advance (advances_fetch manages ends) fun stage => h.width ?_
      rw [← ends.stage]
      exact stage

/-- A struct that is prepared is grounded, wherever it lies. -/
theorem of_prepare (manages : ctx.Manages memory) (bounded : (memory w).Bounded)
    {place : StructPlace} (h : PrepareEnds ctx caller w place (.ok activation) w') :
    ∃ r, caller.ready = .ok r ∧ activation.Grounded (memory w') r := by
  cases h with
  | @adopted r address bytes w' ready read =>
      obtain ⟨held, same⟩ := manages.fetched read
      have below := bounded.below (Memory.read?_eq_some.mp held).1
      rw [← same] at below
      exact ⟨r, ready, Nat.le_of_lt below, nofun, fun written => absurd rfl written⟩
  | @allocated r address w' ready allocated =>
      obtain ⟨n, size, region⟩ := manages.allocated allocated
      have below := region.below
      rw [UInt32.toNat_toUInt64] at size
      refine ⟨r, ready, ?_, nofun, fun written => absurd rfl written⟩
      dsimp only
      omega

theorem of_opens (manages : ctx.Manages memory) (bounded : (memory w).Bounded) {action : Action}
    (opens : Session.Opens ctx caller w action (.ok activation) w') :
    ∃ r, caller.ready = .ok r ∧ activation.Grounded (memory w') r := by
  cases opens with
  | prepare ends => exact of_prepare manages bounded ends
  | insert ends =>
      cases ends with
      | @written first w₁ t prepared written =>
          obtain ⟨r, ready, grounded⟩ := of_prepare manages bounded prepared
          exact ⟨r, ready, grounded.write (s := (first, w₁)) manages ready written⟩

end Activation.Grounded

/-! ## Sessions -/

namespace Session

/-- What holds throughout every session. -/
structure Grounded {ω : Type} (ctx : Context ω) (memory : ω → Memory) (s : Session ω) : Prop where
  proper : s.caller.Proper ctx
  bounded : (memory s.world).Bounded
  calls : ∀ (index : Nat) (activation : Activation),
    s.activations[index]? = some (some activation) →
      ∃ r, s.caller.ready = .ok r ∧ activation.Grounded (memory s.world) r

namespace Grounded

variable {ω : Type} {ctx : Context ω} {memory : ω → Memory} {s s' : Session ω} {action : Action}
  {given : Outcome}

theorem of_new (new : s.caller.status = .new) (empty : s.activations = [])
    (bounded : (memory s.world).Bounded) : Grounded ctx memory s where
  proper := .of_new new
  bounded := bounded
  calls index activation live := by
    rw [empty] at live
    cases live

/-- Every action leaves a session grounded. -/
theorem step (h : Grounded ctx memory s) (manages : ctx.Manages memory) (action : Action) :
    Grounded ctx memory ((Session.step ctx action).run s).2 := by
  have does := does_step ctx s action
  have next := manages.respects_next.step action s
  have bounded := (manages.respects_later.step action s h.bounded).1
  generalize ((Session.step ctx action).run s).1 = given at does
  generalize ((Session.step ctx action).run s).2 = s' at *
  refine ⟨?_, bounded, fun index activation live => ?_⟩
  · rcases does.caller with ⟨-, same⟩ | ⟨-, w, compiles⟩
    · rw [same]
      exact h.proper
    · exact h.proper.compiled compiles
  · -- only the call that an action makes or is about is looked at again
    obtain ⟨place, known, moves⟩ := does.moves_to live
    cases moves with
    | kept | looked =>
        obtain ⟨r, ready, grounded⟩ := h.calls index activation known
        exact ⟨r, does.ready ready, grounded.later next⟩
    | @changed before _ changes =>
        obtain ⟨r, ready, grounded⟩ := h.calls index before known
        exact ⟨r, does.ready ready,
          grounded.changes (s := (before, s.world)) manages ready changes⟩
    | opened _ _ _ opens =>
        obtain ⟨r, ready, grounded⟩ := Activation.Grounded.of_opens manages h.bounded opens
        exact ⟨r, does.ready ready, grounded⟩

/-- Every run leaves a session grounded. -/
theorem after (h : Grounded ctx memory s) (manages : ctx.Manages memory) (actions : List Action) :
    Grounded ctx memory (Session.after ctx s actions) := by
  induction actions generalizing s with
  | nil => exact h
  | cons action rest ih => exact ih (h.step manages action)

end Grounded

/-! ## Structs in one piece -/

/-- The structs of live calls are whole. -/
structure Whole {ω : Type} (memory : ω → Memory) (s : Session ω) : Prop where
  tidy : (memory s.world).Tidy
  structs : ∀ (index : Nat) (activation : Activation),
    s.activations[index]? = some (some activation) → ∃ r, s.caller.ready = .ok r ∧
      (memory s.world).Whole activation.structAddress r.layout.size.toNat

namespace Whole

variable {ω : Type} {ctx : Context ω} {memory : ω → Memory} {s : Session ω} {w w' : ω}
  {caller : Caller} {activation : Activation}

theorem of_prepare (manages : ctx.Manages memory) (tidy : (memory w).Tidy) {place : StructPlace}
    (h : PrepareEnds ctx caller w place (.ok activation) w') :
    ∃ r, caller.ready = .ok r ∧
      (memory w').Whole activation.structAddress r.layout.size.toNat := by
  cases h with
  | adopted ready read =>
      obtain ⟨held, same⟩ := manages.fetched read
      rw [same]
      exact ⟨_, ready, tidy.whole (Memory.read?_eq_some.mp held).1⟩
  | allocated ready allocated =>
      obtain ⟨n, size, region⟩ := manages.allocated allocated
      rw [UInt32.toNat_toUInt64] at size
      exact ⟨_, ready, region.whole tidy.bounded size⟩

theorem of_opens (manages : ctx.Manages memory) (tidy : (memory w).Tidy) {action : Action}
    (opens : Opens ctx caller w action (.ok activation) w') :
    ∃ r, caller.ready = .ok r ∧
      (memory w').Whole activation.structAddress r.layout.size.toNat := by
  cases opens with
  | prepare ends => exact of_prepare manages tidy ends
  | insert ends =>
      cases ends with
      | written prepared written =>
          obtain ⟨r, ready, whole⟩ := of_prepare manages tidy prepared
          have moved := manages.respects_ages.writeEnds written
          rw [moved.struct]
          exact ⟨r, ready, whole.later moved.world⟩

/-- Every action leaves structs whole. -/
theorem step (h : Whole memory s) (manages : ctx.Manages memory) (action : Action) :
    Whole memory ((Session.step ctx action).run s).2 := by
  have does := does_step ctx s action
  have ages := manages.respects_ages.step action s
  generalize ((Session.step ctx action).run s).1 = given at does
  generalize ((Session.step ctx action).run s).2 = s' at *
  refine ⟨ages.tidy h.tidy, fun index activation live => ?_⟩
  obtain ⟨place, known, moves⟩ := does.moves_to live
  cases moves with
  | kept | looked =>
      obtain ⟨r, ready, whole⟩ := h.structs index activation known
      exact ⟨r, does.ready ready, whole.later ages⟩
  | changed changes =>
      obtain ⟨r, ready, whole⟩ := h.structs index _ known
      rw [changes.struct manages]
      exact ⟨r, does.ready ready, whole.later ages⟩
  | opened _ _ _ opens =>
      obtain ⟨r, ready, whole⟩ := of_opens manages h.tidy opens
      exact ⟨r, does.ready ready, whole⟩

end Whole

end Session

end CallThunk
