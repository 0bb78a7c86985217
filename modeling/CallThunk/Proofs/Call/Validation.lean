import CallThunk.Proofs.Call.Isolation
import CallThunk.Proofs.Call.Structs

/-!
# Writes that are refused

A value that does not fit its slot is refused before a write changes anything. Only the address of a
side buffer comes too late for that: it is known once the buffer was allocated, when the arguments
before are gone. So a write that fails for a value has changed nothing, or it was stopped by a side
buffer that lies too high for the target's pointers.
-/

namespace CallThunk

open Caller (ArgumentImage WriteEnds)

section
variable {ω α β : Type} {ctx : Context ω} {memory : ω → Memory} {target : Target}
  {s t u : Activation × ω} {m : Mismatch}

/-! ## Operations that do not look at values -/

/-- An operation on an activation never fails for a value. -/
def Caller.Blind (x : Caller.OnActivation ω α) : Prop :=
  ∀ (s : Activation × ω) (m : Mismatch) (t : Activation × ω),
    (x.run.run s : Except CallError α × _) ≠ (.error (.mismatch m), t)

theorem Caller.Blind.bind {x : Caller.OnActivation ω α} {f : α → Caller.OnActivation ω β}
    (hx : Caller.Blind x) (hf : ∀ a, Caller.Blind (f a)) : Caller.Blind (x >>= f) := by
  intro s m t failed
  rcases run_exceptBind_eq_error failed with first | ⟨a, u, -, second⟩
  · exact hx s m t first
  · exact hf a u m t second

theorem blind_pure (a : α) : Caller.Blind (pure a : Caller.OnActivation ω α) := by
  intro s m t failed
  replace failed : ((.ok a, s) : Except CallError α × _) = (.error (.mismatch m), t) := failed
  cases failed

theorem blind_current : Caller.Blind (get : Caller.OnActivation ω (Activation × ω)) := by
  intro s m t failed
  rw [Caller.run_current] at failed
  cases failed

theorem blind_update (f : Activation → Activation) :
    Caller.Blind (Caller.update f : Caller.OnActivation ω PUnit) := by
  intro s m t failed
  rw [Caller.run_update] at failed
  cases failed

theorem blind_service (service : Service ω α) : Caller.Blind (Caller.service service) := by
  intro s m t failed
  rw [Caller.run_service] at failed
  exact mapError_memory_ne (congrArg Prod.fst failed)

theorem blind_freeSides : Caller.Blind (Caller.freeSides ctx) :=
  blind_current.bind fun _ => (blind_update _).bind fun _ => blind_service _

theorem blind_writeSlot (place : SlotPlace) (bytes : List UInt8) :
    Caller.Blind (Caller.writeSlot ctx place bytes) :=
  blind_current.bind fun _ => blind_service _

theorem blind_newSide (bytes : List UInt8) (align : UInt32) :
    Caller.Blind (Caller.newSide ctx bytes align) :=
  (blind_service _).bind fun _ => (blind_update _).bind fun _ =>
    (blind_service _).bind fun _ => blind_pure _

/-! ## Buffers out of reach -/

/-- A side buffer was allocated on the way whose address cannot be written. -/
structure Overshoots (memory : ω → Memory) (target : Target) (m : Mismatch) (address : UInt64)
    (s t : Activation × ω) : Prop where
  owned : address ∈ t.1.sides
  unwritable : target.addressImage address = .error m
  above : (memory s.2).next.toNat ≤ address.toNat
  below : address.toNat < (memory t.2).next.toNat

variable {address : UInt64}

theorem Overshoots.behind (h : Overshoots memory target m address t u)
    (next : (memory s.2).next.toNat ≤ (memory t.2).next.toNat) :
    Overshoots memory target m address s u :=
  ⟨h.owned, h.unwritable, Nat.le_trans next h.above, h.below⟩

variable (manages : ctx.Manages memory)
include manages

/-- An argument that does not fit fails for the address of its side buffer. -/
theorem overshoots_of_writeArgument {place : SlotPlace} {image : ArgumentImage}
    (failed : ((Caller.writeArgument ctx target place image).run.run s :
      Except CallError PUnit × _) = (.error (.mismatch m), t)) :
    ∃ address, Overshoots memory target m address s t := by
  cases image with
  | word bytes => exact absurd failed (blind_writeSlot place bytes s m t)
  | side bytes align =>
      rcases run_exceptBind_eq_error failed with first | ⟨_, u, given, second⟩
      · exact absurd first (blind_newSide bytes align s m t)
      · rcases allocated : (ctx.allocate (UInt64.ofNat bytes.length) align.toUInt64).run.run s.2
          with ⟨e | a, w⟩
        · rw [Caller.run_newSide_error allocated] at given
          cases given
        · rw [Caller.run_newSide_ok allocated] at given
          rcases filled : ((ctx.write a bytes).run.run w : Except MemoryFault PUnit × ω) with
            ⟨e | _, w'⟩
          · rw [filled] at given
            cases given
          · rw [filled] at given
            cases given
            cases encoded : target.addressImage a with
            | ok image =>
                rw [encoded] at second
                exact absurd second (blind_writeSlot place image _ m t)
            | error e =>
                rw [encoded] at second
                cases second
                obtain ⟨n, -, region⟩ := manages.allocated allocated
                have next := (manages.respects_next.write a bytes).of_run filled
                have below : a.toNat < (memory w).next.toNat := by
                  have room := region.below
                  omega
                refine ⟨a, ⟨?_, encoded, region.above, Nat.lt_of_lt_of_le below next⟩⟩
                exact List.mem_append_right _ (List.mem_singleton_self _)

theorem overshoots_of_writeAll {arguments : List (SlotPlace × ArgumentImage)}
    (failed : ((Caller.writeAll ctx target arguments).run.run s : Except CallError PUnit × _) =
      (.error (.mismatch m), t)) : ∃ address, Overshoots memory target m address s t := by
  induction arguments generalizing s with
  | nil => cases failed
  | cons argument rest ih =>
      obtain ⟨place, image⟩ := argument
      rcases run_exceptBind_eq_error failed with first | ⟨_, u, written, later⟩
      · exact overshoots_of_writeArgument manages first
      · obtain ⟨address, overshoots⟩ := ih later
        have next := (manages.respects_next.writeArgument target place image).of_run written
        exact ⟨address, overshoots.behind next.world⟩

theorem overshoots_of_transfer {r : Ready} {function : List UInt8}
    {arguments : List (SlotPlace × ArgumentImage)}
    (failed : ((Caller.transfer ctx r function arguments).run.run s : Except CallError PUnit × _) =
      (.error (.mismatch m), t)) : ∃ address, Overshoots memory r.target m address s t := by
  have grows := manages.respects_next
  rcases run_exceptBind_eq_error failed with first | ⟨_, u, freed, failed⟩
  · exact absurd first (blind_freeSides s m t)
  · rcases run_exceptBind_eq_error failed with second | ⟨_, v, written, failed⟩
    · exact absurd second (blind_writeSlot _ _ u m t)
    · obtain ⟨address, overshoots⟩ := overshoots_of_writeAll manages failed
      have first := (grows.freeSides.of_run freed).world
      have second := ((grows.writeSlot _ _).of_run written).world
      exact ⟨address, overshoots.behind (Nat.le_trans first second)⟩

end

/-! ## Writes that fail for a value -/

/-- What is left of a call and its session when the address of a new side buffer stops a write: the
arguments before are gone, and the buffer is owned. -/
structure Session.GivenUp {ω : Type} (memory : ω → Memory) (pointerSize : UInt32) (index : Nat)
    (s s' : Session ω) (before after : Activation) (address : UInt64) : Prop where
  live : s.activations[index]? = some (some before)
  session : s' = { s with
    world := s'.world
    activations := s.activations.set index (some after) }
  activation : after = { before with stage := .prepared, arguments := [], sides := after.sides }
  owned : address ∈ after.sides
  new : (memory s.world).next.toNat ≤ address.toNat
  taken : address.toNat < (memory s'.world).next.toNat
  tooWide : 256 ^ pointerSize.toNat ≤ address.toNat

/-- A write that fails for a value has changed nothing if its values were found not to fit before
anything was written, and only then. Every other one allocated a side buffer that lies too high for
the target's pointers. -/
theorem Session.write_mismatch {ω : Type} {ctx : Context ω} {memory : ω → Memory}
    (manages : ctx.Manages memory) {s s' : Session ω} {r : Ready} (ready : s.caller.ready = .ok r)
    {index : Nat} {args : List Value} {m : Mismatch}
    (failed : (step ctx (.write index args)).run s = (.failed (.mismatch m), s')) :
    (s' = s ↔ s.caller.images r args = .error m) ∧
      (s' ≠ s → ∃ before after address, m = .addressTooWide address r.target.pointerSize ∧
        GivenUp memory r.target.pointerSize index s s' before after address) := by
  rcases live : s.activations[index]?.join with _ | before
  · have absent : (step ctx (.write index args)).run s = (.noActivation, s) := by
      unfold step
      rw [run_stateBind_of (run_get s)]
      exact run_onActivation_none live
    cases absent.symm.trans failed
  replace live := Option.join_eq_some_iff.mp live
  obtain ⟨result, t, ends, ran⟩ := @run_step_write _ ctx _ _ _ live args
  rw [ran] at failed
  cases ends with
  | refused invalid =>
      cases failed
      have same : { s with activations := s.activations.set index (some before) } = s := by
        rw [set_of_live live]
      rw [same]
      have unfit := (Caller.validate_eq_mismatch ready).mp invalid
      exact ⟨⟨fun _ => unfit, fun _ => rfl⟩, fun other => absurd rfl other⟩
  | broken valid broken =>
      cases failed
      obtain ⟨ready', images⟩ := Caller.validate_eq_ok.mp valid
      cases ready.symm.trans ready'
      obtain ⟨address, overshoots⟩ := overshoots_of_transfer manages broken
      have kept := (Caller.keeps_sidesOnly_transfer _ _ _).of_run broken
      -- the callee's address was written, so pointers have a width
      obtain ⟨-, -, encoded⟩ := images_eq_ok.mp images
      obtain ⟨width, -, -⟩ := addressImage_eq_ok.mp encoded
      have above := overshoots.above
      have below := overshoots.below
      have moved :
          { s with world := t.2, activations := s.activations.set index (some t.1) } ≠ s := by
        intro same
        have world : t.2 = s.world := congrArg Session.world same
        rw [world] at below
        exact absurd (Nat.lt_of_le_of_lt above below) (Nat.lt_irrefl _)
      refine ⟨⟨fun same => absurd same moved, fun unfit => ?_⟩, fun _ => ?_⟩
      · cases images.symm.trans unfit
      · have told := overshoots.unwritable
        unfold Target.addressImage at told
        dsimp only at told
        split at told
        · cases told
        next unfit =>
          cases told
          have high : 256 ^ r.target.pointerSize.toNat ≤ address.toNat := by
            by_contra low
            exact unfit ⟨width, Nat.not_le.mp low⟩
          exact ⟨before, t.1, address, rfl, live, rfl, kept, overshoots.owned, above, below, high⟩
  | done => cases failed

/-! ## A buffer out of reach -/

def Outcome.failure? : Outcome → Option CallError
  | .failed e => some e
  | _ => none

theorem Outcome.eq_of_failure? {σ : Type} {given : Outcome × σ} {e : CallError}
    (h : given.1.failure? = some e) : given = (.failed e, given.2) := by
  obtain ⟨outcome, s⟩ := given
  cases outcome <;> cases h
  rfl

namespace Session

/-- Writes two pointers to a fresh struct. -/
def pointing : List Action :=
  [.prepare .fresh, .write 0 [.pointer (.record ⟨"pair", 4, 2⟩) 0x2000, .pointer .void 0x3000]]

/-- Arguments that need a side buffer. -/
def aggregated : List Value := [.aggregate ⟨"pair", 4, 2⟩ [1, 2, 3, 4], .pointer .void 0x3000]

/-- Two pointers were written in a process whose allocations lie above what 32 bits reach. Then the
address of a side buffer stops the next write. -/
theorem gives_up_high :
    let ctx := Debuggee.sparse ⟨4, .big⟩ .layoutOnly
    let s := after ctx (.ofCaller mixing 0x100000000 {} []) (.compile :: pointing)
    let given := (step ctx (.write 0 aggregated)).run s
    s.caller.ready?.map (fun r => r.target.pointerSize) = some 4 ∧
      given.1.failure? = some (.mismatch (.addressTooWide 0x10000000e 4)) ∧
      s.activations = [some {
        structAddress := 0x100000000
        ownsStruct := true
        arguments := [.pointer (.record ⟨"pair", 4, 2⟩) 0x2000, .pointer .void 0x3000]
        stage := .written }] ∧
      given.2.activations = [some {
        structAddress := 0x100000000
        ownsStruct := true
        sides := [0x10000000e] }] ∧
      s.world.memory.starts = [0x100000000] ∧
      given.2.world.memory.starts = [0x10000000e, 0x100000000] := by
  have compiled := @run_compile_layoutOnly _ (Debuggee.sparse ⟨4, .big⟩ .layoutOnly)
    (.ofCaller mixing 0x100000000 {} []) (.ofSignature "f" _) compilable_mixing
    (Debuggee.compile_layoutOnly ..)
  dsimp only
  rw [after, compiled]
  decide +kernel

/-- So a write that fails for a value may take the arguments before with it and leave a new
allocation behind. -/
theorem write_mismatch_spends :
    ¬ ∀ (target : Target) (base : UInt64) (caller : Caller) (actions : List Action) (index : Nat)
        (args : List Value) (m : Mismatch) (s' : Session Debuggee), caller.Made →
      let ctx := Debuggee.sparse target .layoutOnly
      let s := after ctx (.ofCaller caller base {} []) actions
      s.caller.ready?.isSome → (step ctx (.write index args)).run s = (.failed (.mismatch m), s') →
        s'.activations = s.activations ∧ s'.world.memory.starts = s.world.memory.starts := by
  intro atomic
  obtain ⟨ready, failed, before, after, -, -⟩ := gives_up_high
  have ready := congrArg Option.isSome ready
  rw [Option.isSome_map] at ready
  have ran := Outcome.eq_of_failure? failed
  obtain ⟨same, -⟩ := atomic ⟨4, .big⟩ 0x100000000 mixing (.compile :: pointing) 0 aggregated _ _
    (.ofSignature "f" _) ready ran
  rw [after, before] at same
  cases same

/-- The write that is stopped has given up the arguments before. -/
theorem write_mismatch_pointing :
    let ctx := Debuggee.sparse ⟨4, .big⟩ .layoutOnly
    let s := after ctx (.ofCaller mixing 0x100000000 {} []) (.compile :: pointing)
    ctx.Manages Debuggee.memory ∧ ∃ r s', s.caller.ready = .ok r ∧
      (step ctx (.write 0 aggregated)).run s =
        (.failed (.mismatch (.addressTooWide 0x10000000e 4)), s') ∧
      s.caller.images r aggregated ≠ .error (.addressTooWide 0x10000000e 4) ∧
      ∃ before after, GivenUp Debuggee.memory 4 0 s s' before after 0x10000000e := by
  have manages := Debuggee.manages Debuggee.fresh_sparse ⟨4, .big⟩ .layoutOnly
  obtain ⟨isReady, failed, before, after, -, -⟩ := gives_up_high
  obtain ⟨r, known, size⟩ := Option.map_eq_some_iff.mp isReady
  have ready := ready?_eq_some.mp known
  have ran := Outcome.eq_of_failure? failed
  obtain ⟨unchanged, spent⟩ := write_mismatch manages ready ran
  rw [size] at spent
  refine ⟨manages, r, _, ready, ran, fun unfit => ?_, ?_⟩
  · have same := congrArg Session.activations (unchanged.mpr unfit)
    rw [after, before] at same
    cases same
  · obtain ⟨first, last, address, told, givenUp⟩ := spent fun same => by
      replace same := congrArg Session.activations same
      rw [after, before] at same
      cases same
    cases told
    exact ⟨first, last, givenUp⟩

end Session

end CallThunk
