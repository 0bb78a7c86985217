import CallThunk.Proofs.Call.Steps

/-!
# The life of a caller

A new caller is settled by the first action that compiles it, for good: it is ready or it has
failed, and no action changes it again. The compiler is called by that action only, and what a
failed compilation tells is told again by everything that needs a compiled caller.
-/

namespace CallThunk

open Caller (CompileEnds PrepareEnds InsertEnds CallEnds CallWithEnds WriteEnds RunEnds FetchEnds)

/-- Whether an action compiles the caller if needed. -/
def Action.compiles : Action → Bool
  | .compile | .call _ | .callWith .. => true
  | _ => false

/-! ## Contexts that log what they compile -/

/-- Two states with the same log. -/
def SameLog {ω : Type} (log : ω → List WrapperSource) (w w' : ω) : Prop := log w' = log w

theorem SameLog.refl {ω : Type} {log : ω → List WrapperSource} (w : ω) : SameLog log w w := rfl

theorem SameLog.trans {ω : Type} {log : ω → List WrapperSource} (a b c : ω)
    (first : SameLog log a b) (second : SameLog log b c) : SameLog log a c :=
  Eq.trans second first

namespace Context

variable {ω : Type}

/-- A part of the state lists the sources that were compiled, in order; no other service touches
it. -/
structure Logs (ctx : Context ω) (log : ω → List WrapperSource) : Prop where
  allocate : ∀ size align, Keeps (SameLog log) (ctx.allocate size align).run
  free : ∀ address, Keeps (SameLog log) (ctx.free address).run
  read : ∀ address length, Keeps (SameLog log) (ctx.read address length).run
  write : ∀ address bytes, Keeps (SameLog log) (ctx.write address bytes).run
  run : ∀ plan, Keeps (SameLog log) (ctx.run plan)
  compile : ∀ source w, log ((ctx.compile source).run w).2 = log w ++ [source]

/-- Runs an operation beside a log. -/
def beside {α : Type} (operation : StateM ω α) : StateM (ω × List WrapperSource) α := fun s =>
  let (a, w) := operation.run s.1
  (a, (w, s.2))

/-- Any context can be given a log. -/
def logged (ctx : Context ω) : Context (ω × List WrapperSource) where
  target := ctx.target
  allocate size align := ExceptT.mk (beside (ctx.allocate size align).run)
  free address := ExceptT.mk (beside (ctx.free address).run)
  read address length := ExceptT.mk (beside (ctx.read address length).run)
  write address bytes := ExceptT.mk (beside (ctx.write address bytes).run)
  run plan := beside (ctx.run plan)
  compile source := do
    modify fun s => (s.1, s.2 ++ [source])
    beside (ctx.compile source)

end Context

/-! ## Operations that compile nothing -/

section
variable {ω : Type} {ctx : Context ω} {log : ω → List WrapperSource} {caller : Caller} {w w' : ω}
  {s t : Activation × ω} (logs : ctx.Logs log)
include logs

theorem sameLog_transfer (r : Ready) (function : List UInt8)
    (arguments : List (SlotPlace × Caller.ArgumentImage)) :
    Keeps (fun s t : Activation × ω => SameLog log s.2 t.2)
      (Caller.transfer ctx r function arguments).run := by
  refine Caller.keeps_transfer (P := fun _ _ => True) (fun s => .refl s.2)
    (fun a b c => .trans a.2 b.2 c.2) (fun s => ?_) (fun place bytes _ s => ?_)
    (fun bytes align s => ?_) trivial fun _ _ _ _ => trivial
  · rw [Caller.run_freeSides]
    exact keeps_freeEach .refl .trans (fun address _ => logs.free address) s.2
  · exact logs.write _ bytes s.2
  · have allocated := logs.allocate (UInt64.ofNat bytes.length) align.toUInt64 s.2
    rcases ran : (ctx.allocate (UInt64.ofNat bytes.length) align.toUInt64).run.run s.2 with
      ⟨e | address, w₁⟩ <;> rw [ran] at allocated
    · rw [Caller.run_newSide_error ran]
      exact allocated
    · rw [Caller.run_newSide_ok ran]
      exact .trans _ _ _ allocated (logs.write address bytes w₁)

theorem sameLog_write {args : List Value} {result : Except CallError PUnit}
    (h : WriteEnds ctx caller args s result t) : SameLog log s.2 t.2 := by
  cases h with
  | refused => exact .refl _
  | broken valid failed =>
      have kept := (sameLog_transfer logs _ _ _).of_run failed
      exact kept
  | done valid transferred =>
      have kept := (sameLog_transfer logs _ _ _).of_run transferred
      exact kept

theorem sameLog_fetch {result : Except CallError Value} (h : FetchEnds ctx caller s result t) :
    SameLog log s.2 t.2 := by
  cases h with
  | unready | early | void => exact .refl _
  | unreadable ready slot failed => exact (logs.read _ _).of_run failed
  | undecodable ready held read => exact (logs.read _ _).of_run read
  | decoded completed ready held typed read => exact (logs.read _ _).of_run read

theorem sameLog_run {options : RunOptions} {result : Except CallError Value}
    (h : RunEnds ctx caller options s result t) : SameLog log s.2 t.2 := by
  cases h with
  | refused => exact .refl _
  | interrupted planned stopped => exact (logs.run _).of_run stopped
  | completed planned stopped completed fetched =>
      exact .trans _ _ _ ((logs.run _).of_run stopped) (sameLog_fetch logs fetched)

theorem sameLog_drop (activation : Activation) : Keeps (SameLog log) (activation.drop ctx) :=
  keeps_drop .refl .trans logs.free activation

theorem sameLog_release (activation : Activation) :
    Keeps (SameLog log) (activation.release ctx).run :=
  keeps_release .refl .trans logs.free activation

theorem sameLog_prepare {place : StructPlace} {result : Except CallError Activation}
    (h : PrepareEnds ctx caller w place result w') : SameLog log w w' := by
  cases h with
  | unready => exact .refl _
  | unadopted ready failed => exact (logs.read _ _).of_run failed
  | adopted ready read => exact (logs.read _ _).of_run read
  | unallocated ready failed => exact (logs.allocate _ _).of_run failed
  | allocated ready allocated => exact (logs.allocate _ _).of_run allocated

theorem sameLog_insert {place : StructPlace} {result : Except CallError Activation}
    (h : InsertEnds ctx caller place w result w') : SameLog log w w' := by
  cases h with
  | unprepared failed => exact sameLog_prepare logs failed
  | unwritten prepared failed =>
      have written := (sameLog_prepare logs prepared).trans _ _ _ (sameLog_write logs failed)
      exact written.trans _ _ _ (sameLog_drop logs _ _)
  | written prepared written =>
      exact (sameLog_prepare logs prepared).trans _ _ _ (sameLog_write logs written)

theorem sameLog_call {args : List Value} {place : StructPlace} {options : RunOptions}
    {result : Except CallError Value} (h : CallEnds ctx caller args place options w result w') :
    SameLog log w w' := by
  cases h with
  | unprepared failed => exact sameLog_prepare logs failed
  | unwritten prepared failed =>
      have written := (sameLog_prepare logs prepared).trans _ _ _ (sameLog_write logs failed)
      exact written.trans _ _ _ (sameLog_drop logs _ _)
  | failed prepared written failed =>
      have written := (sameLog_prepare logs prepared).trans _ _ _ (sameLog_write logs written)
      have ran := written.trans _ _ _ (sameLog_run logs failed)
      exact ran.trans _ _ _ (sameLog_drop logs _ _)
  | returned prepared written returned =>
      have written := (sameLog_prepare logs prepared).trans _ _ _ (sameLog_write logs written)
      have ran := written.trans _ _ _ (sameLog_run logs returned)
      exact ran.trans _ _ _ (sameLog_release logs _ _)

/-- What is compiled is the source of a new caller. -/
theorem log_compile {compiled : Caller} (h : CompileEnds ctx caller w compiled w') :
    log w' = log w ++ if caller.status = .new then [caller.source] else [] := by
  cases h with
  | kept settled => rw [if_neg settled, List.append_nil]
  | compiled new run =>
      have logged := logs.compile caller.source w
      rw [run] at logged
      rw [if_pos new, logged]

theorem log_callWith {args : List Value} {place : StructPlace} {options : RunOptions}
    {result : Except CallError Value} {compiled : Caller}
    (h : CallWithEnds ctx caller args place options w result compiled w') :
    log w' = log w ++ if caller.status = .new then [caller.source] else [] := by
  cases h with
  | uncompiled compiles => exact log_compile logs compiles
  | called compiles called => exact Eq.trans (sameLog_call logs called) (log_compile logs compiles)

end

namespace Session

variable {ω : Type} {ctx : Context ω} {s s' : Session ω} {action : Action} {given : Outcome}

/-- One action calls the compiler if it compiles and the caller is new, and then once. -/
theorem Does.log {log : ω → List WrapperSource} (logs : ctx.Logs log)
    (h : Does ctx s action given s') : log s'.world =
      log s.world ++
        if s.caller.status = .new ∧ action.compiles then [s.caller.source] else [] := by
  have nothing {w' : ω} (quiet : action.compiles = false) (same : SameLog log s.world w') :
      log w' = log s.world ++
        if s.caller.status = .new ∧ action.compiles then [s.caller.source] else [] := by
    rw [quiet]
    exact Eq.trans same (by simp)
  cases h with
  | compiled compiles => simpa [Action.compiles] using log_compile logs compiles
  | called asks ends =>
      have compiles : action.compiles := by
        rcases asks with rfl | ⟨rfl, -⟩ <;> rfl
      simpa [compiles] using log_callWith logs ends
  | opened opens | unopened opens =>
      cases opens with
      | prepare ends => exact nothing rfl (sameLog_prepare logs ends)
      | insert ends => exact nothing rfl (sameLog_insert logs ends)
  | absent names gone =>
      refine nothing ?_ (.refl _)
      cases action <;> first | rfl | cases names
  | changed live changes =>
      cases changes with
      | write ends => exact nothing rfl (sameLog_write logs ends)
      | run ends => exact nothing rfl (sameLog_run logs ends)
      | fetch ends => exact nothing rfl (sameLog_fetch logs ends)
  | looked live looks =>
      cases looks with
      | read ran =>
          exact nothing rfl ((keeps_read .refl .trans logs.read _ _).of_run ran)
      | plan => exact nothing rfl (.refl _)
  | closed live closes =>
      cases closes with
      | release ran => exact nothing rfl ((keeps_access (sameLog_release logs _)).of_run ran)
      | drop ran => exact nothing rfl ((sameLog_drop logs _).of_run ran)
  | used uses =>
      cases uses with
      | allocate ran => exact nothing rfl ((logs.allocate _ _).of_run ran)
      | free ran => exact nothing rfl ((logs.free _).of_run ran)
      | read ran => exact nothing rfl ((logs.read _ _).of_run ran)
      | write ran => exact nothing rfl ((logs.write _ _).of_run ran)

end Session

/-! ## What settles a caller -/

namespace Caller

variable {ω : Type} {ctx : Context ω} {caller : Caller}

/-- What a caller can have failed with, and after how many errors. -/
inductive Failure : Nat → CallError → Prop where
  | compilation (n : Nat) : Failure (n + 1) (.compilation (n + 1))
  | layout (e : LayoutError) : Failure 1 (.layout e)

theorem Failure.pos {n : Nat} {e : CallError} (h : Failure n e) : 0 < n := by
  cases h <;> exact Nat.succ_pos _

/-- A caller becomes ready with nothing more to report, or it fails after the errors of the compiler
and its own. -/
theorem settle_spec (target : Target) (compiled : Option LoadedWrapper) (errors : Nat) :
    (∃ r, caller.settle target compiled errors = (.ready r, []) ∧ errors = 0 ∧
        compiled = some r.compiled ∧ r.target = target) ∨
      ∃ e, (caller.settle target compiled errors).1 =
          .failed (errors + (caller.settle target compiled errors).2.length) e ∧
        Failure (errors + (caller.settle target compiled errors).2.length) e := by
  cases errors with
  | succ n => cases compiled <;> exact .inr ⟨_, rfl, .compilation n⟩
  | zero =>
      cases compiled with
      | none => exact .inr ⟨_, rfl, .compilation 0⟩
      | some c =>
          rw [settle_some]
          cases StructLayout.recover c.records caller.source.structName caller.model
            target.pointerSize with
          | ok layout => exact .inl ⟨_, rfl, rfl, rfl, rfl⟩
          | error e => exact .inr ⟨_, rfl, .layout e⟩

end Caller

/-! ## Steps -/

namespace Session

variable {ω : Type} {ctx : Context ω} {s s' : Session ω} {action : Action} {given : Outcome}

/-- An action that compiles does to the caller what compiling does; all others leave it. -/
theorem Does.caller (h : Does ctx s action given s') :
    action.compiles = false ∧ s'.caller = s.caller ∨
      action.compiles ∧ ∃ w, CompileEnds ctx s.caller s.world s'.caller w := by
  cases h with
  | compiled compiles => exact .inr ⟨rfl, _, compiles⟩
  | called asks ends =>
      refine .inr ⟨by rcases asks with rfl | ⟨rfl, -⟩ <;> rfl, ?_⟩
      cases ends with
      | uncompiled compiles | called compiles => exact ⟨_, compiles⟩
  | opened opens | unopened opens => cases opens <;> exact .inl ⟨rfl, rfl⟩
  | absent names => cases action <;> first | exact .inl ⟨rfl, rfl⟩ | cases names
  | changed live changes => cases changes <;> exact .inl ⟨rfl, rfl⟩
  | looked live looks => cases looks <;> exact .inl ⟨rfl, rfl⟩
  | closed live closes => cases closes <;> exact .inl ⟨rfl, rfl⟩
  | used uses => cases uses <;> exact .inl ⟨rfl, rfl⟩

/-- No action changes more of the caller than its status. -/
theorem Does.statusOnly (does : Does ctx s action given s') :
    s'.caller = { s.caller with status := s'.caller.status } := by
  rcases does.caller with ⟨-, same⟩ | ⟨-, w, compiles⟩
  · rw [same]
  · generalize s'.caller = caller at compiles
    cases compiles with
    | kept | compiled => rfl

theorem caller_after (ctx : Context ω) (s : Session ω) (actions : List Action) :
    (after ctx s actions).caller =
      { s.caller with status := (after ctx s actions).caller.status } := by
  induction actions generalizing s with
  | nil => rfl
  | cons action rest ih =>
      refine (ih _).trans ?_
      rw [(does_step ctx s action).statusOnly]
      rfl

/-- A settled caller stays as it is. -/
theorem Does.settled (h : Does ctx s action given s') (settled : s.caller.status ≠ .new) :
    s'.caller = s.caller := by
  rcases h.caller with ⟨-, same⟩ | ⟨-, w, compiles⟩
  · exact same
  · generalize s'.caller = caller at compiles
    cases compiles with
    | kept => rfl
    | compiled new => exact absurd new settled

theorem Does.ready (h : Does ctx s action given s') {r : Ready} (ready : s.caller.ready = .ok r) :
    s'.caller.ready = .ok r := by
  rw [h.settled (by rw [ready_eq_ok.mp ready]; nofun)]
  exact ready

/-- How far the caller of a session is, when it started as a given one. -/
structure Lives (origin : Caller) (compiled : Bool) (s : Session ω) : Prop where
  /-- Nothing but the status ever changes. -/
  same : s.caller = { origin with status := s.caller.status }
  new_iff : s.caller.status = .new ↔ compiled = false
  failures : ∀ n e, s.caller.status = .failed n e → Caller.Failure n e

/-- A caller that gets a status other than new, by this or an earlier action, is settled. -/
theorem Lives.settle {origin : Caller} {compiled : Bool} (h : Lives origin compiled s)
    {status : CallerStatus} (hcaller : s'.caller = { s.caller with status })
    (settled : status ≠ .new) (failures : ∀ n e, status = .failed n e → Caller.Failure n e) :
    Lives origin true s' := by
  refine ⟨?_, ?_, ?_⟩
  · rw [hcaller, h.same]
  · rw [hcaller]
    exact ⟨fun new => absurd new settled, nofun⟩
  · rw [hcaller]
    exact failures

theorem Lives.step {origin : Caller} {compiled : Bool} (h : Lives origin compiled s)
    (does : Does ctx s action given s') : Lives origin (compiled || action.compiles) s' := by
  rcases does.caller with ⟨quiet, same⟩ | ⟨compiles, w, ends⟩
  · rw [quiet, Bool.or_false]
    exact ⟨same ▸ h.same, same ▸ h.new_iff, same ▸ h.failures⟩
  · rw [compiles, Bool.or_true]
    generalize hcaller : s'.caller = caller at ends
    cases ends with
    | kept settled => exact h.settle hcaller settled h.failures
    | @compiled outcome w' new run =>
        rcases @Caller.settle_spec s.caller ctx.target outcome.1 outcome.2.errorCount with
          ⟨r, settled, -⟩ | ⟨e, settled, failure⟩
        · rw [settled] at hcaller
          exact h.settle hcaller (by simp) (by simp)
        · rw [settled] at hcaller
          refine h.settle hcaller (by simp) ?_
          rintro n e' ⟨⟩
          exact failure

/-! ## Runs -/

/-- The session behind actions, each of them in a context of its own. -/
def drive (s : Session ω) : List (Context ω × Action) → Session ω
  | [] => s
  | (ctx, action) :: rest => drive ((step ctx action).run s).2 rest

/-- Whether some of the actions compiles. -/
def anyCompiles (steps : List (Context ω × Action)) : Bool := steps.any (·.2.compiles)

theorem Lives.drive {origin : Caller} {compiled : Bool} (h : Lives origin compiled s)
    (steps : List (Context ω × Action)) :
    Lives origin (compiled || anyCompiles steps) (s.drive steps) := by
  induction steps generalizing compiled s with
  | nil =>
      rw [anyCompiles, List.any_nil, Bool.or_false]
      exact h
  | cons first rest ih =>
      rw [anyCompiles, List.any_cons, ← Bool.or_assoc]
      exact ih (h.step (does_step first.1 s first.2))

end Session

end CallThunk
