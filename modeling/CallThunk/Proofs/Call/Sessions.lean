import CallThunk.Proofs.Call.Compiling
import CallThunk.Proofs.Call.Structs
import CallThunk.Proofs.Process.Debuggee

/-!
# Sessions with native code

What holds throughout a session whose compiler makes native code, whatever its user does: the caller
is the one it started with, code and layout come from its own wrapper, and the struct of every
activation lies below the memory that may still be handed out. The last fact is what keeps side
buffers away from structs, also from structs in memory of the user.
-/

namespace CallThunk

open Debuggee (Fresh)

/-- The sessions that actions lead to. -/
inductive Session.Reaches {ω : Type} (ctx : Context ω) (start : Session ω) : Session ω → Prop where
  | start : Reaches ctx start start
  | step {s : Session ω} (action : Action) (before : Reaches ctx start s) :
      Reaches ctx start ((Session.step ctx action).run s).2

/-- They are those behind lists of actions. -/
theorem Session.Reaches.exists_after {ω : Type} {ctx : Context ω} {start s : Session ω}
    (h : Reaches ctx start s) : ∃ actions, s = after ctx start actions := by
  induction h with
  | start => exact ⟨[], rfl⟩
  | step action _ ih =>
      obtain ⟨actions, rfl⟩ := ih
      exact ⟨actions ++ [action], (after_concat ctx start actions action).symm⟩

/-- The struct of an activation lies below the memory that may still be handed out. -/
def Placed (caller : Caller) (d : Debuggee) (activation : Activation) : Prop :=
  ∃ r, caller.status = .ready r ∧
    activation.structAddress.toNat + r.layout.size.toNat ≤ d.memory.next.toNat

/-- What holds throughout a session of a caller with a native compiler. -/
structure Session.Sound (origin : Caller) (s : Session Debuggee) : Prop where
  caller : ∃ status, s.caller = { origin with status }
  native : ∀ r, s.caller.status = .ready r → ∃ code, s.caller.Native r code
  bounded : s.world.memory.Bounded
  structs : ∀ activation, some activation ∈ s.activations → Placed s.caller s.world activation

section
variable {allocator : Debuggee.Allocator} {target : Target} {options : NativeOptions}

/-- A caller that becomes ready with a native compiler has native code. -/
theorem Caller.Compiled.native {caller : Caller} {r : Ready}
    (source : caller.source = .ofModel caller.name caller.model)
    (h : caller.Compiled (Debuggee.context target allocator (.native options)) r) :
    ∃ code, caller.Native r code := by
  obtain ⟨d, given⟩ := h.compiled
  obtain ⟨rfl, unit, reports, program, problems, code, parsed, checked, lowered, loaded⟩ :=
    native_eq_some.mp given
  have recovered := h.recovered
  rw [loaded, source] at recovered
  rw [source] at parsed
  exact ⟨code, h.targeted, by rw [loaded], program,
    ⟨⟨unit, reports, problems, parsed, checked⟩, recovered⟩, lowered⟩

/-- Every session is sound that actions lead to. -/
theorem Session.Reaches.sound {start s : Session Debuggee} (fresh : Fresh allocator)
    (source : start.caller.source = .ofModel start.caller.name start.caller.model)
    (new : start.caller.status = .new) (empty : start.activations = [])
    (bounded : start.world.memory.Bounded)
    (h : Session.Reaches (Debuggee.context target allocator (.native options)) start s) :
    Session.Sound start.caller s := by
  obtain ⟨actions, rfl⟩ := h.exists_after
  have own := caller_after (Debuggee.context target allocator (.native options)) start actions
  have grounded := (@Grounded.of_new _ _ Debuggee.memory start new empty bounded).after
    (Debuggee.manages fresh target (.native options)) actions
  refine ⟨⟨_, own⟩, fun r ready => ?_, grounded.bounded, fun activation member => ?_⟩
  · refine (grounded.proper r (ready_eq_ok.mpr ready)).native ?_
    rw [own]
    exact source
  · obtain ⟨index, live⟩ := List.getElem?_of_mem member
    obtain ⟨r, ready, call⟩ := grounded.calls index activation live
    exact ⟨r, ready_eq_ok.mp ready, call.inside⟩

end

end CallThunk
