import CallThunk.Proofs.Call.EndToEnd
import CallThunk.Proofs.Call.Structs

/-!
# Layouts of compiled callers

A compiler that reads the source of a wrapper lays out the struct as the checker does. So the layout
of a caller that is ready, whatever led there, is written down from its slots alone, and so is its
code if it has any.
-/

namespace CallThunk

open Machine (Code)

/-- Whether a compiler compiles the source it is given. -/
def Debuggee.CompilerChoice.compiles : CompilerChoice → Bool
  | layoutOnly | native _ => true
  | scripted .. => false

/-- What is known of a caller that was compiled from its source. -/
structure Caller.FromSource (caller : Caller) (target : Target) (r : Ready) : Prop where
  targeted : r.target = target
  inhabited : ∀ ty ∈ caller.model.argumentTys, ty ≠ .void
  accepted : WrapperSource.Accepted target.pointerSize
    (WrapperSource.ofModel caller.name caller.model).structName caller.model
  layout : r.layout = layoutOf (structRecord target.pointerSize
    (WrapperSource.ofModel caller.name caller.model).structName caller.model.slots) caller.model
  lowered : ∀ code, r.compiled.code = some code → target = .host ∧
    Code.ofFunction (WrapperSource.checkedProgram target.pointerSize caller.name
      caller.model).wrapper = .ok code

section
variable {caller : Caller} {target : Target} {allocator : Debuggee.Allocator}
  {choice : Debuggee.CompilerChoice} {r : Ready}

theorem Caller.Compiled.fromSource (source : caller.source = .ofModel caller.name caller.model)
    (plain : caller.model.Plain) (compiles : choice.compiles)
    (h : caller.Compiled (Debuggee.context target allocator choice) r) :
    caller.FromSource target r := by
  obtain ⟨d, given⟩ := h.compiled
  have recovered := h.recovered
  rw [source] at recovered
  -- both compilers parse and check, and one of them lowers what was checked
  have settles : ∃ program, Settles caller.name caller.model target.pointerSize program r.layout ∧
      ∀ code, r.compiled.code = some code →
        target = .host ∧ Code.ofFunction program.wrapper = .ok code := by
    cases choice with
    | layoutOnly =>
        obtain ⟨unit, reports, program, problems, parsed, checked, wrapper⟩ :=
          layoutOnly_eq_some.mp given
        rw [source] at parsed
        rw [wrapper] at recovered ⊢
        exact ⟨program, ⟨⟨unit, reports, problems, parsed, checked⟩, recovered⟩, nofun⟩
    | native options =>
        obtain ⟨host, unit, reports, program, problems, code, parsed, checked, lowered, wrapper⟩ :=
          native_eq_some.mp given
        rw [source] at parsed
        rw [wrapper] at recovered ⊢
        refine ⟨program, ⟨⟨unit, reports, problems, parsed, checked⟩, recovered⟩, ?_⟩
        rintro _ ⟨⟩
        exact ⟨host, lowered⟩
    | scripted => cases compiles
  obtain ⟨program, settles, lowered⟩ := settles
  have inhabited := ((settles_iff plain).mp ⟨program, r.layout, settles⟩).inhabited
  obtain ⟨accepted, rfl, layout⟩ := settles.accepted plain
  exact ⟨h.targeted, inhabited, accepted, layout, lowered⟩

/-- The slots of a compiled caller have the sizes of their types, inside the struct and behind one
another. -/
theorem Caller.FromSource.laidOut (h : caller.FromSource target r) :
    LaidOut target.pointerSize (structRecord target.pointerSize
      (WrapperSource.ofModel caller.name caller.model).structName caller.model.slots)
        caller.model :=
  laidOut_structRecord h.accepted.fits

theorem Caller.FromSource.stop_le (h : caller.FromSource target r) {place : SlotPlace}
    (member : place ∈ r.layout.slots) : place.stop ≤ r.layout.size.toNat := by
  rw [h.layout] at member ⊢
  rw [slots_layoutOf] at member
  obtain ⟨slot, hslot, rfl⟩ := List.mem_map.mp member
  exact h.laidOut.within slot hslot

end

/-! ## Sessions -/

namespace Session

/-- Wherever a caller is ready, it was compiled from its source. -/
theorem fromSource_after {target : Target} {allocator : Debuggee.Allocator}
    (fresh : Debuggee.Fresh allocator) {choice : Debuggee.CompilerChoice}
    (compiles : choice.compiles) {caller : Caller} (made : caller.Made) (base : UInt64)
    (faults : Faults) (script : List Stop) (actions : List Action) {r : Ready} :
    let ctx := Debuggee.context target allocator choice
    let s := after ctx (.ofCaller caller base faults script) actions
    s.caller.ready = .ok r → s.caller.FromSource target r := by
  intro ctx s ready
  have grounded := (@Grounded.of_new _ ctx Debuggee.memory (.ofCaller caller base faults script)
    made.new rfl (Memory.bounded_ofBase base)).after (Debuggee.manages fresh target choice) actions
  have own : s.caller = { caller with status := s.caller.status } := caller_after ctx _ actions
  refine Caller.Compiled.fromSource ?_ ?_ compiles (grounded.proper r ready)
  · show s.caller.source = .ofModel s.caller.name s.caller.model
    rw [own]
    exact made.source_eq
  · show s.caller.model.Plain
    rw [own]
    exact made.plain

end Session

end CallThunk
