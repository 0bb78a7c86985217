import CallThunk.Proofs.Call.EndToEnd
import CallThunk.Proofs.Call.Lifecycle

/-!
# Reports of failures

Callers share one list of diagnostics with everybody who works on a process. What compiles, inserts
or calls fails exactly when it adds an error to that list; all other operations leave the list to
their user, and nobody takes back what stands in it. Freeing is no part of this: a call gives what
its run gave, whether its memory can be freed or not.
-/

namespace CallThunk

/-- Whether an action reports its failures. -/
def Action.reports : Action → Bool
  | .compile | .insert _ | .call _ | .callWith .. => true
  | _ => false

/-- An outcome that tells of a failed call, or of a compilation with errors. -/
def Outcome.Fails : Outcome → Prop
  | .failed _ => True
  | .errors count => 0 < count
  | _ => False

namespace Caller

variable {ω : Type} {ctx : Context ω} {caller : Caller}

/-! ## What is added -/

/-- A list of diagnostics has grown, and has an error more exactly in case of a failure. -/
structure Tells (failed : Prop) (before after : Diagnostics) : Prop where
  grows : before <+: after
  iff : failed ↔ before.errorCount < after.errorCount

namespace Tells

variable {failed : Prop} {before after : Diagnostics}

theorem nothing (fine : ¬ failed) : Tells failed before before :=
  ⟨List.prefix_rfl, fun h => absurd h fine, fun h => absurd h (Nat.lt_irrefl _)⟩

theorem error (h : failed) (before : Diagnostics) (message : String) :
    Tells failed before (before.addError message) := by
  refine ⟨List.prefix_append .., fun _ => ?_, fun _ => h⟩
  rw [Diagnostics.addError, Checked.errorCount_append]
  exact Nat.lt_add_of_pos_right Nat.one_pos

end Tells

section
variable (free : UInt64 → Service ω PUnit)

end

end Caller

namespace Session

variable {ω : Type} {ctx : Context ω} {s s' : Session ω}

/-! ## Actions -/

/-- One turn at a process that is shared. -/
inductive Turn (ω : Type) where
  /-- An action of the session, in a context of its own. -/
  | own (ctx : Context ω) (action : Action)
  /-- What others do: they leave the process as they like, and add to the reports. -/
  | others (world : ω) (added : Diagnostics)

def take (s : Session ω) : Turn ω → Session ω
  | .own ctx action => ((step ctx action).run s).2
  | .others world added => { s with world, reports := s.reports ++ added }

/-- The value of an outcome, if it is one. -/
def value? : Outcome → Option Value
  | .value v => some v
  | _ => none

end Session

end CallThunk
