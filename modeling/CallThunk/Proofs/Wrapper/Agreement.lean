import CallThunk.Proofs.Machine.Acceptance
import CallThunk.Wrapper.Compiler

/-!
# Agreement of the compilers

Both compilers parse, revise and check a source in the same way, so on the host they differ only in
what lowering refuses. What the checked body uses decides that, and nothing else that could go wrong
in lowering ever does.
-/

namespace CallThunk.Compiler

open Checked (Lowerable)
open Machine (Code)

/-- Parses, revises and checks a source: what the compilers have in common. -/
def checked (types : TypeSystem) (target : Target) (source : String) :
    Option Checked.Program × Diagnostics :=
  match front types source with
  | (none, reports) => (none, reports)
  | (some (unit, revision), reports) =>
    let (checked, problems) := Checked.check ⟨target.pointerSize, types.external?⟩ unit
    (checked, reports ++ revision ++ problems)

/-- What native code generation makes of a checked program. -/
def lowered (entry : UInt64) (program : Checked.Program) (reports : Diagnostics) :
    Option LoadedWrapper × Diagnostics :=
  match Code.ofFunction program.wrapper with
  | .ok code => (some ⟨program.wrapper.name, entry, program.records, some code⟩, reports)
  | .error e => (none, reports ++ nativeReport (.unsupported e))

section
variable {entry : UInt64} {types : TypeSystem} {target : Target} {source : String}
  {program : Checked.Program} {reports : Diagnostics}

theorem front_eq_some {unit : Source.SourceUnit} {revision : Diagnostics}
    (h : front types source = (some (unit, revision), reports)) :
    ∃ parsed, Source.SourceUnit.parse source = (some parsed, reports) ∧
      types.transform parsed = (unit, revision) := by
  unfold front at h
  split at h
  · cases h
  next parsed _ hp =>
    obtain ⟨revises, rfl⟩ := Prod.mk.inj h
    exact ⟨parsed, hp, Option.some.inj revises⟩

theorem layoutOnly_eq : layoutOnly types target source =
    ((checked types target source).1.map fun program =>
      ⟨program.wrapper.name, 0, program.records, none⟩, (checked types target source).2) := by
  unfold layoutOnly checked
  rcases front types source with ⟨_ | ⟨unit, revision⟩, reports⟩
  · rfl
  · rfl

/-- On the host, and when the type system reports no error, lowering is all that is left to do
behind checking. -/
theorem native_eq (silent : ∀ unit, (Source.SourceUnit.parse source).1 = some unit →
      (types.transform unit).2.errorCount = 0) :
    native entry types .host source =
      match checked types .host source with
      | (none, reports) => (none, reports)
      | (some program, reports) => lowered entry program reports := by
  unfold native checked lowered
  rcases hf : front types source with ⟨_ | ⟨revised, revision⟩, reports⟩
  · rfl
  have quiet : revision.errorCount = 0 := by
    obtain ⟨unit, parsed, revises⟩ := front_eq_some hf
    rw [← show (types.transform unit).2 = revision by rw [revises]]
    exact silent unit (by rw [parsed])
  dsimp only
  rw [if_neg (Nat.not_lt.mpr (Nat.le_of_eq quiet)), if_neg (not_not_intro rfl)]
  rcases Checked.check ⟨Target.host.pointerSize, types.external?⟩ revised with
    ⟨_ | program, problems⟩
  · rfl
  · rfl

theorem wellTyped_of_checked (h : checked types target source = (some program, reports)) :
    program.WellTyped := by
  unfold checked at h
  split at h
  · cases h
  next unit revision parsed _ =>
    rcases hc : Checked.check ⟨target.pointerSize, types.external?⟩ unit with ⟨found, problems⟩
    rw [hc] at h
    cases h
    exact Checked.typed_of_inferWrapper (Checked.check_eq_some.mp hc).1

/-- The compilers agree on the host, for every source and every type system that reports no error.
Without a checked body, both give nothing and report the same. With one, native code is generated
exactly when all that the body uses is supported: then both wrappers have one name and the same
records, nothing is added to the reports, and the code is well typed, so that what assembles typed
code takes it. Otherwise there is one error more, and a use of the body explains it. -/
theorem native_agrees (entry : UInt64) (types : TypeSystem) (source : String)
    (silent : ∀ unit, (Source.SourceUnit.parse source).1 = some unit →
      (types.transform unit).2.errorCount = 0) :
    (∀ reports, layoutOnly types .host source = (none, reports) →
      native entry types .host source = (none, reports)) ∧
    ∀ compiled reports, layoutOnly types .host source = (some compiled, reports) →
      ∃ program, checked types .host source = (some program, reports) ∧
        ((native entry types .host source).1.isSome ↔ Lowerable program.wrapper.uses) ∧
        (∀ loaded, (native entry types .host source).1 = some loaded →
          loaded.functionName = compiled.functionName ∧ loaded.records = compiled.records ∧
            (∃ code : Code, loaded.code = some code ∧ code.WellTyped) ∧
            (native entry types .host source).2 = reports) ∧
        ((native entry types .host source).1 = none →
          ∃ e : Machine.LoweringError, e.Reason program.wrapper.uses ∧
            (native entry types .host source).2 = reports ++ nativeReport (.unsupported e)) := by
  rw [layoutOnly_eq, native_eq silent]
  rcases hc : checked types .host source with ⟨_ | program, found⟩
  · exact ⟨fun reports h => h, nofun⟩
  refine ⟨nofun, ?_⟩
  rintro compiled reports ⟨⟩
  refine ⟨program, rfl, ?_⟩
  dsimp only [lowered]
  rcases Code.ofFunction_of_wellTyped (wellTyped_of_checked hc) with
    ⟨supported, code, hcode, typed⟩ | ⟨e, he, reason⟩
  · rw [hcode]
    refine ⟨⟨fun _ => supported, fun _ => rfl⟩, ?_, nofun⟩
    rintro loaded ⟨⟩
    exact ⟨rfl, rfl, ⟨code, rfl, typed⟩, rfl⟩
  · rw [he]
    exact ⟨⟨nofun, fun supported => absurd supported reason.not_lowerable⟩, nofun,
      fun _ => ⟨e, reason, rfl⟩⟩

end

/-- A type system that knows streams and remarks on every unit. -/
def streaming : TypeSystem where
  external? name := if name = "FILE" then some (216, 8) else none
  transform unit := (unit, [{ severity := .remark, message := "streams are external" }])

/-- A call that is checked but has no native code. -/
def printing : String :=
  "struct s \x7b f: fn(*FILE, ...), o: *FILE \x7d fn w(p: *s) \x7b p.f(p.o); \x7d"

theorem native_agrees_printing :
    (∀ unit, (Source.SourceUnit.parse printing).1 = some unit →
      (streaming.transform unit).2.errorCount = 0) ∧
    ∃ compiled reports program, layoutOnly streaming .host printing = (some compiled, reports) ∧
      checked streaming .host printing = (some program, reports) ∧
      ¬ Lowerable program.wrapper.uses ∧
      ∃ e : Machine.LoweringError, e.Reason program.wrapper.uses ∧
        native 0x600000 streaming .host printing =
          (none, reports ++ nativeReport (.unsupported e)) := by
  have silent : ∀ unit, (Source.SourceUnit.parse printing).1 = some unit →
      (streaming.transform unit).2.errorCount = 0 := fun _ _ => rfl
  have checks : (layoutOnly streaming .host printing).1.isSome := by decide +kernel
  have refused : (native 0x600000 streaming .host printing).1 = none := by decide +kernel
  obtain ⟨compiled, hcompiled⟩ := Option.isSome_iff_exists.mp checks
  have given : layoutOnly streaming .host printing =
      (some compiled, (layoutOnly streaming .host printing).2) := by
    rw [← hcompiled]
  obtain ⟨program, hchecked, -, -, hnone⟩ :=
    (native_agrees 0x600000 streaming printing silent).2 compiled _ given
  obtain ⟨e, reason, reports⟩ := hnone refused
  exact ⟨silent, compiled, _, program, given, hchecked, reason.not_lowerable, e, reason,
    Prod.ext refused reports⟩

end CallThunk.Compiler
