import CallThunk.Process.Debuggee
import CallThunk.Call.Caller
import CallThunk.Proofs.Wrapper.Settling

/-!
# Compiling a caller

Compiling a new caller gives no error exactly when its wrapper is compiled without one and the
layout of its struct is recovered. With a compiler that stops after checking, this depends on the
slots of its struct alone.
-/

namespace CallThunk

namespace Caller

variable {ω : Type} {ctx : Context ω} {caller : Caller}

/-- Compiling a new caller, with what is reported behind the reports of the compiler. -/
theorem run_compile_new (new : caller.status = .new) (s : Reporting ω) :
    (caller.compile ctx).run s =
      let outcome := (ctx.compile caller.source).run s.world
      let settled := caller.settle ctx.target outcome.1.1 outcome.1.2.errorCount
      let compiled := { caller with status := settled.1 }
      ((compiled.errorCount, compiled),
        ((settled.2.forM report).run ⟨outcome.2, s.reports ++ outcome.1.2⟩).2) := by
  unfold compile
  rw [new]
  rfl

/-- What compiling a new caller gives, and what it makes of the caller. -/
theorem compile_new (new : caller.status = .new) (s : Reporting ω) :
    ((caller.compile ctx).run s).1 =
      let outcome := ((ctx.compile caller.source).run s.world).1
      let compiled := { caller with
        status := (caller.settle ctx.target outcome.1 outcome.2.errorCount).1 }
      (compiled.errorCount, compiled) :=
  congrArg Prod.fst (run_compile_new new s)

theorem settle_some (target : Target) (c : LoadedWrapper) :
    caller.settle target (some c) 0 =
      match StructLayout.recover c.records caller.source.structName caller.model
          target.pointerSize with
      | .ok layout => (.ready ⟨c, layout, target⟩, [])
      | .error e =>
        (.failed 1 (.layout e), ["cannot recover argument struct layout: " ++ e.message]) := rfl

/-- A caller becomes ready when its wrapper is compiled without errors and the layout of its struct
is recovered. -/
theorem settle_eq_ready {target : Target} {compiled : Option LoadedWrapper} {errors : Nat}
    {r : Ready} :
    (caller.settle target compiled errors).1 = .ready r ↔
      compiled = some r.compiled ∧ errors = 0 ∧ r.target = target ∧
        StructLayout.recover r.compiled.records caller.source.structName caller.model
          target.pointerSize = .ok r.layout := by
  constructor
  · intro h
    unfold settle at h
    split at h
    next c =>
      split at h
      next layout recovered =>
        cases h
        exact ⟨rfl, rfl, rfl, recovered⟩
      next => cases h
    next => cases h
    next => cases h
  · rintro ⟨rfl, rfl, rfl, recovered⟩
    rw [settle_some, recovered]

/-- A caller that does not become ready has an error. -/
theorem settle_ready_or_failed (target : Target) (compiled : Option LoadedWrapper) (errors : Nat) :
    (∃ r, (caller.settle target compiled errors).1 = .ready r) ∨
      ∃ n failure, (caller.settle target compiled errors).1 = .failed (n + 1) failure := by
  cases errors with
  | succ n => cases compiled <;> exact .inr ⟨n, _, rfl⟩
  | zero =>
      cases compiled with
      | none => exact .inr ⟨0, _, rfl⟩
      | some c =>
          rw [settle_some]
          cases StructLayout.recover c.records caller.source.structName caller.model
            target.pointerSize with
          | ok layout => exact .inl ⟨_, rfl⟩
          | error e => exact .inr ⟨0, _, rfl⟩

/-- Compiling a new caller gives no error exactly when the caller becomes ready. -/
theorem compile_eq_zero (new : caller.status = .new) (s : Reporting ω) :
    ((caller.compile ctx).run s).1.1 = 0 ↔
      ∃ r, ((caller.compile ctx).run s).1.2.status = .ready r := by
  rw [compile_new new]
  dsimp only
  unfold errorCount
  rcases @settle_ready_or_failed caller ctx.target ((ctx.compile caller.source).run s.world).1.1
    ((ctx.compile caller.source).run s.world).1.2.errorCount with ⟨r, h⟩ | ⟨n, failure, h⟩
  · rw [h]
    exact ⟨fun _ => ⟨r, rfl⟩, fun _ => rfl⟩
  · rw [h]
    exact ⟨nofun, nofun⟩

end Caller

/-! ## Checking alone -/

/-- A source is checked without errors when it is parsed and its unit is checked. -/
theorem layoutOnly_eq_some {target : Target} {source : String} {compiled : LoadedWrapper} :
    (Compiler.layoutOnly .selfContained target source).1 = some compiled ↔
      ∃ unit reports program problems, Source.SourceUnit.parse source = (some unit, reports) ∧
        Checked.check ⟨target.pointerSize, fun _ => none⟩ unit = (some program, problems) ∧
          compiled = ⟨program.wrapper.name, 0, program.records, none⟩ := by
  unfold Compiler.layoutOnly Compiler.front
  rcases Source.SourceUnit.parse source with ⟨_ | unit, reports⟩
  · exact ⟨nofun, fun ⟨_, _, _, _, parsed, _⟩ => nomatch parsed⟩
  · dsimp only [TypeSystem.selfContained]
    rcases hc : Checked.check ⟨target.pointerSize, fun _ => none⟩ unit with ⟨_ | program, problems⟩
    · constructor
      · nofun
      · rintro ⟨_, _, _, _, parsed, checked, -⟩
        cases parsed
        rw [hc] at checked
        cases checked
    · constructor
      · rintro ⟨⟩
        exact ⟨unit, reports, program, problems, rfl, hc, rfl⟩
      · rintro ⟨_, _, _, _, parsed, checked, rfl⟩
        cases parsed
        rw [hc] at checked
        cases checked
        rfl

/-- A source that is checked has no errors. -/
theorem errorCount_layoutOnly {target : Target} {source : String} {compiled : LoadedWrapper}
    (h : (Compiler.layoutOnly .selfContained target source).1 = some compiled) :
    (Compiler.layoutOnly .selfContained target source).2.errorCount = 0 := by
  obtain ⟨unit, reports, program, problems, parsed, checked, -⟩ := layoutOnly_eq_some.mp h
  obtain ⟨-, -, rfl⟩ := Source.parse_eq_some.mp parsed
  unfold Compiler.layoutOnly Compiler.front
  rw [parsed]
  dsimp only [TypeSystem.selfContained]
  rw [checked]
  exact (Checked.check_eq_some.mp checked).2

/-- A new caller becomes ready, without any code, when its model settles. -/
theorem ready_iff_settles {caller : Caller} (new : caller.status = .new)
    (source : caller.source = .ofModel caller.name caller.model) (target : Target)
    (allocator : Debuggee.Allocator) (s : Caller.Reporting Debuggee) :
    (∃ r, ((caller.compile (Debuggee.context target allocator .layoutOnly)).run s).1.2.status =
        .ready r) ↔
      ∃ program layout, Settles caller.name caller.model target.pointerSize program layout := by
  rw [Caller.compile_new new]
  show (∃ r, (caller.settle target (Compiler.layoutOnly .selfContained target caller.source.text).1
    (Compiler.layoutOnly .selfContained target caller.source.text).2.errorCount).1 = .ready r) ↔ _
  constructor
  · rintro ⟨r, ready⟩
    obtain ⟨compiled, -, -, recovered⟩ := Caller.settle_eq_ready.mp ready
    obtain ⟨unit, reports, program, problems, parsed, checked, layout⟩ :=
      layoutOnly_eq_some.mp compiled
    rw [layout, source] at recovered
    rw [source] at parsed
    exact ⟨program, r.layout, ⟨unit, reports, problems, parsed, checked⟩, recovered⟩
  · rintro ⟨program, layout, ⟨unit, reports, problems, parsed, checked⟩, recovered⟩
    have compiled : (Compiler.layoutOnly .selfContained target caller.source.text).1 =
        some ⟨program.wrapper.name, 0, program.records, none⟩ := by
      rw [source]
      exact layoutOnly_eq_some.mpr ⟨unit, reports, program, problems, parsed, checked, rfl⟩
    rw [← source] at recovered
    exact ⟨⟨_, layout, target⟩, Caller.settle_eq_ready.mpr
      ⟨compiled, errorCount_layoutOnly compiled, rfl, recovered⟩⟩

/-- A caller by values or by signature compiles without an error exactly when its slots allow it,
whatever its name, its callee and the target: the records they mention can be declared under their
names, their types can be written, the arguments suit the callee and the struct fits 32 bits. -/
theorem compile_eq_zero_iff (target : Target) (allocator : Debuggee.Allocator)
    (s : Caller.Reporting Debuggee) (name : String) (callee : Callee) (args : List Value) :
    ((((Caller.ofValues name callee args).compile
        (Debuggee.context target allocator .layoutOnly)).run s).1.1 = 0 ↔
      (StructModel.ofValues callee.signature args).Compilable
        ("__fncall_args_" ++ WrapperSource.identifierPart name) target.pointerSize) ∧
    ((((Caller.ofSignature name callee).compile
        (Debuggee.context target allocator .layoutOnly)).run s).1.1 = 0 ↔
      (StructModel.ofSignature callee.signature).Compilable
        ("__fncall_args_" ++ WrapperSource.identifierPart name) target.pointerSize) := by
  have values := @ready_iff_settles (.ofValues name callee args) rfl rfl target allocator s
  have signature := @ready_iff_settles (.ofSignature name callee) rfl rfl target allocator s
  rw [Caller.compile_eq_zero rfl, Caller.compile_eq_zero rfl, values, signature]
  exact ⟨settles_iff (StructModel.plain_ofValues callee.signature args),
    settles_iff (StructModel.plain_ofSignature callee.signature)⟩

/-- Compiling a new caller without code lays its struct out, when its slots allow it, and does
nothing else. -/
theorem Caller.compile_of_compilable {ω : Type} {ctx : Context ω} {caller : Caller}
    (new : caller.status = .new) (source : caller.source = .ofModel caller.name caller.model)
    (plain : caller.model.Plain)
    (compilable : caller.model.Compilable
      (WrapperSource.ofModel caller.name caller.model).structName ctx.target.pointerSize)
    {w : ω} (laysOut : (ctx.compile caller.source).run w =
      (Compiler.layoutOnly .selfContained ctx.target caller.source.text, w))
    (reports : Diagnostics) :
    let program := WrapperSource.checkedProgram ctx.target.pointerSize caller.name caller.model
    (caller.compile ctx).run ⟨w, reports⟩ =
      ((0, { caller with
          status := .ready ⟨⟨program.wrapper.name, 0, program.records, none⟩,
            layoutOf (structRecord ctx.target.pointerSize caller.source.structName
              caller.model.slots) caller.model, ctx.target⟩ }),
        ⟨w, reports ++
          (Compiler.layoutOnly .selfContained ctx.target caller.source.text).2⟩) := by
  intro program
  obtain ⟨_, layout, settles⟩ := (settles_iff plain).mpr compilable
  obtain ⟨-, rfl, rfl⟩ := settles.accepted plain
  obtain ⟨unit, messages, problems, parsed, checked⟩ := settles.checked
  have recovered := settles.recovered
  rw [← source] at parsed recovered
  have compiled := layoutOnly_eq_some.mpr ⟨unit, messages, program, problems, parsed, checked, rfl⟩
  rw [Caller.run_compile_new new, laysOut]
  dsimp only
  rw [compiled, errorCount_layoutOnly compiled, Caller.settle_some, recovered, source]
  rfl

/-! ## Native code -/

/-- A source is compiled to native code when it is parsed, checked and lowered, for the host. -/
theorem native_eq_some {entry : UInt64} {target : Target} {source : String}
    {compiled : LoadedWrapper} :
    (Compiler.native entry .selfContained target source).1 = some compiled ↔
      target = .host ∧ ∃ unit reports program problems code,
        Source.SourceUnit.parse source = (some unit, reports) ∧
          Checked.check ⟨target.pointerSize, fun _ => none⟩ unit = (some program, problems) ∧
            Machine.Code.ofFunction program.wrapper = .ok code ∧
              compiled = ⟨program.wrapper.name, entry, program.records, some code⟩ := by
  unfold Compiler.native Compiler.front
  rcases Source.SourceUnit.parse source with ⟨_ | unit, reports⟩
  · exact ⟨nofun, fun ⟨_, _, _, _, _, _, parsed, _⟩ => nomatch parsed⟩
  · dsimp only [TypeSystem.selfContained]
    rw [if_neg (by decide)]
    by_cases host : target = .host
    · rw [if_neg (not_not_intro host)]
      rcases hc : Checked.check ⟨target.pointerSize, fun _ => none⟩ unit with
        ⟨_ | program, problems⟩
      · constructor
        · nofun
        · rintro ⟨-, _, _, _, _, _, parsed, checked, -⟩
          cases parsed
          rw [hc] at checked
          cases checked
      · dsimp only
        cases hl : Machine.Code.ofFunction program.wrapper with
        | error e =>
            constructor
            · nofun
            · rintro ⟨-, _, _, _, _, _, parsed, checked, lowered, -⟩
              cases parsed
              rw [hc] at checked
              cases checked
              rw [hl] at lowered
              cases lowered
        | ok code =>
            constructor
            · rintro ⟨⟩
              exact ⟨host, unit, reports, program, problems, code, rfl, hc, hl, rfl⟩
            · rintro ⟨-, _, _, _, _, _, parsed, checked, lowered, rfl⟩
              cases parsed
              rw [hc] at checked
              cases checked
              rw [hl] at lowered
              cases lowered
              rfl
    · rw [if_pos host]
      exact ⟨nofun, fun h => absurd h.1 host⟩

/-- A source that is compiled to native code has no errors. -/
theorem errorCount_native {entry : UInt64} {target : Target} {source : String}
    {compiled : LoadedWrapper}
    (h : (Compiler.native entry .selfContained target source).1 = some compiled) :
    (Compiler.native entry .selfContained target source).2.errorCount = 0 := by
  obtain ⟨host, unit, reports, program, problems, code, parsed, checked, lowered, -⟩ :=
    native_eq_some.mp h
  obtain ⟨-, -, rfl⟩ := Source.parse_eq_some.mp parsed
  unfold Compiler.native Compiler.front
  rw [parsed]
  dsimp only [TypeSystem.selfContained]
  rw [if_neg (by decide), if_neg (not_not_intro host), checked]
  dsimp only
  rw [lowered]
  exact (Checked.check_eq_some.mp checked).2

/-- What is known of a caller whose wrapper was compiled to native code. -/
structure Caller.Native (caller : Caller) (r : Ready) (code : Machine.Code) : Prop where
  target : r.target = .host
  loaded : r.compiled.code = some code
  lowers : ∃ program, Settles caller.name caller.model 8 program r.layout ∧
    Machine.Code.ofFunction program.wrapper = .ok code

/-- Compiling a new caller for the host installs the code of its wrapper, when its slots allow it
and its wrapper is lowered. -/
theorem Caller.compile_of_lowered {caller : Caller} (new : caller.status = .new)
    (source : caller.source = .ofModel caller.name caller.model) (plain : caller.model.Plain)
    (compilable : caller.model.Compilable
      (WrapperSource.ofModel caller.name caller.model).structName 8)
    {program : Checked.Program} {code : Machine.Code}
    (expected : program = WrapperSource.checkedProgram 8 caller.name caller.model)
    (lowered : Machine.Code.ofFunction program.wrapper = .ok code) (options : NativeOptions)
    (d : Debuggee) (reports : Diagnostics) :
    (caller.compile (Debuggee.host (.native options))).run ⟨d, reports⟩ =
      ((0, { caller with
          status := .ready ⟨⟨program.wrapper.name, d.nextEntry, program.records, some code⟩,
            layoutOf (structRecord 8 caller.source.structName caller.model.slots) caller.model,
            .host⟩ }),
        ⟨{ d with code := (d.nextEntry, code) :: d.code }, reports ++
          (Compiler.native d.nextEntry .selfContained .host caller.source.text).2⟩) := by
  obtain ⟨_, layout, settles⟩ := (settles_iff plain).mpr compilable
  obtain ⟨-, rfl, rfl⟩ := settles.accepted plain
  obtain ⟨unit, messages, problems, parsed, checked⟩ := settles.checked
  have recovered := settles.recovered
  rw [← source] at parsed recovered
  rw [← expected] at checked recovered
  have compiled : (Compiler.native d.nextEntry .selfContained .host caller.source.text).1 =
      some ⟨program.wrapper.name, d.nextEntry, program.records, some code⟩ :=
    native_eq_some.mpr ⟨rfl, unit, messages, program, problems, code, parsed, checked, lowered, rfl⟩
  have run : ((Debuggee.host (.native options)).compile caller.source).run d =
      (Compiler.native d.nextEntry .selfContained .host caller.source.text,
        { d with code := (d.nextEntry, code) :: d.code }) := by
    show (_, d.install (Compiler.native d.nextEntry .selfContained .host caller.source.text).1) = _
    rw [compiled]
    rfl
  have settled : caller.settle (Debuggee.host (.native options)).target
      (Compiler.native d.nextEntry .selfContained .host caller.source.text).1
      (Compiler.native d.nextEntry .selfContained .host caller.source.text).2.errorCount =
        (.ready ⟨⟨program.wrapper.name, d.nextEntry, program.records, some code⟩, layoutOf
          (structRecord 8 caller.source.structName caller.model.slots) caller.model, .host⟩,
            []) := by
    rw [compiled, errorCount_native compiled, Caller.settle_some]
    show (match StructLayout.recover program.records _ _ 8 with | .ok _ => _ | .error _ => _) = _
    rw [recovered]
    rfl
  rw [Caller.run_compile_new new]
  dsimp only
  rw [run, settled]
  rfl

end CallThunk
