import CallThunk.Proofs.Call.Images
import CallThunk.Proofs.Call.Sessions

/-!
# Calls from end to end

Once arguments are written, the native code of the wrapper makes exactly one call: to the callee,
with the address of the result's slot in front if the result is a record, and with one word for each
argument, in order, as the value that was written.
-/

namespace CallThunk

open Checked
open Caller (ArgumentImage)
open Machine (Word WordTy Callees CallEvent Code)

/-! ## Code of wrappers -/

/-- Calls of variadic functions have no signature. -/
theorem not_variadic_of_machineSignature {signature : Signature} {m : Machine.CallSignature}
    (h : Machine.machineSignature signature = .ok m) : signature.variadic = false := by
  cases variadic : signature.variadic with
  | false => rfl
  | true =>
      unfold Machine.machineSignature at h
      rw [variadic] at h
      cases h

theorem not_variadic_of_genExpr {locals : List Machine.Reg} {dest : Option Machine.Reg}
    {callee : Expr} {signature : Signature} {args : List Expr} {r : Option Machine.Reg}
    {b b' : Machine.Builder}
    (h : Gives (Machine.genExpr locals dest (.call callee signature args)) b r b') :
    signature.variadic = false := by
  rw [Machine.genExpr] at h
  simp only [gives_bind, gives_liftM] at h
  obtain ⟨_, _, -, _, _, -, _, _, -, _, _, -, m, _, ⟨lowered, -⟩, -⟩ := h
  exact not_variadic_of_machineSignature lowered

/-- Wrappers of variadic functions are not lowered. -/
theorem not_variadic_of_lowered {name : String} {record : PlacedRecord} {model : StructModel}
    {code : Code} (h : Code.ofFunction ⟨name, wrapperBody record model⟩ = .ok code) :
    model.signature.variadic = false := by
  obtain ⟨⟨u, b⟩, gen, -⟩ := bind_eq_ok.mp h
  have gives : Gives (Machine.genBody [] (wrapperBody record model)) ⟨[], 1⟩ u b := gen
  unfold wrapperBody at gives
  rw [Machine.genBody] at gives
  obtain ⟨r, t, -, gives⟩ := gives_bind.mp gives
  -- however its result is kept, the call itself is lowered
  unfold keepCall at gives
  split at gives
  next slot _ =>
    split at gives
    · rw [Machine.genBody] at gives
      simp only [Checked.Expr.isCall, wrapperCall, if_true, gives_bind] at gives
      obtain ⟨_, _, -, _, _, -, _, _, call, -⟩ := gives
      exact not_variadic_of_genExpr call
    · rw [Machine.genBody] at gives
      simp only [gives_bind] at gives
      obtain ⟨_, _, -, _, _, value, -⟩ := gives
      obtain ⟨_, _, call, -⟩ := gives_bind.mp value
      exact not_variadic_of_genExpr call
  next =>
    rw [Machine.genBody] at gives
    obtain ⟨_, _, call, -⟩ := gives_bind.mp gives
    exact not_variadic_of_genExpr call

/-! ## One written call -/

/-- Argument slots convert to the parameters of a function that is not variadic. -/
theorem StructModel.Passes.converts_inputSlots {model : StructModel} (h : model.Passes)
    (variadic : model.signature.variadic = false) :
    model.arity = model.signature.params.length ∧
      List.Forall₂ (fun slot param => slot.ty.Converts param) model.inputSlots
        model.signature.params := by
  have count : model.arity = model.signature.params.length := by
    have suits := h.suits
    rw [variadic] at suits
    exact suits
  refine ⟨count, List.forall₂_iff_zip.mpr ⟨?_, fun {slot param} member => ?_⟩⟩
  · rw [length_inputSlots, count]
  · refine Ty.converts_iff.mp (h.converts (slot.ty, param) ?_)
    rw [← inputSlots_tys, List.zip_map_left]
    exact List.mem_map.mpr ⟨(slot, param), member, rfl⟩

/-- The code of a wrapper on a struct that was written. -/
theorem Caller.runs_of_written {caller : Caller} {r : Ready} {code : Code}
    {own : Target} {allocator : Debuggee.Allocator} {choice : Debuggee.CompilerChoice}
    {args : List Value} {s s' : Activation × Debuggee} {u : PUnit}
    (fresh : Debuggee.Fresh allocator) (ready : caller.status = .ready r)
    (native : caller.Native r code) (plain : caller.model.Plain)
    (written : Yields (caller.write (Debuggee.context own allocator choice) args) s u s')
    (bounded : s.2.memory.Bounded)
    (inside : s.1.structAddress.toNat + r.layout.size.toNat ≤ s.2.memory.next.toNat) :
    ∃ hidden words, args.length = caller.model.signature.params.length ∧
      r.layout.Hidden s'.1.structAddress caller.model.signature.ret hidden ∧
      List.Forall₂ (fun (p : Value × Ty) w => p.1.Arrives s'.1.sides s'.2.memory p.2 w)
        (args.zip caller.model.signature.params) words ∧
      ∀ callees : Callees, (code.run callees s'.1.structAddress s'.2.memory.contents).world =
        ⟨r.layout.keep s'.1.structAddress caller.model.signature.ret
          (callees caller.callee.address (hidden ++ words) s'.2.memory.contents),
            [⟨caller.callee.address, hidden ++ words⟩]⟩ := by
  obtain ⟨program, settles, lowered⟩ := native.lowers
  obtain ⟨unit, reports, problems, -, checked⟩ := settles.checked
  obtain ⟨accepted, rfl, layout⟩ := settles.accepted plain
  have variadic := not_variadic_of_lowered lowered
  have typed := typed_of_inferWrapper (check_eq_some.mp checked).1
  have laid := @laidOut_structRecord 8
    (WrapperSource.ofModel caller.name caller.model).structName caller.model accepted.fits
  unfold WrapperSource.checkedProgram at lowered typed
  generalize structRecord 8 (WrapperSource.ofModel caller.name caller.model).structName
    caller.model.slots = record at *
  rw [layout] at inside
  obtain ⟨bytes, arguments, images, held, carries⟩ :=
    carries_of_write (Debuggee.manages fresh own choice) (ready_eq_ok.mpr ready)
      (by rw [native.target]; exact laid) layout written bounded inside
  obtain ⟨arity, -, encoded⟩ := images_eq_ok.mp images
  rw [native.target] at encoded carries
  obtain ⟨count, converts⟩ := accepted.passes.converts_inputSlots variadic
  have loaded := @load_address _ _ r.layout.function _ _ encoded held
  rw [layout] at loaded
  obtain ⟨hidden, words, front, arrives, eval⟩ :=
    eval_wrapperBody caller.name loaded carries converts
  rw [← layout] at front eval
  refine ⟨hidden, words, arity.trans count, front, arrives, fun callees => ?_⟩
  have run := Code.run_of_wellTyped typed lowered callees s'.1.structAddress s'.2.memory.contents
  exact Option.some.inj (run.symm.trans (eval callees))

/-! ## Sessions -/

/-- A caller as it is made, by values or by signature. -/
inductive Caller.Made : Caller → Prop where
  | ofValues (name : String) (callee : Callee) (args : List Value) :
      Made (.ofValues name callee args)
  | ofSignature (name : String) (callee : Callee) : Made (.ofSignature name callee)

/-- A process with a compiler to native code. -/
inductive Debuggee.HasNative : Context Debuggee → Prop where
  | sparse (target : Target) (options : NativeOptions) :
      HasNative (Debuggee.sparse target (.native options))
  | host (options : NativeOptions) : HasNative (Debuggee.host (.native options))

/-- A session at its start, in a process that has not handed out any memory yet. -/
def Session.ofCaller (caller : Caller) (base : UInt64) (faults : Faults) (script : List Stop) :
    Session Debuggee :=
  { caller, world := { memory := .ofBase base, faults, script } }

section
variable {caller : Caller}

theorem Caller.Made.new (h : caller.Made) : caller.status = .new := by
  cases h <;> rfl

theorem Caller.Made.source_eq (h : caller.Made) :
    caller.source = .ofModel caller.name caller.model := by
  cases h <;> rfl

theorem Caller.Made.signature_eq (h : caller.Made) :
    caller.model.signature = caller.callee.signature := by
  cases h <;> rfl

theorem Caller.Made.plain (h : caller.Made) : caller.model.Plain := by
  cases h with
  | ofValues name callee args => exact StructModel.plain_ofValues callee.signature args
  | ofSignature name callee => exact StructModel.plain_ofSignature callee.signature

theorem Debuggee.HasNative.fresh {ctx : Context Debuggee} (h : Debuggee.HasNative ctx) :
    ∃ target allocator options, Debuggee.Fresh allocator ∧
      ctx = Debuggee.context target allocator (.native options) := by
  cases h with
  | sparse target options => exact ⟨target, _, options, Debuggee.fresh_sparse, rfl⟩
  | host options => exact ⟨.host, _, options, Debuggee.fresh_host, rfl⟩

/-- Every session of a caller is sound if its compiler makes native code. -/
theorem Caller.Made.sound (h : caller.Made) {base : UInt64} {faults : Faults} {script : List Stop}
    {target : Target} {allocator : Debuggee.Allocator} {options : NativeOptions}
    (fresh : Debuggee.Fresh allocator) {s : Session Debuggee}
    (reaches : Session.Reaches (Debuggee.context target allocator (.native options))
      (.ofCaller caller base faults script) s) : Session.Sound caller s :=
  reaches.sound fresh h.source_eq h.new rfl (Memory.bounded_ofBase base)

/-- An operation that is done on an activation. -/
theorem Session.yields_of_done {ω : Type} {s s' : Session ω} {index : Nat}
    {operation : Caller.OnActivation ω PUnit}
    (h : (Session.onActivation index (fun _ => .done) operation).run s = (.done, s')) :
    ∃ before after world u, some before ∈ s.activations ∧
      Yields operation (before, s.world) u (after, world) ∧ s'.caller = s.caller ∧
      s'.world = world ∧ s'.activations[index]? = some (some after) := by
  have run : Session.onActivation index (fun _ => .done) operation s = (.done, s') := h
  unfold Session.onActivation at run
  cases live : s.activations[index]?.join with
  | none =>
      rw [live] at run
      cases run
  | some before =>
      rw [live] at run
      dsimp only at run
      rcases ran : (operation.run.run (before, s.world) : Except CallError PUnit × _) with
        ⟨e | u, after, world⟩
      · rw [ran] at run
        cases run
      · rw [ran] at run
        cases run
        have found := Option.join_eq_some_iff.mp live
        refine ⟨before, after, world, u, List.mem_of_getElem? found, ran, rfl, rfl, ?_⟩
        have inside := (List.getElem?_eq_some_iff.mp found).1
        exact List.getElem?_set_self inside

/-- Whatever a session does, a write that is done leaves a struct on which the code of the wrapper
makes exactly one call, whatever the callee does: to the address of the callee, with the address of
the result's slot in front if and only if the result is a record, and then with one word for each
argument, in which it arrives. -/
theorem Session.run_of_write {ctx : Context Debuggee} (native : Debuggee.HasNative ctx)
    (made : caller.Made) (base : UInt64) (faults : Faults) (script : List Stop)
    {s s' : Session Debuggee} {index : Nat} {args : List Value}
    (reaches : Session.Reaches ctx (.ofCaller caller base faults script) s)
    (written : (Session.step ctx (.write index args)).run s = (.done, s')) :
    ∃ r code activation hidden words, s'.caller.status = .ready r ∧
      r.compiled.code = some code ∧ s'.activations[index]? = some (some activation) ∧
      args.length = caller.callee.signature.params.length ∧
      r.layout.Hidden activation.structAddress caller.callee.signature.ret hidden ∧
      List.Forall₂ (fun (p : Value × Ty) w => p.1.Arrives activation.sides s'.world.memory p.2 w)
        (args.zip caller.callee.signature.params) words ∧
      ∀ callees : Callees,
        (code.run callees activation.structAddress s'.world.memory.contents).world =
          ⟨r.layout.keep activation.structAddress caller.callee.signature.ret
            (callees caller.callee.address (hidden ++ words) s'.world.memory.contents),
              [⟨caller.callee.address, hidden ++ words⟩]⟩ := by
  obtain ⟨target, allocator, options, fresh, rfl⟩ := native.fresh
  have sound := made.sound fresh reaches
  obtain ⟨before, after, world, u, member, writes, same, rfl, kept⟩ :=
    Session.yields_of_done written
  obtain ⟨status, own⟩ := sound.caller
  obtain ⟨r, ready, inside⟩ := sound.structs before member
  obtain ⟨code, loaded⟩ := sound.native r ready
  have plain : s.caller.model.Plain := by
    rw [own]
    exact made.plain
  obtain ⟨hidden, words, count, front, arrives, runs⟩ :=
    Caller.runs_of_written fresh ready loaded plain writes sound.bounded inside
  rw [own] at count front arrives runs
  dsimp only at count front arrives runs
  rw [made.signature_eq] at count front arrives runs
  rw [← same] at ready
  exact ⟨r, code, after, hidden, words, ready, loaded.loaded, kept, count, front, arrives, runs⟩

end

theorem Session.run_compile {ω : Type} (ctx : Context ω) (s : Session ω) :
    (Session.step ctx .compile).run s =
      let compiled := (s.caller.compile ctx).run ⟨s.world, s.reports⟩
      (.errors compiled.1.1, { s with
        caller := compiled.1.2, world := compiled.2.world, reports := compiled.2.reports }) := rfl

theorem Debuggee.compile_layoutOnly (target : Target) (allocator : Allocator)
    (source : WrapperSource) (d : Debuggee) : ((context target allocator .layoutOnly).compile source).run d =
      (Compiler.layoutOnly .selfContained target source.text, d) := rfl

/-- A watched process lays out what the process it watches does. -/
theorem Watched.compile_of_process {ω : Type} {ctx : Context ω} {source : WrapperSource}
    {w : Watched ω} {outcome : Option LoadedWrapper × Diagnostics}
    (h : (ctx.compile source).run w.process = (outcome, w.process)) :
    (ctx.watched.compile source).run w = (outcome, w) := by
  show (((ctx.compile source).run w.process).1,
    { w with process := ((ctx.compile source).run w.process).2 }) = _
  rw [h]

/-- Compiling makes the caller of a session ready when its slots allow it, and nothing else. -/
theorem Session.run_compile_layoutOnly {ω : Type} {ctx : Context ω} {s : Session ω}
    (made : s.caller.Made)
    (compilable : s.caller.model.Compilable
      (WrapperSource.ofModel s.caller.name s.caller.model).structName ctx.target.pointerSize)
    (laysOut : (ctx.compile s.caller.source).run s.world =
      (Compiler.layoutOnly .selfContained ctx.target s.caller.source.text, s.world)) :
    let program := WrapperSource.checkedProgram ctx.target.pointerSize s.caller.name s.caller.model
    (Session.step ctx .compile).run s = (.errors 0, { s with
      caller := { s.caller with status := .ready ⟨⟨program.wrapper.name, 0, program.records, none⟩,
        layoutOf (structRecord ctx.target.pointerSize s.caller.source.structName
          s.caller.model.slots) s.caller.model, ctx.target⟩ }
      reports := s.reports ++
        (Compiler.layoutOnly .selfContained ctx.target s.caller.source.text).2 }) := by
  rw [Session.run_compile,
    Caller.compile_of_compilable made.new made.source_eq made.plain compilable laysOut]

/-- Compiling for the host makes the caller of a session at its start ready, when its slots allow it
and its wrapper is lowered. -/
theorem Session.run_compile_lowered {caller : Caller} (made : caller.Made)
    (compilable : caller.model.Compilable
      (WrapperSource.ofModel caller.name caller.model).structName 8) {code : Code}
    (lowered : Code.ofFunction
      (WrapperSource.checkedProgram 8 caller.name caller.model).wrapper = .ok code)
    (options : NativeOptions) (base : UInt64) (faults : Faults) (script : List Stop) :
    (Session.step (Debuggee.host (.native options)) .compile).run
        (.ofCaller caller base faults script) = (.errors 0,
      { caller := { caller with
          status := .ready ⟨⟨(WrapperSource.checkedProgram 8 caller.name caller.model).wrapper.name,
            0x600000, (WrapperSource.checkedProgram 8 caller.name caller.model).records, some code⟩,
            layoutOf (structRecord 8 caller.source.structName caller.model.slots) caller.model,
            .host⟩ }
        world := { memory := .ofBase base, faults, script, code := [(0x600000, code)] }
        reports := (Compiler.native 0x600000 .selfContained .host caller.source.text).2 }) := by
  have compiled := Caller.compile_of_lowered made.new made.source_eq made.plain compilable rfl
    lowered options { memory := .ofBase base, faults, script } []
  have entry : Debuggee.nextEntry { memory := .ofBase base, faults, script } = 0x600000 := rfl
  rw [entry] at compiled
  have step := Session.run_compile (Debuggee.host (.native options))
    (.ofCaller caller base faults script)
  unfold Session.ofCaller at step ⊢
  dsimp only at step
  rw [compiled] at step
  exact step

/-- So the caller is reached ready, with its code. -/
theorem Session.reaches_ready {caller : Caller} (made : caller.Made)
    (compilable : caller.model.Compilable
      (WrapperSource.ofModel caller.name caller.model).structName 8) {code : Code}
    (lowered : Code.ofFunction
      (WrapperSource.checkedProgram 8 caller.name caller.model).wrapper = .ok code)
    (options : NativeOptions) (base : UInt64) (faults : Faults) (script : List Stop) :
    Session.Reaches (Debuggee.host (.native options)) (.ofCaller caller base faults script)
      { caller := { caller with
          status := .ready ⟨⟨(WrapperSource.checkedProgram 8 caller.name caller.model).wrapper.name,
            0x600000, (WrapperSource.checkedProgram 8 caller.name caller.model).records, some code⟩,
            layoutOf (structRecord 8 caller.source.structName caller.model.slots) caller.model,
            .host⟩ }
        world := { memory := .ofBase base, faults, script, code := [(0x600000, code)] }
        reports := (Compiler.native 0x600000 .selfContained .host caller.source.text).2 } := by
  have reached := @Session.Reaches.step _ (Debuggee.host (.native options))
    (.ofCaller caller base faults script) _ .compile .start
  rw [Session.run_compile_lowered made compilable lowered options base faults script] at reached
  exact reached

def Outcome.isDone : Outcome → Bool
  | .done => true
  | _ => false

theorem Outcome.isDone_iff {outcome : Outcome} : outcome.isDone ↔ outcome = .done := by
  cases outcome <;> simp [Outcome.isDone]

theorem Outcome.eq_of_isDone {σ : Type} {given : Outcome × σ} (h : given.1.isDone) :
    given = (.done, given.2) := by
  obtain ⟨outcome, s⟩ := given
  cases Outcome.isDone_iff.mp h
  rfl

/-- A caller that widens its argument. -/
def wideningCaller : Caller :=
  .ofValues "f" ⟨⟨.int .i64, [.int .i64], false⟩, 0x1000⟩ [.int .i32 (-1)]

theorem compilable_widening : wideningCaller.model.Compilable
    (WrapperSource.ofModel wideningCaller.name wideningCaller.model).structName 8 := by
  have alone : wideningCaller.model.mentions = [] := by decide
  exact {
    named := by rw [alone]; nofun
    aligned := by rw [alone]; nofun
    consistent := by rw [alone]; nofun
    formed := by decide
    inhabited := by decide
    suits := by decide
    converts := by
      intro p hp
      cases List.mem_singleton.mp hp
      exact .int
    fits := by decide }

/-- The code of its wrapper. -/
def wideningCode : Code where
  instrs := [.load .i64 0 0, .load .i32 0 8, .signExtend .i64 2,
    .call ⟨[⟨.i64, .plain⟩], some ⟨.i64, .plain⟩⟩ 1 [3], .store 4 0 16, .ret]

end CallThunk
