import CallThunk.Machine.Execution
import Mathlib.Data.List.Forall2

/-!
# Typing of straight-line code

The rules that a code generator holds code to: an operand is a value defined before and has the type
that the instruction asks for, the arguments of a call match its signature, offsets fit 32 signed
bits, and the one return stands at the end. Typed code defines values of the types it is typed with,
whatever its callees do.
-/

namespace CallThunk.Machine

def WordTy.isInt : WordTy → Bool
  | i8 | i16 | i32 | i64 => true
  | f32 | f64 => false

/-- An instruction is typed by the types of the values before it; the values that it defines have
types of their own. A return is not typed: it only ends code. -/
inductive InstrTyped (types : List WordTy) : Instr → (defined : List WordTy) → Prop where
  | addImm {base : Reg} {amount : Nat} (address : types[base]? = some .i64) :
      InstrTyped types (.addImm base amount) [.i64]
  | load {ty : WordTy} {base : Reg} {offset : Nat} (address : types[base]? = some .i64)
      (near : offset < 2 ^ 31) : InstrTyped types (.load ty base offset) [ty]
  | store {ty : WordTy} {value base : Reg} {offset : Nat} (stored : types[value]? = some ty)
      (address : types[base]? = some .i64) (near : offset < 2 ^ 31) :
      InstrTyped types (.store value base offset) []
  | signExtend {source ty : WordTy} {value : Reg} (operand : types[value]? = some source)
      (ints : source.isInt ∧ ty.isInt) (wider : source.bytes < ty.bytes) :
      InstrTyped types (.signExtend ty value) [ty]
  | zeroExtend {source ty : WordTy} {value : Reg} (operand : types[value]? = some source)
      (ints : source.isInt ∧ ty.isInt) (wider : source.bytes < ty.bytes) :
      InstrTyped types (.zeroExtend ty value) [ty]
  | reduce {source ty : WordTy} {value : Reg} (operand : types[value]? = some source)
      (ints : source.isInt ∧ ty.isInt) (narrower : ty.bytes < source.bytes) :
      InstrTyped types (.reduce ty value) [ty]
  | call {signature : CallSignature} {callee : Reg} {args : List Reg}
      (target : types[callee]? = some .i64)
      (passed : List.Forall₂ (fun r p => types[r]? = some p.ty) args signature.params) :
      InstrTyped types (.call signature callee args) (signature.result.toList.map Param.ty)

/-- Instructions are typed one after another, from the address that code runs on; with the types of
all values behind them. -/
inductive InstrsTyped : List Instr → List WordTy → Prop where
  | nil : InstrsTyped [] [.i64]
  | snoc {is : List Instr} {i : Instr} {types defined : List WordTy} (before : InstrsTyped is types)
      (last : InstrTyped types i defined) : InstrsTyped (is ++ [i]) (types ++ defined)

/-- Code is well typed: its instructions are, up to the return at its end. -/
def Code.WellTyped (code : Code) : Prop :=
  ∃ is types, code.instrs = is ++ [.ret] ∧ InstrsTyped is types

/-! ## Runs of typed code -/

section
variable {callees : Callees} {f : Frame} {i : Instr} {is : List Instr} {types defined : List WordTy}

/-- An instruction adds values of the types that it defines. -/
theorem InstrTyped.types_run (h : InstrTyped types i defined) (hf : f.values.map Word.ty = types) :
    (i.run callees f).values.map Word.ty = types ++ defined := by
  cases h with
  | addImm | load | signExtend | zeroExtend | reduce | store =>
      simp [Instr.run, Frame.define, Word.ofAddress, Word.ofImage, Word.signExtend, WordTy.word, hf]
  | @call signature =>
      obtain ⟨params, result⟩ := signature
      cases result <;> simp [Instr.run, Frame.define, WordTy.word, hf]

theorem InstrTyped.ne_ret (h : InstrTyped types i defined) : i ≠ .ret := by
  cases h <;> nofun

/-- Typed instructions run to their end, and code behind them runs next. -/
theorem InstrsTyped.runInstrs_append (h : InstrsTyped is types) (f : Frame) (rest : List Instr) :
    runInstrs callees f (is ++ rest) = runInstrs callees (runInstrs callees f is) rest := by
  induction h generalizing rest with
  | nil => rfl
  | snoc _ last ih =>
      rw [List.append_assoc, ih, ih, List.singleton_append, runInstrs_cons last.ne_ret,
        runInstrs_cons last.ne_ret]
      rfl

theorem InstrsTyped.types_run (h : InstrsTyped is types) (param : UInt64) (contents : Contents) :
    (runInstrs callees ⟨[.ofAddress param], contents, []⟩ is).values.map Word.ty = types := by
  induction h with
  | nil => rfl
  | snoc before last ih =>
      rw [before.runInstrs_append, runInstrs_cons last.ne_ret]
      exact last.types_run ih

/-- Typed code ends with values of the types that it is typed with. -/
theorem Code.WellTyped.types_run {code : Code} (h : code.WellTyped) :
    ∃ types : List WordTy, ∀ callees param contents,
      (code.run callees param contents).values.map Word.ty = types := by
  obtain ⟨is, types, code_eq, typed⟩ := h
  refine ⟨types, fun callees param contents => ?_⟩
  rw [Code.run, code_eq, typed.runInstrs_append]
  exact typed.types_run param contents

end

end CallThunk.Machine
