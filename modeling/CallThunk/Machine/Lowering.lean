import CallThunk.Checked.Tree
import CallThunk.Machine.Code
import CallThunk.Ty.Printer

/-!
# Lowering checked bodies

A checked body becomes straight-line code, statement by statement and each expression from left to
right: bases before values, callees before arguments. Not everything can be lowered: calls of
variadic functions, results of records that fit in registers, and offsets beyond 2^31 - 1 are
refused.
-/

namespace CallThunk.Machine

/-- Why a body has no code. -/
inductive LoweringError where
  | offsetTooLarge (offset : UInt32)
  | noValue (ty : Ty)
  | undefinedLocal (index : Nat)
  | notCall (ty : Ty)
  | discardedRecord (record : String)
  | variadicCall
  | recordInRegisters (record : String) (size : UInt32)
  | noConversion (source target : Ty)
  | notWord (ty : Ty)
  deriving DecidableEq

/-- Aggregates up to this size may come back in registers; larger ones come back through memory. -/
def registerResultLimit : UInt32 := 16

open Numeral in
def LoweringError.message : LoweringError → String
  | offsetTooLarge offset => "field offset " ++ decimal offset.toNat ++ " is too large"
  | noValue ty => "`" ++ ty.text ++ "` has no value"
  | undefinedLocal index => "local " ++ decimal index ++ " used before definition"
  | notCall ty => "`" ++ ty.text ++ "` is not a call"
  | discardedRecord record => "discarding a returned `" ++ record ++ "`"
  | variadicCall => "calls to variadic functions"
  | recordInRegisters record size =>
    "returning `" ++ record ++ "` by value: " ++ decimal size.toNat ++
      " bytes fit in registers, only aggregates over " ++ decimal registerResultLimit.toNat ++
      " bytes are returned through memory"
  | noConversion source target =>
    "conversion from `" ++ source.text ++ "` to `" ++ target.text ++ "`"
  | notWord ty => "values of type `" ++ ty.text ++ "`"

/-- The code so far, with the number of the next value. -/
structure Builder where
  instrs : List Instr
  next : Reg

abbrev Lower := StateT Builder (Except LoweringError)

/-- Adds an instruction without a result. -/
def emit (i : Instr) : Lower PUnit :=
  modify fun b => { b with instrs := b.instrs ++ [i] }

/-- Adds an instruction that defines a value. -/
def define (i : Instr) : Lower Reg := do
  let r := (← get).next
  modify fun b => ⟨b.instrs ++ [i], r + 1⟩
  return r

/-- A value that must be there. -/
def require (ty : Ty) : Option Reg → Lower Reg
  | some r => pure r
  | none => throw (.noValue ty)

/-! ## Types and signatures -/

def intWord : IntKind → WordTy
  | .i8 | .u8 => .i8
  | .i16 | .u16 => .i16
  | .i32 | .u32 => .i32
  | .i64 | .u64 => .i64

def floatWord : FloatKind → WordTy
  | .f32 => .f32
  | .f64 => .f64

/-- The type of the values of a semantic type, on a target with 64-bit pointers. -/
def wordTy : Ty → Except LoweringError WordTy
  | .bool => .ok .i8
  | .int kind => .ok (intWord kind)
  | .float kind => .ok (floatWord kind)
  | .pointer _ | .function .. => .ok .i64
  | ty@.void | ty@(.record _) => .error (.notWord ty)

/-- Integers narrower than 32 bits are widened. -/
def passing : Ty → Passing
  | .bool => .zeroExtended
  | .int kind =>
    if kind.bytes < 4 then if kind.isSigned then .signExtended else .zeroExtended else .plain
  | _ => .plain

def param (ty : Ty) : Except LoweringError Param := do
  return ⟨← wordTy ty, passing ty⟩

/-- The signature of a call; a record result is written through a pointer in front of the other
parameters. -/
def machineSignature (s : Signature) : Except LoweringError CallSignature := do
  if s.variadic then
    throw .variadicCall
  match s.ret with
  | .void => return ⟨← s.params.mapM param, none⟩
  | .record r =>
    if registerResultLimit < r.size then
      return ⟨⟨.i64, .resultPointer⟩ :: (← s.params.mapM param), none⟩
    throw (.recordInRegisters r.name r.size)
  | ret =>
    let result ← param ret
    return ⟨← s.params.mapM param, some result⟩

/-- A field offset as an instruction holds it. -/
def fieldOffset (offset : UInt32) : Except LoweringError Nat :=
  if offset.toNat < 2 ^ 31 then .ok offset.toNat else .error (.offsetTooLarge offset)

/-! ## Expressions -/

/-- Converts between integers, by widening with the sign of the source or by dropping high bits, or
between addresses, which needs no instruction. -/
def convert (value : Reg) (source target : Ty) : Lower Reg :=
  match source, target with
  | .int a, .int b =>
    if a.bytes < b.bytes then
      if a.isSigned then define (.signExtend (intWord b) value)
      else define (.zeroExtend (intWord b) value)
    else if b.bytes < a.bytes then define (.reduce (intWord b) value)
    else pure value
  | .pointer _, .pointer _ | .pointer _, .function .. | .function .., .pointer _
  | .function .., .function .. => pure value
  | _, _ => throw (.noConversion source target)

/-- The hidden argument of a call: where its record result goes. -/
def resultPointer (ret : Ty) (dest : Option Reg) : Lower (List Reg) :=
  match ret, dest with
  | .record _, some dest => pure [dest]
  | .record r, none => throw (.discardedRecord r.name)
  | _, _ => pure []

/-- Adds the call itself; its result is there when the signature has one. -/
def emitCall (signature : CallSignature) (callee : Reg) (args : List Reg) : Lower (Option Reg) := do
  if signature.result.isSome then
    return some (← define (.call signature callee args))
  emit (.call signature callee args)
  return none

mutual
/-- Lowers an expression; a call with a record result leaves it at `dest`. -/
def genExpr (locals : List Reg) (dest : Option Reg) : Checked.Expr → Lower (Option Reg)
  | .param _ => return some 0
  | .localVar _ index =>
    match locals[index]? with
    | some r => return some r
    | none => throw (.undefinedLocal index)
  | .load ty base offset => do
    let address ← require base.ty (← genExpr locals none base)
    let word ← wordTy ty
    let offset ← fieldOffset offset
    return some (← define (.load word address offset))
  | .convert ty inner => do
    let value ← require inner.ty (← genExpr locals none inner)
    return some (← convert value inner.ty ty)
  | .call callee signature args => do
    let target ← require callee.ty (← genExpr locals none callee)
    let hidden ← resultPointer signature.ret dest
    let values ← genArgs locals args
    let s ← machineSignature signature
    emitCall s target (hidden ++ values)
/-- Lowers arguments from left to right. -/
def genArgs (locals : List Reg) : List Checked.Expr → Lower (List Reg)
  | [] => return []
  | arg :: args => do
    let r ← require arg.ty (← genExpr locals none arg)
    let rs ← genArgs locals args
    return r :: rs
end

/-- Lowers an expression that must have a value. -/
def genValue (locals : List Reg) (e : Checked.Expr) : Lower Reg := do
  require e.ty (← genExpr locals none e)

/-- The address of a field that a record result goes to. -/
def fieldAddress (base : Reg) (offset : UInt32) : Lower Reg :=
  if offset = 0 then pure base else define (.addImm base offset.toNat)

/-- Lowers statements up to a return. -/
def genBody (locals : List Reg) : List Checked.Stmt → Lower PUnit
  | [] => emit .ret
  | .bind _ init :: stmts => do
    let r ← genValue locals init
    genBody (locals ++ [r]) stmts
  | .store base offset value :: stmts => do
    let address ← genValue locals base
    let r ← genValue locals value
    let offset ← fieldOffset offset
    emit (.store r address offset)
    genBody locals stmts
  | .storeCall base offset call :: stmts => do
    let address ← genValue locals base
    let dest ← fieldAddress address offset
    unless call.isCall do
      throw (.notCall call.ty)
    let _ ← genExpr locals (some dest) call
    genBody locals stmts
  | .eval e :: stmts => do
    let _ ← genExpr locals none e
    genBody locals stmts
  | .ret :: _ => emit .ret

/-- The code of a checked wrapper. -/
def Code.ofFunction (wrapper : Checked.Function) : Except LoweringError Code := do
  let (_, b) ← (genBody [] wrapper.body).run ⟨[], 1⟩
  return ⟨b.instrs⟩

end CallThunk.Machine
