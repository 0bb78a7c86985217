import CallThunk.Machine.Code
import CallThunk.Process.Memory
import CallThunk.Target

/-!
# Running straight-line code

Code runs on the bytes of memory, little-endian. What is called is a parameter: a callee may change
memory in any way and gives the bits of its result. The run keeps the calls it made, in order.
-/

namespace CallThunk.Machine

/-- The bits of a value, with its type. -/
structure Word where
  ty : WordTy
  bits : Nat
  deriving DecidableEq

namespace WordTy

/-- The word of the low bits of a number. -/
def word (ty : WordTy) (n : Nat) : Word := ⟨ty, n % 256 ^ ty.bytes⟩

end WordTy

namespace Word

def address (w : Word) : UInt64 := UInt64.ofNat w.bits

def ofAddress (a : UInt64) : Word := ⟨.i64, a.toNat⟩

/-- The signed number that a word stands for. -/
def signed (w : Word) : Int :=
  if 2 * w.bits < 256 ^ w.ty.bytes then w.bits else (w.bits : Int) - (256 ^ w.ty.bytes : Nat)

/-- The same signed number in another width. -/
def signExtend (ty : WordTy) (w : Word) : Word :=
  ⟨ty, (w.signed % (256 ^ ty.bytes : Nat)).toNat⟩

def image (w : Word) : List UInt8 := ByteOrder.little.image w.ty.bytes w.bits

def ofImage (ty : WordTy) (bytes : List UInt8) : Word := ⟨ty, ByteOrder.little.value bytes⟩

end Word

/-- What is behind the addresses that code calls: the words received and memory before, the bits of
the result and memory after. -/
abbrev Callees := (target : UInt64) → List Word → Contents → Nat × Contents

/-- One call that was made. -/
structure CallEvent where
  target : UInt64
  args : List Word
  deriving DecidableEq

/-- The state of a run. -/
structure Frame where
  /-- The values defined so far, the parameter first. -/
  values : List Word
  contents : Contents
  calls : List CallEvent

namespace Frame

def value (f : Frame) (r : Reg) : Word := f.values.getD r ⟨.i64, 0⟩

def define (f : Frame) (w : Word) : Frame := { f with values := f.values ++ [w] }

/-- The address `offset` bytes behind a base. -/
def addressAt (f : Frame) (base : Reg) (offset : Nat) : UInt64 :=
  (f.value base).address + UInt64.ofNat offset

end Frame

/-- The effect of one instruction. -/
def Instr.run (callees : Callees) (f : Frame) : Instr → Frame
  | addImm base amount => f.define (.ofAddress (f.addressAt base amount))
  | load ty base offset =>
    f.define (.ofImage ty (f.contents.read (f.addressAt base offset) ty.bytes))
  | store value base offset =>
    { f with contents := f.contents.write (f.addressAt base offset) (f.value value).image }
  | signExtend ty value => f.define ((f.value value).signExtend ty)
  | zeroExtend ty value => f.define (ty.word (f.value value).bits)
  | reduce ty value => f.define (ty.word (f.value value).bits)
  | call signature callee args =>
    let target := (f.value callee).address
    let words := args.map f.value
    let (bits, contents) := callees target words f.contents
    let f := { f with contents, calls := f.calls ++ [⟨target, words⟩] }
    match signature.result with
    | some result => f.define (result.ty.word bits)
    | none => f
  | ret => f

/-- Runs instructions up to a return. -/
def runInstrs (callees : Callees) : Frame → List Instr → Frame
  | f, [] => f
  | f, .ret :: _ => f
  | f, i :: is => runInstrs callees (i.run callees f) is

theorem runInstrs_cons {callees : Callees} {f : Frame} {i : Instr} (h : i ≠ .ret)
    (is : List Instr) : runInstrs callees f (i :: is) = runInstrs callees (i.run callees f) is := by
  cases i with
  | ret => exact absurd rfl h
  | addImm | load | store | signExtend | zeroExtend | reduce | call => rfl

/-- Runs code on an address. -/
def Code.run (callees : Callees) (code : Code) (param : UInt64) (contents : Contents) : Frame :=
  runInstrs callees ⟨[.ofAddress param], contents, []⟩ code.instrs

end CallThunk.Machine
