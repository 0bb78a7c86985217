import CallThunk.Machine.Execution
import CallThunk.Ieee.Arithmetic

/-!
# Functions of the host

The functions that can be called in the process this library runs calls in. A function takes the
bits of its arguments and the bytes of memory, and gives the bits of its result and the bytes
afterwards. Integer arithmetic wraps; float arithmetic rounds once for each operation.
-/

namespace CallThunk

open Machine (Callees)

/-- A function of the host. A record result goes to the address in the first argument. -/
structure HostFunction where
  name : String
  signature : Signature
  run : List Nat → Contents → Nat × Contents

namespace HostFunction

/-! ## Bits -/

/-- The signed number that the low bits of a word stand for. -/
def signed (width bits : Nat) : Int := (BitVec.ofNat width bits).toInt

/-- The low bits of a number. -/
def wrap (width : Nat) (z : Int) : Nat := (BitVec.ofInt width z).toNat

/-- The 64-bit integer at an address. -/
def wordAt (c : Contents) (address : Nat) : Nat :=
  ByteOrder.little.value (c.read (UInt64.ofNat address) 8)

/-- Writes 64-bit integers from an address on. -/
def writeWords (c : Contents) (address : Nat) (words : List Nat) : Contents :=
  c.write (UInt64.ofNat address) (words.flatMap (ByteOrder.little.image 8))

/-- A function of integers alone, each read with its own sign. -/
def ofInts (name : String) (ret : IntKind) (params : List IntKind) (f : List Int → Int) :
    HostFunction where
  name
  signature := ⟨.int ret, params.map .int, false⟩
  run args c :=
    let ints := args.zipWith (fun bits (kind : IntKind) =>
      if kind.isSigned then signed kind.width bits else (bits % 2 ^ kind.width : Nat)) params
    (wrap ret.width (f ints), c)

/-- A function that gives its argument back. -/
def identity (name : String) (ty : Ty) : HostFunction where
  name
  signature := ⟨ty, [ty], false⟩
  run args c := (args.headD 0, c)

/-! ## Types -/

def i8 : Ty := .int .i8
def i32 : Ty := .int .i32
def i64 : Ty := .int .i64
def u64 : Ty := .int .u64
def f32 : Ty := .float .f32
def f64 : Ty := .float .f64
def bytePointer : Ty := .pointer (.int .u8)

/-- Two floats. -/
def point : RecordTy := ⟨"Point", 16, 8⟩

/-- Three integers. -/
def triple : RecordTy := ⟨"Triple", 24, 8⟩

/-! ## The functions -/

def double : Ieee.Format := .double

/-- A single-precision pattern as a double-precision one. -/
def widen (bits : Nat) : Nat := Ieee.Format.single.convert .double (bits % 2 ^ 32)

def add : HostFunction := ofInts "add" .i32 [.i32, .i32] fun
  | [a, b] => a + b
  | _ => 0

def sub : HostFunction := ofInts "sub" .i32 [.i32, .i32] fun
  | [a, b] => a - b
  | _ => 0

/-- `a * b + c`, rounded once. -/
def mulAdd : HostFunction where
  name := "mul_add"
  signature := ⟨f64, [f64, f64, f64], false⟩
  run args c := match args with
    | [x, y, z] => (double.mulAdd x y z, c)
    | _ => (0, c)

/-- An integer scaled by a float. -/
def scale : HostFunction where
  name := "scale"
  signature := ⟨f64, [i64, f32], false⟩
  run args c := match args with
    | [n, factor] => (double.mul (double.ofInt (signed 64 n)) (widen factor), c)
    | _ => (0, c)

def isEven : HostFunction where
  name := "is_even"
  signature := ⟨.bool, [i64], false⟩
  run args c := (if args.headD 0 % 2 = 0 then 1 else 0, c)

def noop : HostFunction where
  name := "noop"
  signature := ⟨.void, [], false⟩
  run _ c := (0, c)

def identities : List HostFunction :=
  identity "id_bool" .bool ::
    ([.i8, .i16, .i32, .i64, .u8, .u16, .u32, .u64].map fun kind : IntKind =>
      identity ("id_" ++ kind.name) (.int kind)) ++
    [identity "id_f32" f32, identity "id_f64" f64, identity "id_ptr" bytePointer]

/-- `(a + b) + c * d`. -/
def mix : HostFunction where
  name := "mix"
  signature := ⟨f64, [i8, .int .u16, f32, f64], false⟩
  run args m := match args with
    | [a, b, c, d] =>
      let sum := double.add (double.ofInt (signed 8 a)) (double.ofInt ((b % 2 ^ 16 : Nat)))
      (double.add sum (double.mul (widen c) d), m)
    | _ => (0, m)

/-- Each argument times its position, counted from one, summed. -/
def sum10 : HostFunction := ofInts "sum10" .i64 (List.replicate 10 .i64) fun ints =>
  (ints.mapIdx fun i z => ((i : Int) + 1) * z).foldl (· + ·) 0

/-- The clamped integer part of a float. -/
def truncate (bits : Nat) : Int := double.toInt (-(2 ^ 63)) (2 ^ 63 - 1) bits

/-- A digest of twelve arguments, more than registers hold. -/
def stack12 : HostFunction where
  name := "stack12"
  signature := ⟨i64, [i8, f32, .int .u8, f64, .int .i16, .int .u16, i32, .int .u32, i64, u64, .bool,
    i8], false⟩
  run args m := match args with
    | [a, b, c, d, e, f, g, h, i, j, k, l] =>
      let parts : List Int :=
        [signed 8 a, (c % 2 ^ 8 : Nat), signed 16 e, (f % 2 ^ 16 : Nat), signed 32 g,
          (h % 2 ^ 32 : Nat), signed 64 i, signed 64 j, (k % 2 ^ 8 : Nat), signed 8 l,
          truncate (widen b), truncate d]
      (parts.foldl (fun acc x => wrap 64 (acc * 31 + x)) 7, m)
    | _ => (0, m)

/-- The sum of the bytes of a buffer. -/
def sumBytes : HostFunction where
  name := "sum_bytes"
  signature := ⟨u64, [bytePointer, u64], false⟩
  run args c := match args with
    | [address, n] =>
      let bytes := c.read (UInt64.ofNat address) n
      (bytes.foldl (fun acc b => acc + b.toNat) 0 % 2 ^ 64, c)
    | _ => (0, c)

/-- Fills a buffer with consecutive bytes. -/
def fill : HostFunction where
  name := "fill"
  signature := ⟨.void, [bytePointer, u64, .int .u8], false⟩
  run args c := match args with
    | [address, n, b] =>
      (0, c.write (UInt64.ofNat address) ((List.range n).map fun i => UInt8.ofNat (b + i)))
    | _ => (0, c)

/-- The square of a point's distance from the origin. -/
def norm2 : HostFunction where
  name := "norm2"
  signature := ⟨f64, [.pointer (.record point)], false⟩
  run args c :=
    let x := wordAt c (args.headD 0)
    let y := wordAt c (args.headD 0 + 8)
    (double.add (double.mul x x) (double.mul y y), c)

def negate8 : HostFunction := ofInts "negate8" .i8 [.i8] fun ints => -ints.headD 0

def not : HostFunction where
  name := "not"
  signature := ⟨.bool, [.bool], false⟩
  run args c := (1 - args.headD 0 % 256, c)

/-- Three multiples of a number. -/
def spread : HostFunction where
  name := "spread"
  signature := ⟨.record triple, [i64], false⟩
  run args c := match args with
    | [dest, n] =>
      let s := signed 64 n
      (0, writeWords c dest [wrap 64 s, wrap 64 (2 * s), wrap 64 (-s)])
    | _ => (0, c)

/-- Two integers and the bits of a float. -/
def spread4 : HostFunction where
  name := "spread4"
  signature := ⟨.record triple, [i32, i8, f64], false⟩
  run args m := match args with
    | [dest, a, b, c] =>
      (0, writeWords m dest [wrap 64 (signed 32 a), wrap 64 (signed 8 b), c])
    | _ => (0, m)

/-- The functions that call no others. -/
def simple : List HostFunction :=
  [add, sub, mulAdd, scale, isEven, noop] ++ identities ++
    [mix, sum10, stack12, sumBytes, fill, norm2, negate8, not, spread, spread4]

/-- The address of the function at a position. -/
def addressOf (index : Nat) : UInt64 := UInt64.ofNat (0x400000 + 16 * index)

/-- The function at an address among functions. -/
def find? (functions : List HostFunction) (address : UInt64) : Option HostFunction :=
  (functions.zipIdx.find? fun (_, i) => addressOf i = address).map Prod.fst

/-- `f (x, x + 1)` for a function `f` given by its address. -/
def apply : HostFunction where
  name := "apply"
  signature := ⟨i32, [.function i32 [i32, i32] false, i32], false⟩
  run args c := match args with
    | [f, x] =>
      match find? simple (UInt64.ofNat f) with
      | some callee => callee.run [x, wrap 32 (signed 32 x + 1)] c
      | none => (0, c)
    | _ => (0, c)

/-- All functions of the host. -/
def all : List HostFunction := simple ++ [apply]

/-- A function of the host as something to call. -/
def callee (f : HostFunction) : Callee :=
  ⟨f.signature, addressOf (all.findIdx (·.name = f.name))⟩

/-- The callee of a function's name. -/
def callee? (name : String) : Option Callee := (all.find? (·.name = name)).map callee

/-- What code finds behind the addresses it calls; nothing happens elsewhere. -/
def callees : Callees := fun target words contents =>
  match find? all target with
  | some f => f.run (words.map (·.bits)) contents
  | none => (0, contents)

end HostFunction

end CallThunk
