import CallThunk.Numeral

/-!
# Straight-line code

The code of a wrapper is a list of instructions over typed values. Value 0 is the parameter, and
each instruction that has a result defines the next value. Calls are indirect, each with a signature
of its own; small integers are passed widened to a register as the signature says.

`Code.text` writes code as a listing.
-/

namespace CallThunk.Machine

/-- The types of values. -/
inductive WordTy where
  | i8 | i16 | i32 | i64 | f32 | f64
  deriving DecidableEq

namespace WordTy

/-- Width in bytes. -/
def bytes : WordTy → Nat
  | i8 => 1
  | i16 => 2
  | i32 | f32 => 4
  | i64 | f64 => 8

def text : WordTy → String
  | i8 => "i8"
  | i16 => "i16"
  | i32 => "i32"
  | i64 => "i64"
  | f32 => "f32"
  | f64 => "f64"

end WordTy

/-- How a parameter or result is passed. -/
inductive Passing where
  | plain
  /-- An integer, sign-extended to a register. -/
  | signExtended
  /-- An integer, zero-extended to a register. -/
  | zeroExtended
  /-- The address at which the callee leaves a record result. -/
  | resultPointer
  deriving DecidableEq

structure Param where
  ty : WordTy
  passing : Passing
  deriving DecidableEq

/-- The signature of one call. -/
structure CallSignature where
  params : List Param
  result : Option Param
  deriving DecidableEq

/-- Values are named by their number. -/
abbrev Reg := Nat

inductive Instr where
  /-- Defines `base + amount`. -/
  | addImm (base : Reg) (amount : Nat)
  /-- Defines the value at `base + offset`. -/
  | load (ty : WordTy) (base : Reg) (offset : Nat)
  | store (value base : Reg) (offset : Nat)
  | signExtend (ty : WordTy) (value : Reg)
  | zeroExtend (ty : WordTy) (value : Reg)
  /-- Defines the low bits of a value. -/
  | reduce (ty : WordTy) (value : Reg)
  /-- Calls the code at the address in `callee`; defines the result if the signature has one. -/
  | call (signature : CallSignature) (callee : Reg) (args : List Reg)
  | ret
  deriving DecidableEq

/-- Whether an instruction defines a value. -/
def Instr.defines : Instr → Bool
  | addImm .. | load .. | signExtend .. | zeroExtend .. | reduce .. => true
  | call signature _ _ => signature.result.isSome
  | store .. | ret => false

/-- The code of a wrapper. -/
structure Code where
  instrs : List Instr
  deriving DecidableEq

/-! ## Listing -/

/-- Groups of four hexadecimal digits, joined by underscores; leading groups of zeros are left
out. -/
def groupedHex (n : Nat) : String :=
  let groups := List.range (((Nat.toDigits 16 n).length + 3) / 4)
  "0x" ++ String.intercalate "_"
    (groups.reverse.map fun i => Numeral.hexPadded 4 (n / 65536 ^ i % 65536))

/-- Small numbers are written in decimal. -/
def immediate (n : Nat) : String := if n < 10000 then Numeral.decimal n else groupedHex n

/-- An offset behind a base; none is written for zero. -/
def offsetText (n : Nat) : String := if n = 0 then "" else "+" ++ immediate n

def regText (r : Reg) : String := "v" ++ Numeral.decimal r

def Param.text (p : Param) : String :=
  p.ty.text ++
    match p.passing with
    | .plain => ""
    | .signExtended => " sext"
    | .zeroExtended => " uext"
    | .resultPointer => " sret"

def CallSignature.text (s : CallSignature) : String :=
  "(" ++ String.intercalate ", " (s.params.map Param.text) ++ ")" ++
    (match s.result with
    | some result => " -> " ++ result.text
    | none => "") ++ " system_v"

/-- One instruction, given the number of its call among the calls. -/
def Instr.text (callIndex : Nat) : Instr → String
  | addImm base amount => "iadd_imm " ++ regText base ++ ", " ++ immediate amount
  | load ty base offset =>
    "load." ++ ty.text ++ " notrap aligned " ++ regText base ++ offsetText offset
  | store value base offset =>
    "store notrap aligned " ++ regText value ++ ", " ++ regText base ++ offsetText offset
  | signExtend ty value => "sextend." ++ ty.text ++ " " ++ regText value
  | zeroExtend ty value => "uextend." ++ ty.text ++ " " ++ regText value
  | reduce ty value => "ireduce." ++ ty.text ++ " " ++ regText value
  | call _ callee args =>
    "call_indirect sig" ++ Numeral.decimal callIndex ++ ", " ++ regText callee ++ "(" ++
      String.intercalate ", " (args.map regText) ++ ")"
  | ret => "return"

/-- The lines of instructions, from the next value and the next call on. -/
def listing : (next callIndex : Nat) → List Instr → List String
  | _, _, [] => []
  | next, callIndex, i :: is =>
    let line := "    " ++ (if i.defines then regText next ++ " = " else "") ++ i.text callIndex
    let isCall := match i with
      | .call .. => true
      | _ => false
    line :: listing (if i.defines then next + 1 else next)
      (if isCall then callIndex + 1 else callIndex) is

namespace Code

/-- The signatures of the calls, in order. -/
def signatures (code : Code) : List CallSignature :=
  code.instrs.filterMap fun
    | .call signature _ _ => some signature
    | _ => none

def text (code : Code) : String :=
  let declarations := code.signatures.mapIdx fun i s =>
    "    sig" ++ Numeral.decimal i ++ " = " ++ s.text
  let header := "function u0:0(i64) system_v \x7b" :: declarations ++
    (if declarations.isEmpty then [] else [""])
  let lines := header ++ "block0(v0: i64):" :: listing 1 0 code.instrs ++ ["\x7d"]
  String.join (lines.map (· ++ "\n"))

end Code

end CallThunk.Machine
