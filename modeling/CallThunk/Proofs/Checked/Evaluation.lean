import CallThunk.Checked.Tree
import CallThunk.Machine.Execution
import CallThunk.Value.Basic

/-!
# Evaluating checked bodies

What a checked body means, read off its tree and without any code: expressions are evaluated from
left to right on the bytes of memory, and calls are kept in the order in which they are made.
Integers convert as numbers. Evaluation is stuck where a value is missing; typed bodies never are.
-/

namespace CallThunk

open Machine (WordTy Word Callees CallEvent)

/-- The words that hold the values of a type, for 64-bit pointers. -/
def Ty.word? : Ty → Option WordTy
  | .bool | .int .i8 | .int .u8 => some .i8
  | .int .i16 | .int .u16 => some .i16
  | .int .i32 | .int .u32 => some .i32
  | .int .i64 | .int .u64 | .pointer _ | .function .. => some .i64
  | .float .f32 => some .f32
  | .float .f64 => some .f64
  | .void | .record _ => none

namespace Checked

/-- What evaluation changes: memory, and the calls made so far. -/
structure World where
  contents : Contents
  calls : List CallEvent

/-- Evaluation changes the world, and it may be stuck. -/
abbrev Eval := StateT World Option

/-- What the leaves of a body stand for: the address that the wrapper takes and its locals. -/
structure Bindings where
  param : UInt64
  locals : List Word

/-- The pattern of an integer of one kind as one of another: the same number modulo its width. -/
def castInt (source target : IntKind) (bits : Nat) : Nat :=
  (Value.intValue source (BitVec.ofNat source.width bits) % 2 ^ target.width).toNat

/-- A word converted between integers, or between types that denote addresses. -/
def convertWord (source target : Ty) (w : Word) : Option Word :=
  match source, target with
  | .int a, .int b => (Ty.int b).word?.map (⟨·, castInt a b w.bits⟩)
  | .pointer _, .pointer _ | .pointer _, .function .. | .function .., .pointer _
  | .function .., .function .. => some w
  | _, _ => none

/-- The address `offset` bytes behind the one in a word. -/
def fieldOf (base : Word) (offset : UInt32) : UInt64 := base.address + offset.toUInt64

/-- What comes in front of the arguments of a call: where its record result goes. -/
def hiddenArgs (ret : Ty) (dest : Option UInt64) : Option (List Word) :=
  match ret, dest with
  | .record _, some dest => some [.ofAddress dest]
  | .record _, none => none
  | _, _ => some []

section
variable (callees : Callees)

/-- Calls the code at an address; there is a value unless the result type has none. -/
def invoke (target : UInt64) (ret : Ty) (args : List Word) : Eval (Option Word) := fun s =>
  let result := callees target args s.contents
  some (ret.word?.map (·.word result.1), ⟨result.2, s.calls ++ [⟨target, args⟩]⟩)

mutual
/-- Evaluates an expression; a call with a record result leaves it at `dest`. -/
def evalExpr (bindings : Bindings) (dest : Option UInt64) : Expr → Eval (Option Word)
  | .param _ => return some (.ofAddress bindings.param)
  | .localVar _ index => do
    let w ← (bindings.locals[index]? : Option Word)
    return some w
  | .load ty base offset => do
    let address ← (← evalExpr bindings none base : Option Word)
    let word ← (ty.word? : Option WordTy)
    return some (.ofImage word ((← get).contents.read (fieldOf address offset) word.bytes))
  | .convert ty inner => do
    let value ← (← evalExpr bindings none inner : Option Word)
    let w ← convertWord inner.ty ty value
    return some w
  | .call callee signature args => do
    let target ← (← evalExpr bindings none callee : Option Word)
    let hidden ← hiddenArgs signature.ret dest
    let values ← evalArgs bindings args
    invoke callees target.address signature.ret (hidden ++ values)
/-- Evaluates arguments from left to right. -/
def evalArgs (bindings : Bindings) : List Expr → Eval (List Word)
  | [] => return []
  | arg :: args => do
    let value ← (← evalExpr bindings none arg : Option Word)
    let values ← evalArgs bindings args
    return value :: values
end

/-- Evaluates an expression that must have a value. -/
def evalValue (bindings : Bindings) (e : Expr) : Eval Word := do
  let value ← (← evalExpr callees bindings none e : Option Word)
  return value

/-- Evaluates statements up to a return. A `let` binds the next local, which no later one changes;
checking has led every name to its latest binding. -/
def evalBody (bindings : Bindings) : List Stmt → Eval PUnit
  | [] => return ()
  | .bind index init :: stmts => do
    let value ← evalValue callees bindings init
    if index = bindings.locals.length then
      evalBody { bindings with locals := bindings.locals ++ [value] } stmts
    else failure
  | .store base offset value :: stmts => do
    let address ← evalValue callees bindings base
    let value ← evalValue callees bindings value
    modify fun s => { s with contents := s.contents.write (fieldOf address offset) value.image }
    evalBody bindings stmts
  | .storeCall base offset call :: stmts => do
    let address ← evalValue callees bindings base
    let _ ← evalExpr callees bindings (some (fieldOf address offset)) call
    evalBody bindings stmts
  | .eval e :: stmts => do
    let _ ← evalExpr callees bindings none e
    evalBody bindings stmts
  | .ret :: _ => return ()

/-- Evaluates the body of a wrapper on an address. -/
def Function.eval (wrapper : Function) (param : UInt64) (contents : Contents) : Option World :=
  ((evalBody callees ⟨param, []⟩ wrapper.body).run ⟨contents, []⟩).map Prod.snd

end

/-! ## Runs of evaluation -/

/-- An evaluation that is not stuck. -/
def Eval.Gives {α : Type} (x : Eval α) (s : World) (a : α) (s' : World) : Prop :=
  x.run s = some (a, s')

namespace Eval

variable {α β : Type} {s s' : World}

@[simp] theorem gives_pure {a b : α} : Eval.Gives (pure a) s b s' ↔ b = a ∧ s' = s := by
  simp [Gives, eq_comm]

@[simp] theorem gives_bind {x : Eval α} {f : α → Eval β} {b : β} :
    Eval.Gives (x >>= f) s b s' ↔ ∃ a t, x.Gives s a t ∧ (f a).Gives t b s' := by
  simp [Gives, StateT.run_bind, Option.bind_eq_some_iff]

@[simp] theorem gives_lift {x : Option α} {a : α} :
    Eval.Gives (liftM x) s a s' ↔ x = some a ∧ s' = s := by
  cases x <;> simp [Gives, eq_comm]

@[simp] theorem gives_get {t : World} : Eval.Gives get s t s' ↔ t = s ∧ s' = s := by
  simp [Gives, eq_comm]

@[simp] theorem gives_modify {f : World → World} {u : PUnit} :
    Eval.Gives (modify f) s u s' ↔ s' = f s := by
  show some ((), f s) = some (u, s') ↔ _
  simp [eq_comm]

theorem gives_invoke {callees : Callees} {target : UInt64} {ret : Ty} {args : List Word}
    {v : Option Word} :
    (invoke callees target ret args).Gives s v s' ↔
      v = ret.word?.map (·.word (callees target args s.contents).1) ∧
        s' = ⟨(callees target args s.contents).2, s.calls ++ [⟨target, args⟩]⟩ := by
  rw [Gives]
  show some (_, _) = some (v, s') ↔ _
  simp [eq_comm]

end Eval

end Checked

end CallThunk
