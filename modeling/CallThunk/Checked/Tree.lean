import CallThunk.Record.Layout

/-!
# Checked bodies

The tree that a wrapper body becomes once every name is resolved: locals are numbered in the order
in which they are bound, fields are byte offsets, and conversions are explicit.
-/

namespace CallThunk.Checked

/-- A checked expression; its type is `Expr.ty`. -/
inductive Expr where
  /-- The wrapper's parameter. -/
  | param (ty : Ty)
  | localVar (ty : Ty) (index : Nat)
  /-- The value of a type at `base + offset`. -/
  | load (ty : Ty) (base : Expr) (offset : UInt32)
  | call (callee : Expr) (signature : Signature) (args : List Expr)
  /-- An integer of another width or sign, or the same address at another type. -/
  | convert (ty : Ty) (inner : Expr)

def Expr.ty : Expr → Ty
  | param ty => ty
  | localVar ty _ => ty
  | load ty _ _ => ty
  | call _ signature _ => signature.ret
  | convert ty _ => ty

def Expr.isCall : Expr → Bool
  | call .. => true
  | _ => false

/-- A checked statement. -/
inductive Stmt where
  /-- Binds the next local. -/
  | bind (index : Nat) (init : Expr)
  | store (base : Expr) (offset : UInt32) (value : Expr)
  /-- Calls a function that writes its record result to `base + offset`. -/
  | storeCall (base : Expr) (offset : UInt32) (call : Expr)
  | eval (expr : Expr)
  | ret

/-- The checked wrapper function. -/
structure Function where
  name : String
  body : List Stmt

/-- A checked unit: its records in the order in which they became known, and its function. -/
structure Program where
  records : RecordTable
  wrapper : Function

end CallThunk.Checked
