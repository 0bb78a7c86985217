import CallThunk.Source.Span

/-!
# Syntax trees of wrapper source

A unit is a list of items: aggregates known by size and alignment alone, struct definitions and
functions. The language only has to say how to unpack a struct and call through a function pointer.
-/

namespace CallThunk.Source

/-- A name at its place. -/
structure Ident where
  name : String
  span : Span
  deriving DecidableEq

/-- A type as written. -/
inductive TyExpr where
  /-- A builtin type or a declared record. -/
  | named (ident : Ident)
  | pointer (pointee : TyExpr) (span : Span)
  | function (params : List TyExpr) (variadic : Bool) (ret : Option TyExpr) (span : Span)

def TyExpr.span : TyExpr → Span
  | named ident => ident.span
  | pointer _ span => span
  | function _ _ _ span => span

/-- An expression. Parentheses leave no trace, not even in the span. -/
inductive Expr where
  | var (ident : Ident) (span : Span)
  /-- `base.field`, through a pointer to a struct. -/
  | field (base : Expr) (field : Ident) (span : Span)
  | call (callee : Expr) (args : List Expr) (span : Span)
  | cast (inner : Expr) (ty : TyExpr) (span : Span)

def Expr.span : Expr → Span
  | var _ span => span
  | field _ _ span => span
  | call _ _ span => span
  | cast _ _ span => span

/-- A statement. -/
inductive Stmt where
  | bind (name : Ident) (init : Expr) (span : Span)
  | assign (place value : Expr) (span : Span)
  | eval (expr : Expr)
  | ret (span : Span)

def Stmt.span : Stmt → Span
  | bind _ _ span => span
  | assign _ _ span => span
  | eval expr => expr.span
  | ret span => span

/-- A name with its type: a field or a parameter. -/
structure Typed where
  name : Ident
  ty : TyExpr

/-- An aggregate of which only size and alignment are known. -/
structure OpaqueDecl where
  name : Ident
  size : UInt32
  align : UInt32
  span : Span

structure StructDecl where
  name : Ident
  fields : List Typed
  span : Span

structure FunctionDecl where
  name : Ident
  params : List Typed
  body : List Stmt
  span : Span

inductive Item where
  | opaqueItem (decl : OpaqueDecl)
  | structItem (decl : StructDecl)
  | functionItem (decl : FunctionDecl)

/-- A parsed source. -/
structure SourceUnit where
  items : List Item

namespace SourceUnit

/-- The functions of a unit, in source order. -/
def functions (unit : SourceUnit) : List FunctionDecl :=
  unit.items.filterMap fun
    | .functionItem decl => some decl
    | _ => none

/-- Gives every function of a unit a new name. -/
def renameFunctions (unit : SourceUnit) (name : String) : SourceUnit :=
  ⟨unit.items.map fun
    | .functionItem decl => .functionItem { decl with name := { decl.name with name } }
    | item => item⟩

end SourceUnit

end CallThunk.Source
