import CallThunk.Checked.Tree
import CallThunk.Checked.Problem
import CallThunk.Checked.Conversion
import CallThunk.Source.Tree
import CallThunk.Ty.Reader

/-!
# Checking a unit

Checking resolves type names, lays out the records for a pointer size and types the body of the one
function. Every problem is reported, in the order of the source; a part that fails has no result,
and its siblings are checked all the same. A unit has a checked form exactly when no error is
reported.
-/

namespace CallThunk

open Source (SourceUnit)

/-- What a debugger's type system adds to a compilation. -/
structure TypeSystem where
  /-- Size and alignment of an aggregate that a unit uses without declaring it. -/
  external? : String → Option (UInt32 × UInt32)
  /-- Revises a parsed unit, with reports. -/
  transform : SourceUnit → SourceUnit × Diagnostics

/-- The type system that adds nothing, for units that declare all they use. -/
def TypeSystem.selfContained : TypeSystem := ⟨fun _ => none, fun unit => (unit, [])⟩

namespace Checked

open Source (Span Ident TyExpr)

/-- What checking depends on. -/
structure Env where
  pointerSize : UInt32
  external? : String → Option (UInt32 × UInt32)

/-- What checking has found so far. -/
structure State where
  records : RecordTable
  reports : Diagnostics

/-- A check reports into the state and has no result when something below it failed. -/
abbrev Check := OptionT (StateM State)

/-- Reports a problem. -/
def report (p : Problem) (span : Option Span) : StateM State PUnit :=
  modify fun s => { s with reports := s.reports ++ [p.diagnostic span] }

/-- Reports a problem and fails. -/
def reject {α : Type} (p : Problem) (span : Span) : Check α := do
  report p (some span)
  failure

/-! ## Types -/

/-- A name as a type: a builtin, a declared record, or an aggregate that the type system knows,
which is a record from then on. -/
def namedTy (env : Env) (ident : Ident) : Check Ty := do
  if let some ty := Ty.builtin? ident.name then
    return ty
  let s ← get
  if let some record := s.records.find? ident.name then
    return .record record.recordTy
  if let some (size, align) := env.external? ident.name then
    let record : PlacedRecord := ⟨ident.name, size, align, []⟩
    set { s with records := s.records.insert record }
    return .record record.recordTy
  reject (.unknownType ident.name) ident.span

/-- Parameters are neither records nor `void`. -/
def admitParam (ty : Ty) (span : Span) : Check Ty :=
  match ty with
  | .record r => reject (.recordByValue r.name) span
  | .void => reject .voidParam span
  | ty => pure ty

mutual
/-- The type that a type expression means. -/
def tyOf (env : Env) : TyExpr → Check Ty
  | .named ident => namedTy env ident
  | .pointer pointee _ => do
    return .pointer (← tyOf env pointee)
  | .function params variadic ret _ => do
    let params ← OptionT.lift (paramTys env params)
    let ret ← resultTy env ret
    match params with
    | some params => return .function ret params variadic
    | none => failure
/-- The parameter types of a function type; all are resolved, also when one fails. -/
def paramTys (env : Env) : List TyExpr → StateM State (Option (List Ty))
  | [] => return some []
  | p :: ps => do
    let ty ← (tyOf env p >>= fun ty => admitParam ty p.span).run
    let tys ← paramTys env ps
    match ty, tys with
    | some ty, some tys => return some (ty :: tys)
    | _, _ => return none
/-- The result type of a function type, `void` when it is left out. -/
def resultTy (env : Env) : Option TyExpr → Check Ty
  | some ret => tyOf env ret
  | none => return .void
end

/-! ## Records -/

/-- Size and alignment of a field of a type. -/
def Env.storage? (env : Env) : Ty → Option (UInt32 × UInt32)
  | .bool => some (1, 1)
  | .int kind => some (UInt32.ofNat kind.bytes, UInt32.ofNat kind.bytes)
  | .float kind => some (UInt32.ofNat kind.bytes, UInt32.ofNat kind.bytes)
  | .pointer _ | .function .. => some (env.pointerSize, env.pointerSize)
  | .record r => some (r.size, r.align)
  | .void => none

/-- The type of a field with its size and alignment. -/
def inferField (env : Env) (placed : Placement) (field : Source.Typed) :
    Check (Ty × UInt32 × UInt32) := do
  if placed.fields.any (·.name = field.name.name) then
    reject (.fieldTwice field.name.name) field.name.span
  let ty ← tyOf env field.ty
  match env.storage? ty with
  | some (size, align) => return (ty, size, align)
  | none => reject .voidField field.ty.span

/-- Places fields one after the other. A field that fails its check is left out; the first one whose
offset is too large ends the placement. -/
def placeFields (env : Env) : Placement → List Source.Typed → StateM State Placement
  | placed, [] => return placed
  | placed, field :: fields => do
    match ← (inferField env placed field).run with
    | none => placeFields env placed fields
    | some (ty, size, align) =>
      match placed.add? field.name.name ty size align with
      | some placed => placeFields env placed fields
      | none => return { placed with stop := none }

/-- Records the declaration of an aggregate of which only size and alignment are known. -/
def declareOpaque (decl : Source.OpaqueDecl) : Check PUnit := do
  let s ← get
  if s.records.contains decl.name.name then
    reject (.definedTwice decl.name.name) decl.name.span
  unless isPowerOfTwo decl.align.toNat do
    reject (.badAlignment decl.name.name decl.align) decl.span
  set { s with records := s.records.insert ⟨decl.name.name, decl.size, decl.align, []⟩ }

/-- Lays out a struct definition. -/
def declareStruct (env : Env) (decl : Source.StructDecl) : Check PUnit := do
  if (← get).records.contains decl.name.name then
    reject (.definedTwice decl.name.name) decl.name.span
  let placed ← placeFields env .empty decl.fields
  match placed.finish? decl.name.name with
  | some record => modify fun s => { s with records := s.records.insert record }
  | none => reject (.recordTooLarge decl.name.name) decl.name.span

def declareItem (env : Env) : Source.Item → Check PUnit
  | .opaqueItem decl => declareOpaque decl
  | .structItem decl => declareStruct env decl
  | .functionItem _ => return ()

/-- Declares the records of a unit in source order. -/
def declareAll (env : Env) : List Source.Item → StateM State PUnit
  | [] => return ()
  | item :: items => do
    let _ ← (declareItem env item).run
    declareAll env items

/-! ## Expressions -/

/-- The names in scope: the parameter, and the locals with the latest one first. -/
structure Scope where
  param : String × Ty
  locals : List (String × Ty)

namespace Scope

/-- The latest local of a name, with its number. -/
def local? (name : String) : List (String × Ty) → Option (Nat × Ty)
  | [] => none
  | (n, ty) :: older => if n = name then some (older.length, ty) else local? name older

/-- A name in scope; later bindings hide earlier ones and the parameter. -/
def lookup? (scope : Scope) (name : String) : Option Expr :=
  match local? name scope.locals with
  | some (index, ty) => some (.localVar ty index)
  | none => if scope.param.1 = name then some (.param scope.param.2) else none

end Scope

/-- Type and offset of a field behind a pointer to a record. -/
def selectField (base : Ty) (field : Ident) : Check (Ty × UInt32) := do
  let .pointer (.record r) := base
    | reject (.notStructPointer base) field.span
  match ((← get).records.find? r.name).bind (·.field? field.name) with
  | some f => return (f.ty, f.offset)
  | none => reject (.unknownField field.name r.name) field.span

/-- A value as one of another type. -/
def adapt (value : Expr) (target : Ty) (span : Span) : Check Expr := do
  match value.ty.convertTo target with
  | .identity => return if value.ty = target then value else .convert target value
  | .implicit =>
    report (.implicitConversion value.ty target) (some span)
    return .convert target value
  | .incompatible => reject (.mismatch target value.ty) span

/-- The function type that a callee must have. -/
def calleeSignature (callee : Expr) (span : Span) : Check Signature :=
  match callee.ty with
  | .function ret params variadic => pure ⟨ret, params, variadic⟩
  | ty => reject (.notCallable ty) span

mutual
/-- Types an expression. -/
def inferExpr (env : Env) (scope : Scope) : Source.Expr → Check Expr
  | .var ident _ =>
    match scope.lookup? ident.name with
    | some e => pure e
    | none => reject (.unknownValue ident.name) ident.span
  | .cast inner ty span => do
    let value ← inferExpr env scope inner
    let target ← tyOf env ty
    if value.ty.isPointer && target.isPointer then
      return .convert target value
    reject (.notPointerCast value.ty target) span
  | .field base field _ => do
    let base ← inferExpr env scope base
    let (ty, offset) ← selectField base.ty field
    if let .record r := ty then
      reject (.recordByValue r.name) field.span
    return .load ty base offset
  | .call callee args span => do
    let target ← inferExpr env scope callee
    let signature ← calleeSignature target callee.span
    let fixed := signature.params.length
    unless if signature.variadic then fixed ≤ args.length else args.length = fixed do
      reject (.arity fixed signature.variadic args.length) span
    let args ← OptionT.mk (inferArgs env scope signature.params args)
    return .call target signature args
/-- Types the arguments of a call, each as its declared parameter if there is one; all are checked,
also when one fails. -/
def inferArgs (env : Env) (scope : Scope) :
    List Ty → List Source.Expr → StateM State (Option (List Expr))
  | _, [] => return some []
  | params, arg :: args => do
    let value ← (inferExpr env scope arg >>= fun value =>
      match params.head? with
      | some param => adapt value param arg.span
      | none => pure value).run
    let values ← inferArgs env scope params.tail args
    match value, values with
    | some value, some values => return some (value :: values)
    | _, _ => return none
end

/-! ## Statements -/

/-- Types a statement; a binding extends the scope of those behind it. -/
def inferStmt (env : Env) (scope : Scope) : Source.Stmt → Check (Stmt × Scope)
  | .bind name init _ => do
    let init ← inferExpr env scope init
    if let .record r := init.ty then
      reject (.unstoredResult r.name) name.span
    if init.ty.isVoid then
      reject (.voidLocal name.name) name.span
    return (.bind scope.locals.length init,
      { scope with locals := (name.name, init.ty) :: scope.locals })
  | .assign place value _ => do
    let .field base field _ := place
      | reject .notAssignable place.span
    let base ← inferExpr env scope base
    let (ty, offset) ← selectField base.ty field
    let result ← inferExpr env scope value
    if let .record _ := result.ty then
      if result.ty = ty then
        return (.storeCall base offset result, scope)
    let result ← adapt result ty value.span
    return (.store base offset result, scope)
  | .eval expr => do
    let result ← inferExpr env scope expr
    if let .record r := result.ty then
      reject (.unstoredResult r.name) expr.span
    unless result.isCall do
      report .unusedResult (some expr.span)
    return (.eval result, scope)
  | .ret _ => return (.ret, scope)

/-- Types statements up to a return; the first one behind it is reported, and checking ends. -/
def inferBody (env : Env) : Scope → List Source.Stmt → StateM State (List Stmt)
  | _, [] => return []
  | scope, stmt :: stmts => do
    match ← (inferStmt env scope stmt).run with
    | some (.ret, _) =>
      if let some next := stmts.head? then
        report .unreachable (some next.span)
      return [.ret]
    | some (checked, scope) => return checked :: (← inferBody env scope stmts)
    | none => inferBody env scope stmts

/-- Types the wrapper function, which takes one pointer. -/
def inferFunction (env : Env) (decl : Source.FunctionDecl) : Check Function := do
  let [param] := decl.params
    | reject (.paramCount decl.params.length) decl.name.span
  let ty ← tyOf env param.ty
  unless ty.isPointer do
    reject (.paramNotPointer ty) param.ty.span
  let body ← inferBody env ⟨(param.name.name, ty), []⟩ decl.body
  return ⟨decl.name.name, body⟩

/-- Types the one function of a unit. -/
def inferWrapper (env : Env) (unit : SourceUnit) : Check Function :=
  match unit.functions with
  | [decl] => inferFunction env decl
  | [] => do
    report .noFunction none
    failure
  | _ :: second :: _ => reject .manyFunctions second.name.span

/-- Checks a unit for a pointer size and reports its problems. -/
def check (env : Env) (unit : SourceUnit) : Option Program × Diagnostics :=
  let declared := (declareAll env unit.items).run ⟨[], []⟩
  let (wrapper, final) := (inferWrapper env unit).run.run declared.2
  if final.reports.errorCount > 0 then (none, final.reports)
  else (wrapper.map (⟨final.records, ·⟩), final.reports)

end Checked

end CallThunk
