import CallThunk.Checked.Tree
import CallThunk.Proofs.Ty.WellFormed
import CallThunk.Proofs.Record.Table

/-!
# Typing of checked bodies

The judgment `Typed` says when a checked expression has a type, given the records of the unit, the
type of the parameter and the types of the locals bound so far. Records are never values: a call
may give one only where `StmtTyped.storeCall` keeps it, or behind the declared parameters of a
variadic callee, where nothing is said about its arguments.
-/

namespace CallThunk.Checked

section
variable (records : RecordTable) (param : Ty) (locals : List Ty)

mutual
/-- A checked expression has a type. -/
inductive Typed : Expr → Ty → Prop where
  | param : Typed (.param param) param
  | localVar {ty : Ty} {index : Nat} (bound : locals[index]? = some ty) :
      Typed (.localVar ty index) ty
  /-- A field whose values fit a register, behind a pointer to its record. -/
  | load {base : Expr} {r : RecordTy} {record : PlacedRecord} {field : PlacedField}
      (address : Typed base (.pointer (.record r))) (known : records.find? r.name = some record)
      (member : field ∈ record.fields) (values : field.ty.hasValues) :
      Typed (.load field.ty base field.offset) field.ty
  | call {callee : Expr} {signature : Signature} {args : List Expr}
      (target : Typed callee signature.ty)
      (passed : ArgsTyped signature.variadic signature.params args) :
      Typed (.call callee signature args) signature.ret
  | convert {inner : Expr} {source ty : Ty} (value : Typed inner source)
      (casts : source.castsTo ty) : Typed (.convert ty inner) ty
/-- Arguments fit declared parameters; only a variadic callee takes more of them. -/
inductive ArgsTyped : (variadic : Bool) → List Ty → List Expr → Prop where
  | nil {variadic : Bool} : ArgsTyped variadic [] []
  | declared {variadic : Bool} {arg : Expr} {args : List Expr} {p : Ty} {params : List Ty}
      (value : Typed arg p) (values : p.hasValues) (rest : ArgsTyped variadic params args) :
      ArgsTyped variadic (p :: params) (arg :: args)
  | extra {arg : Expr} {args : List Expr} {ty : Ty} (value : Typed arg ty)
      (rest : ArgsTyped true [] args) : ArgsTyped true [] (arg :: args)
end

end

/-- A checked statement other than a return is typed, and the locals behind it. -/
inductive StmtTyped (records : RecordTable) (param : Ty) (locals : List Ty) :
    Stmt → List Ty → Prop where
  | bind {init : Expr} {ty : Ty} (value : Typed records param locals init ty)
      (values : ty.hasValues) :
      StmtTyped records param locals (.bind locals.length init) (locals ++ [ty])
  | store {base value : Expr} {r : RecordTy} {record : PlacedRecord} {field : PlacedField}
      (address : Typed records param locals base (.pointer (.record r)))
      (known : records.find? r.name = some record) (member : field ∈ record.fields)
      (stored : Typed records param locals value field.ty) (values : field.ty.hasValues) :
      StmtTyped records param locals (.store base field.offset value) locals
  /-- The result of a call is the record that the field holds. -/
  | storeCall {base callee : Expr} {signature : Signature} {args : List Expr} {r : RecordTy}
      {record : PlacedRecord} {field : PlacedField} {result : RecordTy}
      (address : Typed records param locals base (.pointer (.record r)))
      (known : records.find? r.name = some record) (member : field ∈ record.fields)
      (holds : field.ty = .record result) (gives : signature.ret = .record result)
      (call : Typed records param locals (.call callee signature args) signature.ret) :
      StmtTyped records param locals (.storeCall base field.offset (.call callee signature args))
        locals
  | eval {e : Expr} {ty : Ty} (value : Typed records param locals e ty)
      (discarded : ty.hasValues ∨ ty = .void) : StmtTyped records param locals (.eval e) locals

/-- A checked body is typed; nothing stands behind a return. -/
inductive BodyTyped (records : RecordTable) (param : Ty) : List Ty → List Stmt → Prop where
  | nil {locals : List Ty} : BodyTyped records param locals []
  | ret {locals : List Ty} : BodyTyped records param locals [.ret]
  | cons {locals locals' : List Ty} {stmt : Stmt} {stmts : List Stmt}
      (first : StmtTyped records param locals stmt locals')
      (rest : BodyTyped records param locals' stmts) :
      BodyTyped records param locals (stmt :: stmts)

/-- A program is typed: the parameter of its wrapper is a pointer, and its body is typed. -/
def Program.WellTyped (program : Program) : Prop :=
  ∃ pointee, BodyTyped program.records (.pointer pointee) [] program.wrapper.body

/-! ## Uniqueness and weakening -/

section
variable {records later : RecordTable} {param ty : Ty} {locals locals' : List Ty} {e : Expr}

/-- An expression has no other type than the one in its tree. -/
theorem Typed.ty_eq (h : Typed records param locals e ty) : e.ty = ty := by
  cases h <;> rfl

mutual
/-- Typing survives records that become known later. -/
theorem Typed.extend (ext : later.Extends records) :
    {e : Expr} → {ty : Ty} → Typed records param locals e ty → Typed later param locals e ty
  | _, _, .param => .param
  | _, _, .localVar bound => .localVar bound
  | _, _, .load address known member values =>
      .load (address.extend ext) (ext _ _ known) member values
  | _, _, .call target passed => .call (target.extend ext) (passed.extend ext)
  | _, _, .convert value casts => .convert (value.extend ext) casts
theorem ArgsTyped.extend (ext : later.Extends records) :
    {variadic : Bool} → {params : List Ty} → {args : List Expr} →
      ArgsTyped records param locals variadic params args →
      ArgsTyped later param locals variadic params args
  | _, _, _, .nil => .nil
  | _, _, _, .declared value values rest =>
      .declared (value.extend ext) values (rest.extend ext)
  | _, _, _, .extra value rest => .extra (value.extend ext) (rest.extend ext)
end

theorem StmtTyped.extend (ext : later.Extends records) {stmt : Stmt}
    (h : StmtTyped records param locals stmt locals') :
    StmtTyped later param locals stmt locals' := by
  cases h with
  | bind value values => exact .bind (value.extend ext) values
  | store address known member stored values =>
      exact .store (address.extend ext) (ext _ _ known) member (stored.extend ext) values
  | storeCall address known member holds gives call =>
      exact .storeCall (address.extend ext) (ext _ _ known) member holds gives (call.extend ext)
  | eval value discarded => exact .eval (value.extend ext) discarded

end

end CallThunk.Checked
