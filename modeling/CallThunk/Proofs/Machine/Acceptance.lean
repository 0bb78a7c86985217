import CallThunk.Proofs.Checked.Uses
import CallThunk.Proofs.Machine.Simulation
import CallThunk.Proofs.Machine.Typing

/-!
# What lowering accepts

A typed body has code exactly when everything that it uses is supported: no call of a variadic
function, no call with a record result of 16 bytes or less, and no offset beyond 2^31 - 1. The code
is well typed then; otherwise lowering fails with an error that one of these uses explains. The
other errors of lowering are never met.
-/

namespace CallThunk.Machine

open Checked (Use Lowerable Typed ArgsTyped StmtTyped BodyTyped)

/-- An argument has no value: it is `void`, or a record that would have to go somewhere. -/
def LoweringError.Valueless (args : List Checked.Expr) : LoweringError → Prop
  | .noValue ty => ty.hasValues = false ∧ ∃ arg ∈ args, arg.ty = ty
  | .discardedRecord name => ∃ arg ∈ args, ∃ r, arg.ty = .record r ∧ r.name = name
  | _ => False

/-- The use that explains an error. Nothing explains an undefined local, a stored record that is not
from a call, a conversion that does not exist or a word of a type without values; and a missing
value only as an argument behind the parameters of a variadic callee. -/
def LoweringError.Reason (uses : List Use) : LoweringError → Prop
  | .offsetTooLarge offset => .access offset ∈ uses ∧ 2 ^ 31 ≤ offset.toNat
  | .variadicCall => ∃ signature args, .call signature args ∈ uses ∧ signature.variadic = true
  | .recordInRegisters name size => ∃ signature args r, .call signature args ∈ uses ∧
      signature.ret = .record r ∧ r.name = name ∧ r.size = size ∧ size ≤ 16
  | e@(.noValue _) | e@(.discardedRecord _) => ∃ signature args, .call signature args ∈ uses ∧
      signature.variadic = true ∧ e.Valueless (args.drop signature.params.length)
  | .undefinedLocal _ | .notCall _ | .noConversion .. | .notWord _ => False

namespace LoweringError

variable {uses uses' : List Use} {e : LoweringError}

/-- What explains an error is no supported use. -/
theorem Reason.not_lowerable (h : e.Reason uses) : ¬ Lowerable uses := by
  intro supported
  cases e with
  | offsetTooLarge offset =>
      have near := supported.near offset h.1
      have far := h.2
      omega
  | variadicCall =>
      obtain ⟨signature, args, used, variadic⟩ := h
      simp [supported.fixed signature args used] at variadic
  | recordInRegisters name size =>
      obtain ⟨signature, args, r, used, ret, -, rfl, small⟩ := h
      exact absurd (supported.large signature args r used ret) (UInt32.not_lt.mpr small)
  | noValue | discardedRecord =>
      obtain ⟨signature, args, used, variadic, -⟩ := h
      simp [supported.fixed signature args used] at variadic
  | undefinedLocal | notCall | noConversion | notWord => exact h

theorem Reason.mono (h : e.Reason uses) (sub : uses ⊆ uses') : e.Reason uses' := by
  cases e with
  | offsetTooLarge offset => exact ⟨sub h.1, h.2⟩
  | variadicCall =>
      obtain ⟨signature, args, used, variadic⟩ := h
      exact ⟨signature, args, sub used, variadic⟩
  | recordInRegisters name size =>
      obtain ⟨signature, args, r, used, small⟩ := h
      exact ⟨signature, args, r, sub used, small⟩
  | noValue | discardedRecord =>
      obtain ⟨signature, args, used, extra⟩ := h
      exact ⟨signature, args, sub used, extra⟩
  | undefinedLocal | notCall | noConversion | notWord => exact h

/-- A missing value among the arguments behind the parameters of a variadic callee. -/
theorem Valueless.reason {signature : Signature} {args : List Checked.Expr}
    (h : e.Valueless (args.drop signature.params.length)) (variadic : signature.variadic = true)
    (used : .call signature args ∈ uses) : e.Reason uses := by
  cases e with
  | noValue | discardedRecord => exact ⟨signature, args, used, variadic, h⟩
  | offsetTooLarge | undefinedLocal | notCall | variadicCall | recordInRegisters | noConversion
  | notWord => exact h.elim

theorem Valueless.cons {arg : Checked.Expr} {args : List Checked.Expr} (h : e.Valueless args) :
    e.Valueless (arg :: args) := by
  cases e with
  | noValue ty =>
      obtain ⟨none, other, member, same⟩ := h
      exact ⟨none, other, List.mem_cons_of_mem _ member, same⟩
  | discardedRecord name =>
      obtain ⟨other, member, record⟩ := h
      exact ⟨other, List.mem_cons_of_mem _ member, record⟩
  | offsetTooLarge | undefinedLocal | notCall | variadicCall | recordInRegisters | noConversion
  | notWord => exact h

end LoweringError

/-! ## Builders of typed code -/

/-- The code so far is typed, and the next value is the number of values. -/
structure Builder.Typed (b : Builder) (types : List WordTy) : Prop where
  code : InstrsTyped b.instrs types
  next : b.next = types.length

/-- From typed code, a step of lowering adds typed code and gives a result that fits the types then,
or it fails with an error that has its reason. -/
def Accepts {α : Type} (x : Lower α) (types : List WordTy) (fits : List WordTy → α → Prop)
    (bad : LoweringError → Prop) : Prop :=
  ∀ b : Builder, b.Typed types →
    GivesOr x b (fun a b' => ∃ types', types <+: types' ∧ b'.Typed types' ∧ fits types' a) bad

namespace Accepts

variable {α β : Type} {x : Lower α} {types : List WordTy} {fits fits' : List WordTy → α → Prop}
  {bad bad' : LoweringError → Prop}

theorem pure {a : α} (h : fits types a) : Accepts (Pure.pure a) types fits bad :=
  fun _ hb => .gives (gives_pure.mpr ⟨rfl, rfl⟩) ⟨types, List.prefix_rfl, hb, h⟩

theorem throw {e : LoweringError} (h : bad e) : Accepts (MonadExcept.throw e) types fits bad :=
  fun _ _ => .fails rfl h

/-- A step outside of the builder that gives a result changes nothing. -/
theorem liftM_bind {y : Except LoweringError α} {a : α} {f : α → Lower β}
    {last : List WordTy → β → Prop} (hy : y = .ok a) (next : Accepts (f a) types last bad) :
    Accepts (MonadLiftT.monadLift y >>= f) types last bad := by
  subst hy
  exact next

theorem liftM_error {y : Except LoweringError α} {e : LoweringError} {f : α → Lower β}
    {last : List WordTy → β → Prop} (hy : y = .error e) (h : bad e) :
    Accepts (MonadLiftT.monadLift y >>= f) types last bad := by
  subst hy
  exact fun _ _ => .fails rfl h

theorem imp (h : Accepts x types fits bad)
    (hfits : ∀ types' a, types <+: types' → fits types' a → fits' types' a)
    (hbad : ∀ e, bad e → bad' e) : Accepts x types fits' bad' :=
  fun b hb => (h b hb).imp
    (fun a _ ⟨types', grown, typed, ha⟩ => ⟨types', grown, typed, hfits types' a grown ha⟩) hbad

/-- The same with more reasons. -/
theorem mono (h : Accepts x types fits bad) (hbad : ∀ e, bad e → bad' e) :
    Accepts x types fits bad' :=
  h.imp (fun _ _ _ ha => ha) hbad

/-- Steps follow one another; the types only grow. -/
theorem bind {f : α → Lower β} {last : List WordTy → β → Prop} (h : Accepts x types fits bad)
    (next : ∀ types' a, types <+: types' → fits types' a → Accepts (f a) types' last bad) :
    Accepts (x >>= f) types last bad := by
  intro b hb
  refine (h b hb).bind fun a b' ⟨types', grown, typed, ha⟩ => ?_
  refine (next types' a grown ha b' typed).imp ?_ fun _ he => he
  exact fun c b'' ⟨types'', grown', typed', hc⟩ => ⟨types'', grown.trans grown', typed', hc⟩

theorem define {i : Instr} {ty : WordTy} (h : InstrTyped types i [ty]) :
    Accepts (define i) types (fun types' r => types'[r]? = some ty) bad := by
  intro b hb
  refine .gives (gives_define.mpr ⟨rfl, rfl⟩) ⟨types ++ [ty], ?_, ⟨?_, ?_⟩, ?_⟩
  · exact List.prefix_append _ _
  · exact hb.code.snoc h
  · simp [hb.next]
  · simp [hb.next]

theorem emit {i : Instr} (h : InstrTyped types i []) :
    Accepts (emit i) types (fun _ _ => True) bad := by
  intro b hb
  refine .gives (gives_emit (u := ⟨⟩).mpr rfl) ⟨types, List.prefix_rfl, ⟨?_, hb.next⟩, trivial⟩
  simpa using hb.code.snoc h

end Accepts

/-! ## Values of types -/

/-- A register holds values of a type. -/
def Held (types : List WordTy) (r : Reg) (ty : Ty) : Prop :=
  ∃ word, ty.word? = some word ∧ types[r]? = some word

/-- An expression of a type leaves a value in a register, unless its type has none. -/
inductive Yields (types : List WordTy) : Option Reg → Ty → Prop where
  | value {r : Reg} {ty : Ty} (held : Held types r ty) : Yields types (some r) ty
  | nothing {ty : Ty} (valueless : ty.hasValues = false) : Yields types none ty

/-- Value 0 is an address, and the locals are held in registers. -/
structure Scoped (tys : List Ty) (regs : List Reg) (types : List WordTy) : Prop where
  param : types[0]? = some .i64
  locals : List.Forall₂ (Held types) regs tys

section
variable {types types' : List WordTy} {tys : List Ty} {regs : List Reg}

theorem Held.later {r : Reg} {ty : Ty} (h : Held types r ty) (grown : types <+: types') :
    Held types' r ty := by
  obtain ⟨word, hword, held⟩ := h
  exact ⟨word, hword, getElem?_of_grown grown held⟩

/-- Addresses are words of 64 bits. -/
theorem Held.address {r : Reg} {ty : Ty} (h : Held types r ty) (hty : ty.word? = some .i64) :
    types[r]? = some .i64 := by
  obtain ⟨word, hword, held⟩ := h
  rwa [Option.some.inj (hword.symm.trans hty)] at held

theorem Scoped.later (h : Scoped tys regs types) (grown : types <+: types') :
    Scoped tys regs types' :=
  ⟨getElem?_of_grown grown h.param, h.locals.imp fun _ _ held => held.later grown⟩

theorem Scoped.bind {r : Reg} {ty : Ty} (h : Scoped tys regs types) (held : Held types r ty) :
    Scoped (tys ++ [ty]) (regs ++ [r]) types :=
  ⟨h.param, List.rel_append h.locals (.cons held .nil)⟩

end

/-! ## Conversions and signatures -/

section
variable {types : List WordTy} {bad : LoweringError → Prop}

theorem isInt_intWord (kind : IntKind) : (intWord kind).isInt := by
  cases kind <;> rfl

/-- Types cast between integers, or between addresses, which convert without an instruction. -/
theorem ints_or_addresses_of_castsTo {source target : Ty} (h : source.castsTo target) :
    (∃ a c, source = .int a ∧ target = .int c) ∨
      source.word? = some .i64 ∧ target.word? = some .i64 ∧
        ∀ r, convert r source target = Pure.pure r := by
  cases source <;> cases target <;>
    first
      | exact .inl ⟨_, _, rfl, rfl⟩
      | exact .inr ⟨rfl, rfl, fun _ => rfl⟩
      | cases h

theorem accepts_convert_int {a c : IntKind} {r : Reg} (held : Held types r (.int a)) :
    Accepts (convert r (.int a) (.int c)) types (fun types' r' => Held types' r' (.int c)) bad := by
  obtain ⟨word, hword, held⟩ := held
  obtain rfl := Option.some.inj ((word?_int a).symm.trans hword)
  have ints : (intWord a).isInt ∧ (intWord c).isInt := ⟨isInt_intWord a, isInt_intWord c⟩
  have made (types' : List WordTy) (r' : Reg) (_ : types <+: types')
      (h : types'[r']? = some (intWord c)) : Held types' r' (.int c) := ⟨_, word?_int c, h⟩
  simp only [convert]
  split
  next wider =>
    rw [← bytes_intWord a, ← bytes_intWord c] at wider
    split
    · exact (Accepts.define (.signExtend held ints wider)).imp made fun _ h => h
    · exact (Accepts.define (.zeroExtend held ints wider)).imp made fun _ h => h
  next notWider =>
    split
    next narrower =>
      rw [← bytes_intWord a, ← bytes_intWord c] at narrower
      exact (Accepts.define (.reduce held ints narrower)).imp made fun _ h => h
    next notNarrower =>
      have same : intWord a = intWord c := by
        have width : a.bytes = c.bytes := by omega
        cases a <;> cases c <;> first | rfl | exact absurd width (by decide)
      exact .pure ⟨_, word?_int c, same ▸ held⟩

/-- A type that casts to another one has a conversion to it. -/
theorem accepts_convert {source target : Ty} {r : Reg} (casts : source.castsTo target)
    (held : Held types r source) :
    Accepts (convert r source target) types (fun types' r' => Held types' r' target) bad := by
  rcases ints_or_addresses_of_castsTo casts with ⟨a, c, rfl, rfl⟩ | ⟨hs, ht, same⟩
  · exact accepts_convert_int held
  · rw [same]
    exact .pure ⟨.i64, ht, held.address hs⟩

theorem fieldOffset_cases (offset : UInt32) :
    (offset.toNat < 2 ^ 31 ∧ fieldOffset offset = .ok offset.toNat) ∨
      (2 ^ 31 ≤ offset.toNat ∧ fieldOffset offset = .error (.offsetTooLarge offset)) := by
  unfold fieldOffset
  split
  next near => exact .inl ⟨near, rfl⟩
  next far => exact .inr ⟨Nat.le_of_not_lt far, rfl⟩

/-- What stands in front of the parameters of a signature: the address of a record result. -/
def hiddenParams : Ty → List Param
  | .record _ => [⟨.i64, .resultPointer⟩]
  | _ => []

/-- Registers match the parameters of a signature, one by one. -/
abbrev Matches (types : List WordTy) (rs : List Reg) (ps : List Param) : Prop :=
  List.Forall₂ (fun r p => types[r]? = some p.ty) rs ps

/-- A record result with nowhere to go. -/
def Discards (dest : Option Reg) (ty : Ty) (e : LoweringError) : Prop :=
  dest = none ∧ ∃ r, ty = .record r ∧ e = .discardedRecord r.name

theorem accepts_resultPointer {ret : Ty} {dest : Option Reg}
    (hdest : ∀ d ∈ dest, types[d]? = some .i64) :
    Accepts (resultPointer ret dest) types (fun types' rs => Matches types' rs (hiddenParams ret))
      (Discards dest ret) := by
  cases ret with
  | record r =>
      cases dest with
      | none => exact .throw ⟨rfl, r, rfl, rfl⟩
      | some d => exact .pure (.cons (hdest d rfl) .nil)
  | void | bool | int | float | pointer | function => exact .pure .nil

theorem param_of_word? {ty : Ty} {word : WordTy} (h : ty.word? = some word) :
    param ty = .ok ⟨word, passing ty⟩ := by
  rw [param, wordTy_eq_ok.mpr h]
  rfl

/-- Types that are held in registers are the types of parameters. -/
theorem mapM_param_of_held {rs : List Reg} {params : List Ty}
    (h : List.Forall₂ (Held types) rs params) :
    ∃ ps, params.mapM param = .ok ps ∧ Matches types rs ps := by
  induction h with
  | nil => exact ⟨[], rfl, .nil⟩
  | @cons r ty rs params held _ ih =>
      obtain ⟨word, hword, held⟩ := held
      obtain ⟨ps, hps, ih⟩ := ih
      refine ⟨⟨word, passing ty⟩ :: ps, ?_, .cons held ih⟩
      rw [List.mapM_cons, param_of_word? hword, hps]
      rfl

/-- A supported call has a signature, and every other call is refused for a reason. -/
theorem machineSignature_cases {s : Signature} {rs : List Reg} (args : List Checked.Expr)
    (passed : s.variadic = false → List.Forall₂ (Held types) rs s.params) :
    (∃ ms ps, machineSignature s = .ok ms ∧ Lowerable [.call s args] ∧
        ms.params = hiddenParams s.ret ++ ps ∧ Matches types rs ps) ∨
      ∃ e, machineSignature s = .error e ∧ e.Reason [.call s args] := by
  obtain ⟨ret, params, variadic⟩ := s
  cases variadic with
  | true =>
      exact .inr ⟨.variadicCall, rfl, ⟨ret, params, true⟩, args, List.mem_singleton_self _, rfl⟩
  | false =>
      obtain ⟨ps, hps, matched⟩ := mapM_param_of_held (passed rfl)
      dsimp only at hps
      have result (h : ret.hasValues) : ∃ p, param ret = .ok p :=
        (word?_of_hasValues h).imp' _ fun _ hword => param_of_word? hword
      unfold machineSignature
      simp only [Bool.false_eq_true, if_false, hps]
      cases ret with
      | record r =>
          dsimp only
          split
          next large =>
            have supported : Lowerable [.call ⟨.record r, params, false⟩ args] := by
              refine .call rfl ?_
              rintro _ ⟨⟩
              exact large
            exact .inl ⟨_, ps, rfl, supported, rfl, matched⟩
          next small =>
            exact .inr ⟨_, rfl, ⟨.record r, params, false⟩, args, r, List.mem_singleton_self _, rfl,
              rfl, rfl, UInt32.not_lt.mp small⟩
      | void =>
          exact .inl ⟨_, ps, rfl, .call rfl (by simp), rfl, matched⟩
      | bool | int | float | pointer | function =>
          obtain ⟨p, hp⟩ := result rfl
          refine .inl ⟨⟨ps, some p⟩, ps, ?_, .call rfl (by simp), rfl, matched⟩
          dsimp only
          rw [hp]
          rfl

/-- A call that has a signature is typed, and its result is a value of its type. -/
theorem accepts_emitCall {s : Signature} {ms : CallSignature} {target : Reg} {rs : List Reg}
    (hms : machineSignature s = .ok ms) (callee : types[target]? = some .i64)
    (passed : Matches types rs ms.params) :
    Accepts (emitCall ms target rs) types (fun types' r => Yields types' r s.ret) bad := by
  have result := result_of_machineSignature hms
  have typed := InstrTyped.call callee passed
  unfold emitCall
  cases hr : ms.result with
  | some p =>
      rw [hr] at result typed
      refine (Accepts.define typed).bind fun types' r _ held => .pure ?_
      exact .value ⟨p.ty, result.symm, held⟩
  | none =>
      rw [hr] at result typed
      refine (Accepts.emit typed).bind fun types' _ _ _ => .pure ?_
      refine .nothing (Bool.eq_false_iff.mpr fun values => ?_)
      obtain ⟨word, hword⟩ := word?_of_hasValues values
      exact nomatch result.trans hword

end

/-! ## Expressions -/

section
variable {paramTy : Ty} {tys : List Ty} {regs : List Reg}

/-- What lowering does with an expression of a type: the code leaves a value of the type if all that
the expression uses is supported. Only a record result with nowhere to go is refused without such a
reason; what stands around the expression knows whether there can be one. -/
def AcceptsExpr (tys : List Ty) (regs : List Reg) (e : Checked.Expr) (ty : Ty) : Prop :=
  ∀ (dest : Option Reg) (types : List WordTy), Scoped tys regs types →
    (∀ d ∈ dest, types[d]? = some .i64) →
      Accepts (genExpr regs dest e) types
        (fun types' r => Lowerable e.uses ∧ Yields types' r ty)
        (fun error => error.Reason e.uses ∨ Discards dest ty error)

/-- What lowering does with arguments: those of a callee that is not variadic are held in registers
of the types of its parameters. -/
def AcceptsArgs (tys : List Ty) (regs : List Reg) (variadic : Bool) (params : List Ty)
    (args : List Checked.Expr) : Prop :=
  ∀ types : List WordTy, Scoped tys regs types →
    Accepts (genArgs regs args) types
      (fun types' rs => Lowerable (Checked.Expr.usesList args) ∧
        (variadic = false → List.Forall₂ (Held types') rs params))
      (fun error => error.Reason (Checked.Expr.usesList args) ∨
        variadic = true ∧ error.Valueless (args.drop params.length))

/-- The same where a record result has nowhere to go. -/
theorem AcceptsExpr.alone {e : Checked.Expr} {ty : Ty} {types : List WordTy}
    (he : AcceptsExpr tys regs e ty) (scope : Scoped tys regs types) :
    Accepts (genExpr regs none e) types (fun types' r => Lowerable e.uses ∧ Yields types' r ty)
      (fun error => error.Reason e.uses ∨ ∃ r, ty = .record r ∧ error = .discardedRecord r.name) :=
  (he none types scope nofun).mono fun _ h => h.imp (fun reason => reason) And.right

/-- An expression that must have a value is held in a register. -/
theorem AcceptsExpr.genValue {e : Checked.Expr} {ty : Ty} {types : List WordTy}
    (he : AcceptsExpr tys regs e ty) (scope : Scoped tys regs types) (values : ty.hasValues) :
    Accepts (genValue regs e) types (fun types' r => Lowerable e.uses ∧ Held types' r ty)
      (fun error => error.Reason e.uses) := by
  refine ((he.alone scope).mono ?_).bind ?_
  · rintro error (reason | ⟨r, rfl, -⟩)
    · exact reason
    · cases values
  · rintro types' found grown ⟨supported, yields⟩
    cases yields with
    | nothing valueless => simp [values] at valueless
    | value held => exact .pure ⟨supported, held⟩

/-- An operand is held in a register when what needs it comes next. -/
theorem AcceptsExpr.operand {α : Type} {e : Checked.Expr} {ty : Ty} {types : List WordTy}
    {f : Reg → Lower α} {fits : List WordTy → α → Prop} {bad : LoweringError → Prop}
    (he : AcceptsExpr tys regs e ty) (scope : Scoped tys regs types) (values : ty.hasValues)
    (hbad : ∀ error, error.Reason e.uses → bad error)
    (next : ∀ types' r, types <+: types' → Lowerable e.uses → Held types' r ty →
      Accepts (f r) types' fits bad) :
    Accepts (genExpr regs none e >>= fun found => require e.ty found >>= f) types fits bad := by
  rw [← bind_assoc]
  exact ((he.genValue scope values).mono hbad).bind
    fun types' r grown ⟨supported, held⟩ => next types' r grown supported held

theorem AcceptsExpr.param (pointer : paramTy.word? = some .i64) :
    AcceptsExpr tys regs (.param paramTy) paramTy := by
  intro dest types scope _
  rw [genExpr]
  exact .pure ⟨.nil, .value ⟨_, pointer, scope.param⟩⟩

theorem AcceptsExpr.localVar {ty : Ty} {index : Nat} (bound : tys[index]? = some ty) :
    AcceptsExpr tys regs (.localVar ty index) ty := by
  intro dest types scope _
  obtain ⟨r, hr, held⟩ := getElem?_of_forall₂ scope.locals.flip bound
  rw [genExpr, hr]
  exact .pure ⟨.nil, .value held⟩

theorem AcceptsExpr.load {base : Checked.Expr} {r : RecordTy} {ty : Ty} {offset : UInt32}
    (hbase : AcceptsExpr tys regs base (.pointer (.record r))) (values : ty.hasValues) :
    AcceptsExpr tys regs (.load ty base offset) ty := by
  intro dest types scope _
  rw [genExpr]
  refine hbase.operand scope rfl (fun error h => .inl (h.mono ?_)) fun types' address _ supported
    held => ?_
  · exact List.subset_append_left _ _
  obtain ⟨word, hword⟩ := word?_of_hasValues values
  refine .liftM_bind (wordTy_eq_ok.mpr hword) ?_
  rcases fieldOffset_cases offset with ⟨near, hoffset⟩ | ⟨far, hoffset⟩
  · refine .liftM_bind hoffset ?_
    refine (Accepts.define (.load (held.address rfl) near)).bind fun types'' r' _ h => .pure ?_
    exact ⟨Lowerable.append_iff.mpr ⟨supported, .access (Nat.le_sub_one_of_lt near)⟩,
      .value ⟨word, hword, h⟩⟩
  · exact .liftM_error hoffset (.inl ⟨List.mem_append_right _ (List.mem_singleton_self _), far⟩)

theorem AcceptsExpr.convert {inner : Checked.Expr} {source ty : Ty} (hty : inner.ty = source)
    (hinner : AcceptsExpr tys regs inner source) (values : source.hasValues)
    (casts : source.castsTo ty) : AcceptsExpr tys regs (.convert ty inner) ty := by
  subst hty
  intro dest types scope _
  rw [genExpr]
  refine hinner.operand scope values (fun error h => .inl h) fun types' r _ supported held => ?_
  refine (accepts_convert casts held).bind fun types'' r' _ held' => .pure ?_
  exact ⟨supported, .value held'⟩

theorem AcceptsExpr.call {callee : Checked.Expr} {signature : Signature} {args : List Checked.Expr}
    (target : AcceptsExpr tys regs callee signature.ty)
    (passed : AcceptsArgs tys regs signature.variadic signature.params args) :
    AcceptsExpr tys regs (.call callee signature args) signature.ret := by
  intro dest types scope hdest
  rw [genExpr]
  have own : Checked.Use.call signature args ∈ (Checked.Expr.call callee signature args).uses :=
    List.mem_append_right _ (List.mem_singleton_self _)
  refine target.operand scope rfl (fun error h => .inl (h.mono ?_)) fun types₁ t grown₁ hcallee
    held => ?_
  · exact fun _ member => List.mem_append_left _ (List.mem_append_left _ member)
  -- a missing place is noticed before the arguments are lowered, the signature only behind them
  refine ((accepts_resultPointer fun d hd => getElem?_of_grown grown₁ (hdest d hd)).mono
    fun _ h => .inr h).bind fun types₂ hidden grown₂ matched => ?_
  refine ((passed types₂ ((scope.later grown₁).later grown₂)).mono ?_).bind ?_
  · rintro error (reason | ⟨variadic, valueless⟩)
    · refine .inl (reason.mono fun _ member => ?_)
      exact List.mem_append_left _ (List.mem_append_right _ member)
    · exact .inl (valueless.reason variadic own)
  · rintro types₃ values grown₃ ⟨hargs, held'⟩
    rcases machineSignature_cases args held' with
      ⟨ms, ps, hms, hcall, params, matched'⟩ | ⟨error, hms, reason⟩
    · refine .liftM_bind hms ?_
      refine (accepts_emitCall hms (getElem?_of_grown (grown₂.trans grown₃) (held.address rfl))
        ?_).imp (fun _ _ _ yields => ⟨?_, yields⟩) fun _ h => h
      · rw [params]
        exact List.rel_append (matched.imp fun _ _ h => getElem?_of_grown grown₃ h) matched'
      · exact Lowerable.append_iff.mpr ⟨Lowerable.append_iff.mpr ⟨hcallee, hargs⟩, hcall⟩
    · refine .liftM_error hms (.inl (reason.mono fun _ member => ?_))
      exact List.mem_append_right _ member

theorem AcceptsArgs.nil {variadic : Bool} : AcceptsArgs tys regs variadic [] [] := by
  intro types _
  rw [genArgs]
  exact .pure ⟨.nil, fun _ => .nil⟩

theorem AcceptsArgs.declared {variadic : Bool} {arg : Checked.Expr} {args : List Checked.Expr}
    {p : Ty} {params : List Ty} (first : AcceptsExpr tys regs arg p) (values : p.hasValues)
    (rest : AcceptsArgs tys regs variadic params args) :
    AcceptsArgs tys regs variadic (p :: params) (arg :: args) := by
  intro types scope
  rw [genArgs]
  refine first.operand scope values (fun error h => .inl (h.mono ?_)) fun types₁ r grown₁ harg
    held => ?_
  · exact List.subset_append_left _ _
  refine ((rest types₁ (scope.later grown₁)).mono ?_).bind ?_
  · rintro error (reason | ⟨hvariadic, valueless⟩)
    · exact .inl (reason.mono (List.subset_append_right _ _))
    · exact .inr ⟨hvariadic, valueless⟩
  · rintro types₂ rs grown₂ ⟨hargs, held'⟩
    refine .pure ⟨Lowerable.append_iff.mpr ⟨harg, hargs⟩, fun hvariadic => ?_⟩
    exact .cons (held.later grown₂) (held' hvariadic)

theorem AcceptsArgs.extra {arg : Checked.Expr} {args : List Checked.Expr} {ty : Ty}
    (hty : arg.ty = ty) (first : AcceptsExpr tys regs arg ty)
    (rest : AcceptsArgs tys regs true [] args) :
    AcceptsArgs tys regs true [] (arg :: args) := by
  intro types scope
  rw [genArgs]
  -- nothing is known of the type of the argument: it may have no value, and it may be a record
  refine ((first.alone scope).mono ?_).bind ?_
  · rintro error (reason | ⟨r, record, rfl⟩)
    · exact .inl (reason.mono (List.subset_append_left _ _))
    · exact .inr ⟨rfl, arg, List.mem_cons_self, r, hty.trans record, rfl⟩
  · rintro types₁ found grown₁ ⟨harg, yields⟩
    cases yields with
    | nothing valueless =>
        exact .throw (.inr ⟨rfl, hty ▸ valueless, arg, List.mem_cons_self, rfl⟩)
    | value held =>
        rw [require, pure_bind]
        refine ((rest types₁ (scope.later grown₁)).mono ?_).bind ?_
        · rintro error (reason | ⟨hvariadic, valueless⟩)
          · exact .inl (reason.mono (List.subset_append_right _ _))
          · exact .inr ⟨hvariadic, valueless.cons⟩
        · rintro types₂ rs grown₂ ⟨hargs, -⟩
          exact .pure ⟨Lowerable.append_iff.mpr ⟨harg, hargs⟩, by simp⟩

variable {records : RecordTable}

mutual
/-- Lowering accepts typed expressions. -/
theorem accepts_genExpr (pointer : paramTy.word? = some .i64) :
    {e : Checked.Expr} → {ty : Ty} → Typed records paramTy tys e ty → AcceptsExpr tys regs e ty
  | _, _, .param => .param pointer
  | _, _, .localVar bound => .localVar bound
  | _, _, .load address _ _ values => .load (accepts_genExpr pointer address) values
  | _, _, .convert value casts =>
      .convert value.ty_eq (accepts_genExpr pointer value) (Ty.hasValues_of_castsTo_left casts)
        casts
  | _, _, .call target passed =>
      .call (accepts_genExpr pointer target) (accepts_genArgs pointer passed)
theorem accepts_genArgs (pointer : paramTy.word? = some .i64) :
    {variadic : Bool} → {params : List Ty} → {args : List Checked.Expr} →
      ArgsTyped records paramTy tys variadic params args →
        AcceptsArgs tys regs variadic params args
  | _, _, _, .nil => .nil
  | _, _, _, .declared value values rest =>
      .declared (accepts_genExpr pointer value) values (accepts_genArgs pointer rest)
  | _, _, _, .extra value rest =>
      .extra value.ty_eq (accepts_genExpr pointer value) (accepts_genArgs pointer rest)
end

end

/-! ## Bodies -/

section
variable {records : RecordTable} {paramTy : Ty} {tys : List Ty} {regs : List Reg}
  {types : List WordTy}

theorem accepts_fieldAddress {base : Reg} (held : types[base]? = some .i64) (offset : UInt32)
    {bad : LoweringError → Prop} :
    Accepts (fieldAddress base offset) types (fun types' r => types'[r]? = some .i64) bad := by
  unfold fieldAddress
  split
  · exact .pure held
  · exact .define (.addImm held)

/-- What lowering does with a body: it ends with typed code if all that the body uses is supported,
and otherwise with a reason. -/
def AcceptsBody (tys : List Ty) (regs : List Reg) (stmts : List Checked.Stmt) : Prop :=
  ∀ types : List WordTy, Scoped tys regs types → ∀ b : Builder, b.Typed types →
    GivesOr (genBody regs stmts) b
      (fun _ b' => Lowerable (stmts.flatMap Checked.Stmt.uses) ∧ Code.WellTyped ⟨b'.instrs⟩)
      (fun error => error.Reason (stmts.flatMap Checked.Stmt.uses))

/-- A step of a body and what comes behind it. -/
theorem Accepts.followed {α : Type} {x : Lower α} {f : α → Lower PUnit}
    {fits : List WordTy → α → Prop} {bad bad' : LoweringError → Prop}
    {good : PUnit → Builder → Prop} (h : Accepts x types fits bad)
    (hbad : ∀ error, bad error → bad' error) {b : Builder} (hb : b.Typed types)
    (next : ∀ types' a b', types <+: types' → fits types' a → b'.Typed types' →
      GivesOr (f a) b' good bad') : GivesOr (x >>= f) b good bad' :=
  ((h b hb).imp (fun _ _ ha => ha) hbad).bind
    fun a b' ⟨types', grown, typed, ha⟩ => next types' a b' grown ha typed

/-- The statements behind one, when that one is supported. -/
theorem AcceptsBody.rest {stmts : List Checked.Stmt} (h : AcceptsBody tys regs stmts)
    (stmt : Checked.Stmt) (scope : Scoped tys regs types) (first : Lowerable stmt.uses)
    {b : Builder} (hb : b.Typed types) :
    GivesOr (genBody regs stmts) b
      (fun _ b' => Lowerable ((stmt :: stmts).flatMap Checked.Stmt.uses) ∧
        Code.WellTyped ⟨b'.instrs⟩)
      (fun error => error.Reason ((stmt :: stmts).flatMap Checked.Stmt.uses)) := by
  refine (h types scope b hb).imp (fun _ _ ⟨supported, typed⟩ => ⟨?_, typed⟩) fun _ reason => ?_
  · exact Lowerable.append_iff.mpr ⟨first, supported⟩
  · exact reason.mono (List.subset_append_right _ _)

theorem AcceptsBody.ends {stmts : List Checked.Stmt} (h : genBody regs stmts = emit .ret)
    (none : stmts.flatMap Checked.Stmt.uses = []) : AcceptsBody tys regs stmts := by
  intro types _ b hb
  rw [h, none]
  exact .gives (gives_emit (u := ⟨⟩).mpr rfl) ⟨.nil, b.instrs, types, rfl, hb.code⟩

theorem AcceptsBody.bind {index : Nat} {init : Checked.Expr} {ty : Ty} {stmts : List Checked.Stmt}
    (value : AcceptsExpr tys regs init ty) (values : ty.hasValues)
    (rest : ∀ r, AcceptsBody (tys ++ [ty]) (regs ++ [r]) stmts) :
    AcceptsBody tys regs (.bind index init :: stmts) := by
  intro types scope b hb
  rw [genBody]
  refine (value.genValue scope values).followed (fun _ h => h.mono ?_) hb ?_
  · exact List.subset_append_left _ _
  rintro types' r b' grown ⟨supported, held⟩ typed
  exact (rest r).rest (.bind index init) ((scope.later grown).bind held) supported typed

theorem AcceptsBody.store {base value : Checked.Expr} {r : RecordTy} {ty : Ty} {offset : UInt32}
    {stmts : List Checked.Stmt} (address : AcceptsExpr tys regs base (.pointer (.record r)))
    (stored : AcceptsExpr tys regs value ty) (values : ty.hasValues)
    (rest : AcceptsBody tys regs stmts) :
    AcceptsBody tys regs (.store base offset value :: stmts) := by
  intro types scope b hb
  rw [genBody]
  refine (address.genValue scope rfl).followed (fun _ h => h.mono ?_) hb ?_
  · simp [Checked.Stmt.uses]
  rintro types₁ a b₁ grown₁ ⟨hbase, held⟩ typed₁
  refine (stored.genValue (scope.later grown₁) values).followed (fun _ h => h.mono ?_) typed₁ ?_
  · intro _ member
    simp [Checked.Stmt.uses, member]
  rintro types₂ v b₂ grown₂ ⟨hvalue, word, hword, held'⟩ typed₂
  rcases fieldOffset_cases offset with ⟨near, hoffset⟩ | ⟨far, hoffset⟩
  · rw [hoffset]
    show GivesOr (emit (.store v a offset.toNat) >>= fun _ => genBody regs stmts) b₂ _ _
    have typed := InstrTyped.store held' ((held.later grown₂).address rfl) near
    refine (Accepts.emit typed).followed (fun _ h => h) typed₂ fun types₃ _ b₃ grown₃ _ typed₃ => ?_
    refine rest.rest (.store base offset value)
      (((scope.later grown₁).later grown₂).later grown₃) ?_ typed₃
    simp only [Checked.Stmt.uses, Lowerable.append_iff]
    exact ⟨⟨hbase, hvalue⟩, .access (Nat.le_sub_one_of_lt near)⟩
  · rw [hoffset]
    refine .fails rfl ⟨?_, far⟩
    simp [Checked.Stmt.uses]

theorem AcceptsBody.storeCall {base callee : Checked.Expr} {signature : Signature}
    {args : List Checked.Expr} {r : RecordTy} {offset : UInt32} {stmts : List Checked.Stmt}
    (address : AcceptsExpr tys regs base (.pointer (.record r)))
    (call : AcceptsExpr tys regs (.call callee signature args) signature.ret)
    (rest : AcceptsBody tys regs stmts) :
    AcceptsBody tys regs (.storeCall base offset (.call callee signature args) :: stmts) := by
  intro types scope b hb
  rw [genBody]
  simp only [Checked.Expr.isCall, if_true]
  refine (address.genValue scope rfl).followed (fun _ h => h.mono ?_) hb ?_
  · simp [Checked.Stmt.uses]
  rintro types₁ a b₁ grown₁ ⟨hbase, held⟩ typed₁
  refine (accepts_fieldAddress (held.address rfl) offset).followed (fun _ h => h) typed₁
    fun types₂ d b₂ grown₂ hd typed₂ => ?_
  refine (call (some d) types₂ ((scope.later grown₁).later grown₂) ?_).followed ?_ typed₂ ?_
  · rintro _ ⟨⟩
    exact hd
  · rintro error (reason | ⟨none, -⟩)
    · refine reason.mono fun _ member => ?_
      simp [Checked.Stmt.uses, member]
    · cases none
  · rintro types₃ _ b₃ grown₃ ⟨hcall, -⟩ typed₃
    exact rest.rest (.storeCall base offset (.call callee signature args))
      (((scope.later grown₁).later grown₂).later grown₃)
      (Lowerable.append_iff.mpr ⟨hbase, hcall⟩) typed₃

theorem AcceptsBody.eval {e : Checked.Expr} {ty : Ty} {stmts : List Checked.Stmt}
    (value : AcceptsExpr tys regs e ty) (discarded : ty.hasValues ∨ ty = .void)
    (rest : AcceptsBody tys regs stmts) : AcceptsBody tys regs (.eval e :: stmts) := by
  intro types scope b hb
  rw [genBody]
  refine (value.alone scope).followed ?_ hb ?_
  · rintro error (reason | ⟨r, rfl, -⟩)
    · exact reason.mono (List.subset_append_left _ _)
    · rcases discarded with values | void
      · cases values
      · cases void
  · rintro types' _ b' grown ⟨supported, -⟩ typed
    exact rest.rest (.eval e) (scope.later grown) supported typed

/-- Lowering accepts typed bodies. -/
theorem accepts_genBody (pointer : paramTy.word? = some .i64) {stmts : List Checked.Stmt}
    (typed : BodyTyped records paramTy tys stmts) (regs : List Reg) :
    AcceptsBody tys regs stmts := by
  -- a binding adds a register, so the registers of the locals vary
  induction typed generalizing regs with
  | nil => exact .ends (by rw [genBody]) rfl
  | ret => exact .ends (by rw [genBody]) rfl
  | cons first rest ih =>
      cases first with
      | bind value values =>
          exact .bind (accepts_genExpr pointer value) values fun r => ih (regs ++ [r])
      | store address _ _ stored values =>
          exact .store (accepts_genExpr pointer address) (accepts_genExpr pointer stored) values
            (ih regs)
      | storeCall address _ _ _ _ call =>
          exact .storeCall (accepts_genExpr pointer address) (accepts_genExpr pointer call)
            (ih regs)
      | eval value discarded => exact .eval (accepts_genExpr pointer value) discarded (ih regs)

/-- A typed program has typed code if all that it uses is supported, and otherwise it is refused for
a reason. -/
theorem Code.ofFunction_of_wellTyped {program : Checked.Program} (typed : program.WellTyped) :
    (Lowerable program.wrapper.uses ∧
        ∃ code : Code, Code.ofFunction program.wrapper = .ok code ∧ code.WellTyped) ∨
      ∃ e : LoweringError, Code.ofFunction program.wrapper = .error e ∧
        e.Reason program.wrapper.uses := by
  obtain ⟨pointee, typed⟩ := typed
  unfold Code.ofFunction
  rcases accepts_genBody rfl typed [] [.i64] ⟨rfl, .nil⟩ ⟨[], 1⟩ ⟨.nil, rfl⟩ with
    ⟨_, b, gives, supported, code⟩ | ⟨e, fails, reason⟩
  · refine .inl ⟨supported, ⟨b.instrs⟩, ?_, code⟩
    rw [gives]
    rfl
  · refine .inr ⟨e, ?_, reason⟩
    rw [fails]
    rfl

end

end CallThunk.Machine
