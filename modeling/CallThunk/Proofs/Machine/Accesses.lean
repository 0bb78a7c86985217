import CallThunk.Proofs.Machine.Simulation

/-!
# Accesses of straight-line code

The loads and stores that a run makes, each with its address and the type of what is moved. Values
keep their numbers, so it can be read off the instructions whether all accesses lie at fixed places
behind the address that code runs on; callees change nothing about that.
-/

namespace CallThunk.Machine

/-- One access to memory. -/
structure Access where
  address : UInt64
  ty : WordTy
  deriving DecidableEq

/-- The access that an instruction makes. -/
def Instr.access? (f : Frame) : Instr → Option Access
  | load ty base offset => some ⟨f.addressAt base offset, ty⟩
  | store value base offset => some ⟨f.addressAt base offset, (f.value value).ty⟩
  | _ => none

/-- The accesses of instructions up to a return. -/
def accesses (callees : Callees) : Frame → List Instr → List Access
  | _, [] | _, .ret :: _ => []
  | f, i :: is => (i.access? f).toList ++ accesses callees (i.run callees f) is

/-- The accesses of code that runs on an address. -/
def Code.accesses (callees : Callees) (code : Code) (param : UInt64) (contents : Contents) :
    List Access :=
  Machine.accesses callees ⟨[.ofAddress param], contents, []⟩ code.instrs

/-- The types of the values that an instruction defines. -/
def Instr.types : Instr → List WordTy
  | addImm .. => [.i64]
  | load ty .. | signExtend ty _ | zeroExtend ty _ | reduce ty _ => [ty]
  | call signature .. => signature.result.toList.map Param.ty
  | store .. | ret => []

section
variable {callees : Callees} {place : Nat → WordTy → Prop} {types : List WordTy} {f : Frame}
  {i : Instr} {is is' : List Instr}

/-! ## Code that stays within places -/

/-- An instruction accesses memory only at a place behind the parameter that is made for the type of
what is moved. -/
def Instr.Within (place : Nat → WordTy → Prop) (types : List WordTy) : Instr → Prop
  | load ty base offset => base = 0 ∧ place offset ty
  | store value base offset => base = 0 ∧ ∃ ty, types[value]? = some ty ∧ place offset ty
  | _ => True

/-- Instructions access memory only at such places, given the types of the values before them. -/
def Within (place : Nat → WordTy → Prop) : List WordTy → List Instr → Prop
  | _, [] => True
  | types, i :: is => i.Within place types ∧ Within place (types ++ i.types) is

theorem within_append : Within place types (is ++ is') ↔
    Within place types is ∧ Within place (types ++ is.flatMap Instr.types) is' := by
  induction is generalizing types with
  | nil => simp [Within]
  | cons i is ih =>
      rw [List.cons_append, Within, Within, ih, List.flatMap_cons, List.append_assoc, and_assoc]

/-! ## Runs -/

theorem Instr.types_run (callees : Callees) (f : Frame) (i : Instr) :
    (i.run callees f).values.map Word.ty = f.values.map Word.ty ++ i.types := by
  cases i with
  | addImm | load | store | signExtend | zeroExtend | reduce | ret =>
      simp [run, types, Frame.define, Word.ofAddress, Word.ofImage, Word.signExtend, WordTy.word]
  | call signature =>
      obtain ⟨params, result⟩ := signature
      cases result <;> simp [run, types, Frame.define, WordTy.word]

/-- Values keep their numbers. -/
theorem Instr.values_run (callees : Callees) (f : Frame) (i : Instr) :
    f.values <+: (i.run callees f).values := by
  cases i with
  | addImm | load | store | signExtend | zeroExtend | reduce | ret => simp [run, Frame.define]
  | call signature =>
      obtain ⟨params, result⟩ := signature
      cases result <;> simp [run, Frame.define]

/-- An instruction that stays within places accesses one of them. -/
theorem Instr.Within.access {param : UInt64} (h : i.Within place types)
    (typed : f.values.map Word.ty = types) (first : f.values[0]? = some (.ofAddress param))
    {access : Access} (made : i.access? f = some access) :
    ∃ offset, place offset access.ty ∧ access.address = param + UInt64.ofNat offset := by
  have start (offset : Nat) : f.addressAt 0 offset = param + UInt64.ofNat offset := by
    rw [Frame.addressAt, Frame.value_of_getElem? first, Word.address_ofAddress]
  cases i with
  | load ty base offset =>
      obtain ⟨rfl, allowed⟩ := h
      cases made
      exact ⟨offset, allowed, start offset⟩
  | store value base offset =>
      obtain ⟨rfl, ty, stored, allowed⟩ := h
      cases made
      refine ⟨offset, ?_, start offset⟩
      rw [← typed, List.getElem?_map] at stored
      obtain ⟨w, held, rfl⟩ := Option.map_eq_some_iff.mp stored
      rw [Frame.value_of_getElem? held]
      exact allowed
  | addImm | signExtend | zeroExtend | reduce | call | ret => cases made

/-- Instructions that stay within places make all their accesses there, whatever their callees
do. -/
theorem accesses_of_within {param : UInt64} (h : Within place types is)
    (typed : f.values.map Word.ty = types) (first : f.values[0]? = some (.ofAddress param)) :
    ∀ access ∈ accesses callees f is,
      ∃ offset, place offset access.ty ∧ access.address = param + UInt64.ofNat offset := by
  induction is generalizing f types with
  | nil => exact nofun
  | cons i is ih =>
      obtain ⟨here, later⟩ := h
      by_cases ret : i = .ret
      · rw [ret]
        exact nofun
      · have unfolded : accesses callees f (i :: is) =
            (i.access? f).toList ++ accesses callees (i.run callees f) is := by
          cases i with
          | ret => exact absurd rfl ret
          | addImm | load | store | signExtend | zeroExtend | reduce | call => rfl
        rw [unfolded]
        intro access member
        rcases List.mem_append.mp member with now | behind
        · exact here.access typed first (Option.mem_toList.mp now)
        · refine ih later ?_ (getElem?_of_grown (i.values_run callees f) first) access behind
          rw [i.types_run, typed]

theorem Code.accesses_of_within {code : Code} {param : UInt64} {contents : Contents}
    (h : Within place [.i64] code.instrs) : ∀ access ∈ code.accesses callees param contents,
      ∃ offset, place offset access.ty ∧ access.address = param + UInt64.ofNat offset :=
  Machine.accesses_of_within h rfl rfl

end

/-! ## Lowering -/

section
variable {place : Nat → WordTy → Prop} {b b' : Builder} {i : Instr}

/-- The types of the values defined so far. -/
def Builder.types (b : Builder) : List WordTy := .i64 :: b.instrs.flatMap Instr.types

/-- The code so far stays within places, and the next value is the number of values. -/
structure Builder.Within (place : Nat → WordTy → Prop) (b : Builder) : Prop where
  code : Machine.Within place [.i64] b.instrs
  next : b.next = b.types.length

namespace Builder.Within

theorem start : (⟨[], 1⟩ : Builder).Within place := ⟨trivial, rfl⟩

theorem snoc (h : b.Within place) (allowed : i.Within place b.types) :
    Machine.Within place [.i64] (b.instrs ++ [i]) :=
  within_append.mpr ⟨h.code, allowed, trivial⟩

theorem types_snoc (b : Builder) (i : Instr) (next : Reg) :
    (⟨b.instrs ++ [i], next⟩ : Builder).types = b.types ++ i.types := by
  simp [types]

theorem define (h : b.Within place) (allowed : i.Within place b.types) {ty : WordTy}
    (one : i.types = [ty]) : (⟨b.instrs ++ [i], b.next + 1⟩ : Builder).Within place ∧
      (⟨b.instrs ++ [i], b.next + 1⟩ : Builder).types[b.next]? = some ty := by
  have types := types_snoc b i (b.next + 1)
  rw [one] at types
  refine ⟨⟨h.snoc allowed, ?_⟩, ?_⟩
  · rw [types, List.length_append, ← h.next]
    rfl
  · rw [types, h.next, List.getElem?_concat_length]

theorem emit (h : b.Within place) (allowed : i.Within place b.types) (none : i.types = []) :
    ({ b with instrs := b.instrs ++ [i] } : Builder).Within place := by
  refine ⟨h.snoc allowed, ?_⟩
  rw [types_snoc, none, List.append_nil]
  exact h.next

/-- Conversions access nothing. -/
theorem convert (h : b.Within place) {source target : Ty} {r r' : Reg}
    (gives : Gives (convert r source target) b r' b') : b'.Within place := by
  unfold Machine.convert at gives
  split at gives
  next a c =>
    split at gives
    · split at gives
      · obtain ⟨-, rfl⟩ := gives_define.mp gives
        exact (h.define (i := .signExtend (intWord c) r) trivial rfl).1
      · obtain ⟨-, rfl⟩ := gives_define.mp gives
        exact (h.define (i := .zeroExtend (intWord c) r) trivial rfl).1
    · split at gives
      · obtain ⟨-, rfl⟩ := gives_define.mp gives
        exact (h.define (i := .reduce (intWord c) r) trivial rfl).1
      · obtain ⟨-, rfl⟩ := gives_pure.mp gives
        exact h
  all_goals
    first
    | exact (gives_pure.mp gives).2 ▸ h
    | exact absurd gives not_gives_throw

/-- Calls access nothing by themselves, and their result has the type in their signature. -/
theorem emitCall (h : b.Within place) {signature : CallSignature} {callee : Reg} {args : List Reg}
    {found : Option Reg} (gives : Gives (emitCall signature callee args) b found b') :
    b'.Within place ∧
      ∀ r ∈ found, b'.types[r]? = signature.result.map Param.ty := by
  unfold Machine.emitCall at gives
  cases result : signature.result with
  | none =>
      rw [result] at gives
      simp only [Option.isSome_none, Bool.false_eq_true, if_false, gives_bind, gives_emit,
        gives_pure] at gives
      obtain ⟨_, _, rfl, rfl, rfl⟩ := gives
      have none : (Instr.call signature callee args).types = [] := by
        rw [Instr.types, result]
        rfl
      refine ⟨h.emit (i := .call signature callee args) trivial none, ?_⟩
      rintro r ⟨⟩
  | some p =>
      rw [result] at gives
      simp only [Option.isSome_some, if_true, gives_bind, gives_define, gives_pure] at gives
      obtain ⟨_, _, ⟨rfl, rfl⟩, rfl, rfl⟩ := gives
      have one : (Instr.call signature callee args).types = [p.ty] := by
        rw [Instr.types, result]
        rfl
      obtain ⟨within, held⟩ := h.define (i := .call signature callee args) trivial one
      refine ⟨within, ?_⟩
      rintro r ⟨⟩
      exact held

end Builder.Within

end

end CallThunk.Machine
