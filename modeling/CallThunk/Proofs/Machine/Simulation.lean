import CallThunk.Machine.Execution
import CallThunk.Machine.Lowering
import CallThunk.Proofs.Checked.Evaluation
import CallThunk.Proofs.Checked.Soundness
import CallThunk.Proofs.Process.Memory
import CallThunk.Proofs.Runs
import Mathlib.Data.List.Forall2

/-!
# Lowering keeps the meaning of bodies

Code does what evaluating the body does: the same calls with the same words in the same order, and
the same memory behind them. Each step of lowering adds code that leads one frame to the next one,
where values once defined stay, and every value of the code is a word of the evaluation.
-/

namespace CallThunk.Machine

open Checked (Bindings World castInt convertWord evalExpr evalArgs evalValue evalBody)

variable {callees : Callees} {b b' b'' : Builder} {f f' f'' : Frame}

/-! ## Runs of lowering -/

@[simp] theorem gives_emit {i : Instr} {u : PUnit} :
    Gives (emit i) b u b' ↔ b' = { b with instrs := b.instrs ++ [i] } := by
  constructor
  · intro h
    cases h
    rfl
  · rintro rfl
    rfl

@[simp] theorem gives_define {i : Instr} {r : Reg} :
    Gives (define i) b r b' ↔ r = b.next ∧ b' = ⟨b.instrs ++ [i], b.next + 1⟩ := by
  constructor
  · intro h
    cases h
    exact ⟨rfl, rfl⟩
  · rintro ⟨rfl, rfl⟩
    rfl

@[simp] theorem gives_require {ty : Ty} {found : Option Reg} {r : Reg} :
    Gives (require ty found) b r b' ↔ found = some r ∧ b' = b := by
  cases found with
  | none => simp [require]
  | some r' => simp [require, eq_comm]

/-! ## Code between frames -/

/-- The code that one builder has more than another leads one frame to the next one, which keeps the
values and has as many as are numbered. -/
structure Leads (callees : Callees) (b : Builder) (f : Frame) (b' : Builder) (f' : Frame) :
    Prop where
  code : ∃ is, b'.instrs = b.instrs ++ is ∧
    ∀ rest, runInstrs callees f (is ++ rest) = runInstrs callees f' rest
  values : f.values <+: f'.values
  next : f'.values.length = b'.next

namespace Leads

theorem refl (h : f.values.length = b.next) : Leads callees b f b f :=
  ⟨⟨[], by simp⟩, List.prefix_rfl, h⟩

theorem trans (h : Leads callees b f b' f') (h' : Leads callees b' f' b'' f'') :
    Leads callees b f b'' f'' := by
  obtain ⟨is, his, run⟩ := h.code
  obtain ⟨is', his', run'⟩ := h'.code
  refine ⟨⟨is ++ is', ?_, fun rest => ?_⟩, h.values.trans h'.values, h'.next⟩
  · rw [his', his, List.append_assoc]
  · rw [List.append_assoc, run, run']

/-- An instruction that defines a value. -/
theorem define {i : Instr} {w : Word} (hb : f.values.length = b.next) (hi : i ≠ .ret)
    (run : i.run callees f = f'.define w) (values : f'.values = f.values) :
    Leads callees b f ⟨b.instrs ++ [i], b.next + 1⟩ (f'.define w) := by
  refine ⟨⟨[i], rfl, fun rest => ?_⟩, ?_, ?_⟩
  · rw [List.singleton_append, runInstrs_cons hi, run]
  · exact ⟨[w], by simp [Frame.define, values]⟩
  · simp [Frame.define, values, hb]

/-- An instruction without a value. -/
theorem emit {i : Instr} (hb : f.values.length = b.next) (hi : i ≠ .ret)
    (run : i.run callees f = f') (values : f'.values = f.values) :
    Leads callees b f { b with instrs := b.instrs ++ [i] } f' := by
  refine ⟨⟨[i], rfl, fun rest => ?_⟩, values ▸ List.prefix_rfl, ?_⟩
  · rw [List.singleton_append, runInstrs_cons hi, run]
  · rw [values, hb]

end Leads

/-! ## Words of types -/

/-- A word is a value of a type. -/
structure Word.Fits (w : Word) (ty : Ty) : Prop where
  word : ty.word? = some w.ty
  bits : w.bits < 256 ^ w.ty.bytes

theorem wordTy_eq_ok {ty : Ty} {word : WordTy} : wordTy ty = .ok word ↔ ty.word? = some word := by
  cases ty with
  | int kind => cases kind <;> simp [wordTy, intWord, Ty.word?]
  | float kind => cases kind <;> simp [wordTy, floatWord, Ty.word?]
  | void | bool | pointer | function | record => simp [wordTy, Ty.word?]

theorem word?_int (kind : IntKind) : (Ty.int kind).word? = some (intWord kind) := by
  cases kind <;> rfl

theorem bytes_intWord (kind : IntKind) : (intWord kind).bytes = kind.bytes := by
  cases kind <;> rfl

theorem WordTy.word_fits {ty : Ty} {word : WordTy} (h : ty.word? = some word) (n : Nat) :
    (word.word n).Fits ty :=
  ⟨h, Nat.mod_lt _ (Nat.pow_pos (by decide))⟩

theorem Word.ofImage_fits {ty : Ty} {word : WordTy} (h : ty.word? = some word)
    {bytes : List UInt8} (hb : bytes.length = word.bytes) : (Word.ofImage word bytes).Fits ty := by
  refine ⟨h, ?_⟩
  have bound := ByteOrder.value_lt .little bytes
  rwa [hb] at bound

theorem Word.ofAddress_fits {ty : Ty} (h : ty.word? = some .i64) (a : UInt64) :
    (Word.ofAddress a).Fits ty := ⟨h, a.toNat_lt⟩

@[simp] theorem Word.address_ofAddress (a : UInt64) : (Word.ofAddress a).address = a := by
  simp [address, ofAddress]

theorem Word.ofAddress_address {w : Word} {ty : Ty} (h : w.Fits ty) (hty : ty.word? = some .i64) :
    Word.ofAddress w.address = w := by
  obtain ⟨word, bits⟩ := w
  obtain ⟨hw, hb⟩ := h
  cases hw.symm.trans hty
  show (⟨.i64, (UInt64.ofNat bits).toNat⟩ : Word) = ⟨.i64, bits⟩
  rw [UInt64.toNat_ofNat', show bits % 2 ^ 64 = bits from Nat.mod_eq_of_lt hb]

/-! ## Conversions -/

theorem pow_256 (kind : IntKind) : 256 ^ kind.bytes = 2 ^ kind.width := by
  rw [IntKind.width, Nat.pow_mul]

/-- The number of a pattern is the pattern up to a multiple of the width. -/
theorem intValue_emod (kind : IntKind) {n : Nat} (h : n < 2 ^ kind.width) {m : Nat}
    (hm : m ≤ kind.width) :
    Value.intValue kind (BitVec.ofNat kind.width n) % (2 ^ m : Nat) = (n % 2 ^ m : Nat) := by
  have dvd : ((2 ^ m : Nat) : Int) ∣ ((2 ^ kind.width : Nat) : Int) :=
    Int.natCast_dvd_natCast.mpr (Nat.pow_dvd_pow 2 hm)
  unfold Value.intValue
  split
  · rw [BitVec.toInt_eq_toNat_bmod, BitVec.toNat_ofNat, Nat.mod_eq_of_lt h,
      ← Int.emod_emod_of_dvd _ dvd, Int.bmod_emod, Int.emod_emod_of_dvd _ dvd]
    rfl
  · rw [BitVec.toNat_ofNat, Nat.mod_eq_of_lt h]
    rfl

theorem castInt_of_le {a b : IntKind} {n : Nat} (h : n < 2 ^ a.width) (hab : b.width ≤ a.width) :
    castInt a b n = n % 2 ^ b.width := by
  have number := intValue_emod a h hab
  rw [Int.natCast_pow] at number
  unfold castInt
  rw [show (2 : Int) = ((2 : Nat) : Int) from rfl, number, Int.toNat_natCast]

theorem castInt_lt (a b : IntKind) (n : Nat) : castInt a b n < 2 ^ b.width := by
  have pos : (0 : Int) < 2 ^ b.width := Int.pow_pos (by decide)
  have upper := Int.emod_lt_of_pos (Value.intValue a (BitVec.ofNat a.width n)) pos
  refine (Int.toNat_lt (Int.emod_nonneg _ (Int.ne_of_gt pos))).mpr ?_
  exact_mod_cast upper

theorem Word.Fits.int {kind : IntKind} {w : Word} (h : w.Fits (.int kind)) :
    w.ty = intWord kind ∧ w.bits < 2 ^ kind.width := by
  obtain ⟨hword, hbits⟩ := h
  rw [word?_int] at hword
  have word := (Option.some.inj hword).symm
  rw [word, bytes_intWord, pow_256] at hbits
  exact ⟨word, hbits⟩

theorem signed_of_fits {kind : IntKind} {w : Word} (hw : w.Fits (.int kind))
    (hs : kind.isSigned) : w.signed = Value.intValue kind (BitVec.ofNat kind.width w.bits) := by
  obtain ⟨word, bits⟩ := hw.int
  unfold Word.signed Value.intValue
  rw [if_pos hs, BitVec.toInt_eq_toNat_cond, BitVec.toNat_ofNat, Nat.mod_eq_of_lt bits, word,
    bytes_intWord, pow_256]

/-- The word of a converted integer is the number modulo its width, whichever instruction makes
it. -/
theorem castInt_fits (a b : IntKind) (n : Nat) :
    (⟨intWord b, castInt a b n⟩ : Word).Fits (.int b) := by
  refine ⟨word?_int b, ?_⟩
  rw [bytes_intWord, pow_256]
  exact castInt_lt a b n

theorem signExtend_eq {a : IntKind} {w : Word} (hw : w.Fits (.int a)) (hs : a.isSigned)
    (b : IntKind) : w.signExtend (intWord b) = ⟨intWord b, castInt a b w.bits⟩ := by
  unfold Word.signExtend castInt
  rw [signed_of_fits hw hs, bytes_intWord, pow_256, Int.natCast_pow]
  rfl

theorem zeroExtend_eq {a b : IntKind} {w : Word} (hw : w.Fits (.int a)) (hs : ¬ a.isSigned) :
    (intWord b).word w.bits = ⟨intWord b, castInt a b w.bits⟩ := by
  obtain ⟨-, bits⟩ := hw.int
  unfold WordTy.word castInt Value.intValue
  rw [if_neg hs, bytes_intWord, pow_256, BitVec.toNat_ofNat, Nat.mod_eq_of_lt bits]
  norm_cast

theorem reduce_eq {a b : IntKind} {w : Word} (hw : w.Fits (.int a)) (hab : b.width ≤ a.width) :
    (intWord b).word w.bits = ⟨intWord b, castInt a b w.bits⟩ := by
  obtain ⟨-, bits⟩ := hw.int
  rw [WordTy.word, bytes_intWord, pow_256, castInt_of_le bits hab]

theorem keep_eq {a b : IntKind} {w : Word} (hw : w.Fits (.int a)) (hab : b.bytes = a.bytes) :
    w = ⟨intWord b, castInt a b w.bits⟩ := by
  obtain ⟨word, bits⟩ := hw.int
  have width : b.width = a.width := by rw [IntKind.width, IntKind.width, hab]
  rw [castInt_of_le bits (Nat.le_of_eq width), width, Nat.mod_eq_of_lt bits]
  obtain ⟨ty, n⟩ := w
  have same : intWord b = intWord a := by
    revert hab
    cases a <;> cases b <;> decide
  rw [same, ← word]

/-! ## Frames and evaluations -/

/-- What a frame and an evaluation share. -/
def Frame.world (f : Frame) : World := ⟨f.contents, f.calls⟩

theorem Frame.value_of_getElem? {r : Reg} {w : Word} (h : f.values[r]? = some w) :
    f.value r = w := by
  rw [Frame.value, List.getD_eq_getElem?_getD, h]
  rfl

theorem getElem?_of_grown {α : Type} {r : Reg} {w : α} {ws ws' : List α} (h : ws <+: ws')
    (hr : ws[r]? = some w) : ws'[r]? = some w := by
  obtain ⟨more, rfl⟩ := h
  rw [List.getElem?_append_left (List.getElem?_eq_some_iff.mp hr).1, hr]

theorem Frame.getElem?_define (hb : f.values.length = b.next) (w : Word) :
    (f.define w).values[b.next]? = some w := by
  simp [Frame.define, ← hb]

/-- The code leads to a frame that holds a word in a register, and leaves the world as it is. -/
def Makes (callees : Callees) (b : Builder) (f : Frame) (r : Reg) (w : Word) (b' : Builder) :
    Prop :=
  ∃ f', Leads callees b f b' f' ∧ f'.values[r]? = some w ∧ f'.world = f.world

theorem makes_held {r : Reg} {w : Word} (hb : f.values.length = b.next)
    (held : f.values[r]? = some w) : Makes callees b f r w b := ⟨f, .refl hb, held, rfl⟩

theorem makes_define (callees : Callees) {i : Instr} {w : Word}
    (hb : f.values.length = b.next) (hi : i ≠ .ret) (run : i.run callees f = f.define w) :
    Makes callees b f b.next w ⟨b.instrs ++ [i], b.next + 1⟩ :=
  ⟨f.define w, .define hb hi run rfl, Frame.getElem?_define hb w, rfl⟩

theorem simulate_convert (callees : Callees) {source target : Ty} {r r' : Reg} {w : Word}
    (h : Gives (convert r source target) b r' b') (hb : f.values.length = b.next)
    (held : f.values[r]? = some w) (fits : w.Fits source) :
    ∃ w', convertWord source target w = some w' ∧ w'.Fits target ∧
      Makes callees b f r' w' b' := by
  have value := Frame.value_of_getElem? held
  have address (hs : source.word? = some .i64) (ht : target.word? = some .i64)
      (h : Gives (pure r : Lower Reg) b r' b') (hc : convertWord source target w = some w) :
      ∃ w', convertWord source target w = some w' ∧ w'.Fits target ∧
        Makes callees b f r' w' b' := by
    obtain ⟨rfl, rfl⟩ := gives_pure.mp h
    exact ⟨w, hc, ⟨ht.trans (hs.symm.trans fits.word), fits.bits⟩, makes_held hb held⟩
  -- only integers change their words; all other conversions are between addresses or refused
  unfold convert at h
  split at h
  next a c =>
    refine ⟨⟨intWord c, castInt a c w.bits⟩, ?_, castInt_fits a c w.bits, ?_⟩
    · rw [convertWord, word?_int]
      rfl
    · split at h
      next wider =>
        split at h
        next signed =>
          obtain ⟨rfl, rfl⟩ := gives_define.mp h
          refine makes_define callees hb (by simp) ?_
          rw [Instr.run, value, signExtend_eq fits signed]
        next unsigned =>
          obtain ⟨rfl, rfl⟩ := gives_define.mp h
          refine makes_define callees hb (by simp) ?_
          rw [Instr.run, value, zeroExtend_eq fits unsigned]
      next notWider =>
        have width : c.width ≤ a.width := Nat.mul_le_mul_left 8 (Nat.le_of_not_lt notWider)
        split at h
        next narrower =>
          obtain ⟨rfl, rfl⟩ := gives_define.mp h
          refine makes_define callees hb (by simp) ?_
          rw [Instr.run, value, reduce_eq fits width]
        next notNarrower =>
          obtain ⟨rfl, rfl⟩ := gives_pure.mp h
          rw [← keep_eq fits (by omega)]
          exact makes_held hb held
  all_goals first | exact address rfl rfl h rfl | exact absurd h not_gives_throw

/-! ## Calls -/

/-- A register stands for a word, or both are missing. -/
def Holds (f : Frame) : Option Reg → Option Word → Prop
  | some r, some w => f.values[r]? = some w
  | none, none => True
  | _, _ => False

/-- Registers stand for words, one by one. -/
abbrev HoldsAll (f : Frame) (rs : List Reg) (ws : List Word) : Prop :=
  List.Forall₂ (fun r w => f.values[r]? = some w) rs ws

theorem Holds.later {found : Option Reg} {w : Option Word} (h : Leads callees b f b' f')
    (hr : Holds f found w) : Holds f' found w := by
  cases found <;> cases w <;> first | exact hr | exact getElem?_of_grown h.values hr

theorem HoldsAll.later {rs : List Reg} {ws : List Word} (h : Leads callees b f b' f')
    (hr : HoldsAll f rs ws) : HoldsAll f' rs ws :=
  hr.imp fun _ _ held => getElem?_of_grown h.values held

theorem HoldsAll.values {rs : List Reg} {ws : List Word} (h : HoldsAll f rs ws) :
    rs.map f.value = ws := by
  induction h with
  | nil => rfl
  | cons held _ ih => rw [List.map_cons, ih, Frame.value_of_getElem? held]

theorem Holds.of_some {r : Reg} {w : Option Word} (h : Holds f (some r) w) :
    ∃ w', w = some w' ∧ f.values[r]? = some w' := by
  cases w with
  | none => exact h.elim
  | some w => exact ⟨w, rfl, h⟩

/-- The signature of a call has a result exactly when the result type has words. -/
theorem result_of_machineSignature {s : Signature} {ms : CallSignature}
    (h : machineSignature s = .ok ms) : ms.result.map Param.ty = s.ret.word? := by
  obtain ⟨ret, params, variadic⟩ := s
  cases variadic with
  | true => cases h
  | false =>
      unfold machineSignature at h
      simp only [Bool.false_eq_true, if_false] at h
      cases ret with
      | void =>
          obtain ⟨ps, -, h⟩ := bind_eq_ok.mp h
          cases h
          rfl
      | record r =>
          dsimp only at h
          split at h
          · obtain ⟨ps, -, h⟩ := bind_eq_ok.mp h
            cases h
            rfl
          · cases h
      | bool | int | float | pointer | function =>
          obtain ⟨result, hresult, h⟩ := bind_eq_ok.mp h
          obtain ⟨ps, -, h⟩ := bind_eq_ok.mp h
          obtain ⟨word, hword, hresult⟩ := bind_eq_ok.mp hresult
          cases h
          cases hresult
          exact (wordTy_eq_ok.mp hword).symm

/-- A call changes memory as its callee does and keeps a result that the signature has. -/
theorem Instr.run_call {ms : CallSignature} {target : Reg} {w : Word} {regs : List Reg}
    {words : List Word} (held : f.values[target]? = some w) (args : HoldsAll f regs words) :
    (Instr.call ms target regs).run callees f =
      match ms.result with
      | some result => Frame.define { f with
          contents := (callees w.address words f.contents).2
          calls := f.calls ++ [⟨w.address, words⟩] }
          (result.ty.word (callees w.address words f.contents).1)
      | none => { f with
          contents := (callees w.address words f.contents).2
          calls := f.calls ++ [⟨w.address, words⟩] } := by
  cases hr : ms.result <;>
    simp only [Instr.run, Frame.value_of_getElem? held, args.values, hr]

theorem simulate_emitCall {ret : Ty} {ms : CallSignature} {target : Reg} {w : Word}
    {regs : List Reg} {words : List Word} {r : Option Reg}
    (result : ms.result.map Param.ty = ret.word?) (hb : f.values.length = b.next)
    (held : f.values[target]? = some w) (args : HoldsAll f regs words)
    (h : Gives (emitCall ms target regs) b r b') :
    ∃ v f', (Checked.invoke callees w.address ret words).Gives f.world v f'.world ∧
      Leads callees b f b' f' ∧ Holds f' r v ∧ ∀ w' ∈ v, w'.Fits ret := by
  have run := @Instr.run_call callees f ms target w regs words held args
  unfold emitCall at h
  cases hr : ms.result with
  | none =>
      rw [hr] at run result h
      simp only [Option.isSome_none, Bool.false_eq_true, if_false, gives_bind,
        gives_emit, gives_pure] at h
      obtain ⟨_, _, rfl, rfl, rfl⟩ := h
      refine ⟨none, _, ?_, .emit hb (by simp) run rfl, trivial, by simp⟩
      rw [Checked.Eval.gives_invoke, ← result]
      exact ⟨rfl, rfl⟩
  | some p =>
      rw [hr] at run result h
      simp only [Option.isSome_some, if_true, gives_bind, gives_define,
        gives_pure] at h
      obtain ⟨_, _, ⟨rfl, rfl⟩, rfl, rfl⟩ := h
      refine ⟨some _, _, ?_, .define hb (by simp) run rfl, Frame.getElem?_define hb _, ?_⟩
      · rw [Checked.Eval.gives_invoke, ← result]
        exact ⟨rfl, rfl⟩
      · rintro w' ⟨⟩
        exact WordTy.word_fits result.symm _

/-! ## Expressions -/

/-- A frame holds what the leaves of a body stand for, and the locals have their types. -/
structure Represents (f : Frame) (bindings : Bindings) (tys : List Ty) (regs : List Reg) :
    Prop where
  param : f.values[0]? = some (.ofAddress bindings.param)
  locals : HoldsAll f regs bindings.locals
  typed : List.Forall₂ Word.Fits bindings.locals tys

theorem Represents.later {bindings : Bindings} {tys : List Ty} {regs : List Reg}
    (hr : Represents f bindings tys regs) (h : Leads callees b f b' f') :
    Represents f' bindings tys regs :=
  ⟨getElem?_of_grown h.values hr.param, hr.locals.later h, hr.typed⟩

theorem Represents.bind {bindings : Bindings} {tys : List Ty} {regs : List Reg} {r : Reg} {w : Word}
    {ty : Ty} (hr : Represents f bindings tys regs) (held : f.values[r]? = some w)
    (fits : w.Fits ty) :
    Represents f { bindings with locals := bindings.locals ++ [w] } (tys ++ [ty])
      (regs ++ [r]) where
  param := hr.param
  locals := List.rel_append hr.locals (List.Forall₂.cons held List.Forall₂.nil)
  typed := List.rel_append hr.typed (List.Forall₂.cons fits List.Forall₂.nil)

theorem getElem?_of_forall₂ {α β : Type} {R : α → β → Prop} {xs : List α} {ys : List β}
    (h : List.Forall₂ R xs ys) {i : Nat} {x : α} (hx : xs[i]? = some x) :
    ∃ y, ys[i]? = some y ∧ R x y := by
  induction h generalizing i with
  | nil => cases hx
  | cons head _ ih =>
      cases i with
      | zero =>
          cases hx
          exact ⟨_, rfl, head⟩
      | succ i => exact ih hx

theorem word?_of_hasValues {ty : Ty} (h : ty.hasValues) : ∃ word, ty.word? = some word := by
  cases ty with
  | void | record => cases h
  | bool | pointer | function => exact ⟨_, rfl⟩
  | int kind => exact ⟨_, word?_int kind⟩
  | float kind => cases kind <;> exact ⟨_, rfl⟩

/-- The address that an access uses is the one that the evaluation uses. -/
theorem addressAt_eq {r : Reg} {w : Word} {offset : UInt32} (held : f.values[r]? = some w) :
    f.addressAt r offset.toNat = Checked.fieldOf w offset := by
  rw [Frame.addressAt, Frame.value_of_getElem? held, Checked.fieldOf]
  congr 1
  simp

theorem offset_of_fieldOffset {offset : UInt32} {n : Nat} (h : fieldOffset offset = .ok n) :
    n = offset.toNat := by
  unfold fieldOffset at h
  split at h <;> cases h
  rfl

theorem hidden_of_resultPointer {ret : Ty} {dest : Option Reg} {addr : Option UInt64}
    {regs : List Reg} (hdest : Holds f dest (addr.map Word.ofAddress))
    (h : Gives (resultPointer ret dest) b regs b') :
    b' = b ∧ ∃ words, Checked.hiddenArgs ret addr = some words ∧ HoldsAll f regs words := by
  have none_of (h : Gives (pure [] : Lower (List Reg)) b regs b')
      (hidden : Checked.hiddenArgs ret addr = some []) :
      b' = b ∧ ∃ words, Checked.hiddenArgs ret addr = some words ∧ HoldsAll f regs words := by
    obtain ⟨rfl, rfl⟩ := gives_pure.mp h
    exact ⟨rfl, [], hidden, .nil⟩
  cases ret with
  | record record =>
      cases dest with
      | none => exact absurd h not_gives_throw
      | some reg =>
          obtain ⟨rfl, rfl⟩ := gives_pure.mp h
          obtain ⟨w, hw, held⟩ := Holds.of_some hdest
          obtain ⟨a, rfl, rfl⟩ := Option.map_eq_some_iff.mp hw
          exact ⟨rfl, _, rfl, .cons held .nil⟩
  | void | bool | int | float | pointer | function => exact none_of h rfl

section
variable {paramTy : Ty} {tys : List Ty} {bindings : Bindings} {regs : List Reg}

open Checked (Typed ArgsTyped Eval)

/-- What the code of arguments does: it evaluates them. -/
def Passes (callees : Callees) (bindings : Bindings) (tys : List Ty) (regs : List Reg)
    (args : List Checked.Expr) : Prop :=
  ∀ {rs : List Reg} {b b' : Builder} {f : Frame}, Represents f bindings tys regs →
    f.values.length = b.next → Gives (genArgs regs args) b rs b' →
      ∃ ws f', (evalArgs callees bindings args).Gives f.world ws f'.world ∧
        Leads callees b f b' f' ∧ HoldsAll f' rs ws

/-- What the code of an expression of a type does: it evaluates the expression. -/
def Computes (callees : Callees) (bindings : Bindings) (tys : List Ty)
    (regs : List Reg) (e : Checked.Expr) (ty : Ty) : Prop :=
  ∀ (dest : Option Reg) (addr : Option UInt64) {r : Option Reg} {b b' : Builder} {f : Frame},
    Represents f bindings tys regs → f.values.length = b.next →
    Holds f dest (addr.map Word.ofAddress) → Gives (genExpr regs dest e) b r b' →
      ∃ v f', (evalExpr callees bindings addr e).Gives f.world v f'.world ∧
        Leads callees b f b' f' ∧ Holds f' r v ∧ ∀ w ∈ v, w.Fits ty

theorem Passes.nil : Passes callees bindings tys regs [] := by
  intro rs b b' f hf hb h
  rw [genArgs] at h
  obtain ⟨rfl, rfl⟩ := gives_pure.mp h
  refine ⟨[], f, ?_, .refl hb, .nil⟩
  rw [evalArgs]
  exact Eval.gives_pure.mpr ⟨rfl, rfl⟩

theorem Passes.cons {arg : Checked.Expr} {args : List Checked.Expr} {ty : Ty}
    (first : Computes callees bindings tys regs arg ty)
    (rest : Passes callees bindings tys regs args) :
    Passes callees bindings tys regs (arg :: args) := by
  intro rs b b' f hf hb h
  rw [genArgs] at h
  simp only [gives_bind, gives_require, gives_pure] at h
  obtain ⟨_, t, harg, reg, _, ⟨rfl, rfl⟩, others, u, hothers, rfl, rfl⟩ := h
  obtain ⟨v, f₁, eval, leads, held, -⟩ := first none none hf hb trivial harg
  obtain ⟨w, rfl, held⟩ := held.of_some
  obtain ⟨ws, f₂, evals, leads', heldAll⟩ := rest (hf.later leads) leads.next hothers
  refine ⟨w :: ws, f₂, ?_, leads.trans leads',
    .cons (getElem?_of_grown leads'.values held) heldAll⟩
  rw [evalArgs]
  simp only [Eval.gives_bind, Eval.gives_lift, Eval.gives_pure]
  exact ⟨_, _, eval, _, _, ⟨rfl, rfl⟩, _, _, evals, rfl, rfl⟩

theorem Computes.param (pointer : paramTy.word? = some .i64) :
    Computes callees bindings tys regs (.param paramTy) paramTy := by
  intro _ _ r b b' f hf hb _ h
  rw [genExpr] at h
  obtain ⟨rfl, rfl⟩ := gives_pure.mp h
  refine ⟨some (.ofAddress bindings.param), f, ?_, .refl hb, hf.param, ?_⟩
  · rw [evalExpr]
    exact Eval.gives_pure.mpr ⟨rfl, rfl⟩
  · rintro w ⟨⟩
    exact Word.ofAddress_fits pointer _

theorem Computes.localVar {ty : Ty} {index : Nat} (bound : tys[index]? = some ty) :
    Computes callees bindings tys regs (.localVar ty index) ty := by
  intro _ _ r b b' f hf hb _ h
  rw [genExpr] at h
  split at h
  next reg hreg =>
    obtain ⟨rfl, rfl⟩ := gives_pure.mp h
    obtain ⟨w, hw, held⟩ := getElem?_of_forall₂ hf.locals hreg
    obtain ⟨ty', hty, fits⟩ := getElem?_of_forall₂ hf.typed hw
    cases bound.symm.trans hty
    refine ⟨some w, f, ?_, .refl hb, held, ?_⟩
    · rw [evalExpr]
      simp only [Eval.gives_bind, Eval.gives_lift, Eval.gives_pure]
      exact ⟨_, _, ⟨hw, rfl⟩, rfl, rfl⟩
    · rintro w ⟨⟩
      exact fits
  next => exact absurd h not_gives_throw

/-- The same for an expression that must have a value. -/
theorem Computes.value {e : Checked.Expr} {ty : Ty} {r : Option Reg} {reg : Reg}
    (he : Computes callees bindings tys regs e ty)
    (hf : Represents f bindings tys regs) (hb : f.values.length = b.next)
    (h : Gives (genExpr regs none e) b r b') (hr : r = some reg) :
    ∃ w f', (evalExpr callees bindings none e).Gives f.world (some w) f'.world ∧
      Leads callees b f b' f' ∧ f'.values[reg]? = some w ∧ w.Fits ty := by
  obtain ⟨v, f', eval, leads, held, fits⟩ := he none none hf hb trivial h
  rw [hr] at held
  obtain ⟨w, rfl, held⟩ := held.of_some
  exact ⟨w, f', eval, leads, held, fits w rfl⟩

theorem Computes.load {base : Checked.Expr} {ty baseTy : Ty} {offset : UInt32}
    (hbase : Computes callees bindings tys regs base baseTy) :
    Computes callees bindings tys regs (.load ty base offset) ty := by
  intro _ _ r b b' f hf hb _ h
  rw [genExpr] at h
  simp only [gives_bind, gives_require, gives_liftM, gives_define,
    gives_pure] at h
  obtain ⟨_, t, gen, reg, _, ⟨hreg, rfl⟩, word, _, ⟨hword, rfl⟩, n, _, ⟨hoffset, rfl⟩, _, _,
    ⟨rfl, rfl⟩, rfl, rfl⟩ := h
  obtain ⟨w, f', eval, leads, held, -⟩ := hbase.value hf hb gen hreg
  have hty := wordTy_eq_ok.mp hword
  obtain rfl := offset_of_fieldOffset hoffset
  obtain ⟨f'', leads', held', same⟩ := makes_define callees
    (i := .load word reg offset.toNat) leads.next (by simp) (by rw [Instr.run, addressAt_eq held])
  refine ⟨some _, f'', ?_, leads.trans leads', held', ?_⟩
  · rw [evalExpr, same]
    simp only [Eval.gives_bind, Eval.gives_lift, Eval.gives_get, Eval.gives_pure]
    exact ⟨_, _, eval, _, _, ⟨rfl, rfl⟩, _, _, ⟨hty, rfl⟩, _, _, ⟨rfl, rfl⟩, rfl, rfl⟩
  · rintro w ⟨⟩
    exact Word.ofImage_fits hty (Contents.length_read _ _ _)

theorem Computes.convert {inner : Checked.Expr} {source ty : Ty} (hty : inner.ty = source)
    (hinner : Computes callees bindings tys regs inner source) :
    Computes callees bindings tys regs (.convert ty inner) ty := by
  intro _ _ r b b' f hf hb _ h
  rw [genExpr] at h
  simp only [gives_bind, gives_require, gives_pure] at h
  obtain ⟨_, t, gen, reg, _, ⟨hreg, rfl⟩, reg', _, hconvert, rfl, rfl⟩ := h
  obtain ⟨w, f', eval, leads, held, fits⟩ := hinner.value hf hb gen hreg
  rw [hty] at hconvert
  obtain ⟨w', converted, fits', f'', leads', held', same⟩ :=
    simulate_convert callees hconvert leads.next held fits
  refine ⟨some w', f'', ?_, leads.trans leads', held', ?_⟩
  · rw [evalExpr, same, hty]
    simp only [Eval.gives_bind, Eval.gives_lift, Eval.gives_pure]
    exact ⟨_, _, eval, _, _, ⟨rfl, rfl⟩, _, _, ⟨converted, rfl⟩, rfl, rfl⟩
  · rintro w ⟨⟩
    exact fits'

theorem Computes.call {callee : Checked.Expr} {signature : Signature} {args : List Checked.Expr}
    {calleeTy : Ty} (target : Computes callees bindings tys regs callee calleeTy)
    (passed : Passes callees bindings tys regs args) :
    Computes callees bindings tys regs (.call callee signature args) signature.ret := by
  intro dest addr r b b' f hf hb hdest h
  rw [genExpr] at h
  simp only [gives_bind, gives_require, gives_liftM] at h
  obtain ⟨_, t, gen, reg, _, ⟨hreg, rfl⟩, hidden, u, hhidden, values, u', hvalues, ms, _,
    ⟨hms, rfl⟩, hcall⟩ := h
  obtain ⟨w, f₁, eval, leads, held, -⟩ := target.value hf hb gen hreg
  obtain ⟨rfl, front, hfront, heldFront⟩ := hidden_of_resultPointer (hdest.later leads) hhidden
  obtain ⟨ws, f₂, evalArgs, leads', heldArgs⟩ := passed (hf.later leads) leads.next hvalues
  obtain ⟨v, f₃, invoked, leads'', held'', fits⟩ :=
    simulate_emitCall (result_of_machineSignature hms) leads'.next
      (getElem?_of_grown leads'.values held)
      (List.rel_append (heldFront.later leads') heldArgs) hcall
  refine ⟨v, f₃, ?_, leads.trans (leads'.trans leads''), held'', fits⟩
  rw [evalExpr]
  simp only [Eval.gives_bind, Eval.gives_lift]
  exact ⟨_, _, eval, _, _, ⟨rfl, rfl⟩, _, _, ⟨hfront, rfl⟩, _, _, evalArgs, invoked⟩

variable {records : RecordTable}

mutual
/-- The code of a typed expression evaluates it. -/
theorem simulate_genExpr (pointer : paramTy.word? = some .i64) :
    {e : Checked.Expr} → {ty : Ty} → Typed records paramTy tys e ty →
      Computes callees bindings tys regs e ty
  | _, _, .param => Computes.param pointer
  | _, _, .localVar bound => Computes.localVar bound
  | _, _, .load address _ _ _ => Computes.load (simulate_genExpr pointer address)
  | _, _, .convert value _ => Computes.convert value.ty_eq (simulate_genExpr pointer value)
  | _, _, .call target passed =>
      Computes.call (simulate_genExpr pointer target) (simulate_genArgs pointer passed)
theorem simulate_genArgs (pointer : paramTy.word? = some .i64) :
    {variadic : Bool} → {params : List Ty} → {args : List Checked.Expr} →
      ArgsTyped records paramTy tys variadic params args →
        Passes callees bindings tys regs args
  | _, _, _, .nil => Passes.nil
  | _, _, _, .declared value _ rest =>
      Passes.cons (simulate_genExpr pointer value) (simulate_genArgs pointer rest)
  | _, _, _, .extra value rest =>
      Passes.cons (simulate_genExpr pointer value) (simulate_genArgs pointer rest)
end

/-! ## Bodies -/

theorem simulate_genValue {e : Checked.Expr} {ty : Ty} {r : Reg}
    (he : Computes callees bindings tys regs e ty)
    (hf : Represents f bindings tys regs) (hb : f.values.length = b.next)
    (h : Gives (genValue regs e) b r b') :
    ∃ w f', (evalValue callees bindings e).Gives f.world w f'.world ∧
      Leads callees b f b' f' ∧ f'.values[r]? = some w ∧ w.Fits ty := by
  unfold genValue at h
  simp only [gives_bind, gives_require] at h
  obtain ⟨_, t, gen, hreg, rfl⟩ := h
  obtain ⟨w, f', eval, leads, held, fits⟩ := he.value hf hb gen hreg
  refine ⟨w, f', ?_, leads, held, fits⟩
  unfold evalValue
  simp only [Eval.gives_bind, Eval.gives_lift]
  exact ⟨_, _, eval, rfl, rfl⟩

/-- The address of a field is the base itself when the offset is zero. -/
theorem simulate_fieldAddress (callees : Callees) {base r : Reg} {w : Word} {pointee : Ty}
    {offset : UInt32} (hb : f.values.length = b.next) (held : f.values[base]? = some w)
    (fits : w.Fits (.pointer pointee)) (h : Gives (fieldAddress base offset) b r b') :
    Makes callees b f r (.ofAddress (Checked.fieldOf w offset)) b' := by
  unfold fieldAddress at h
  split at h
  next zero =>
    obtain ⟨rfl, rfl⟩ := gives_pure.mp h
    have same : Checked.fieldOf w offset = w.address := by
      rw [Checked.fieldOf, zero]
      exact UInt64.add_zero _
    rw [same, Word.ofAddress_address fits rfl]
    exact makes_held hb held
  next =>
    obtain ⟨rfl, rfl⟩ := gives_define.mp h
    exact makes_define callees hb (by simp) (by rw [Instr.run, addressAt_eq held])

/-- The code that one builder has more than another runs to the end of a frame. -/
def Ends (callees : Callees) (b : Builder) (f : Frame) (b' : Builder) (f' : Frame) : Prop :=
  ∃ is, b'.instrs = b.instrs ++ is ∧ runInstrs callees f is = f'

theorem Ends.ret : Ends callees b f { b with instrs := b.instrs ++ [.ret] } f :=
  ⟨[.ret], rfl, rfl⟩

theorem Leads.ends (h : Leads callees b f b' f') (h' : Ends callees b' f' b'' f'') :
    Ends callees b f b'' f'' := by
  obtain ⟨is, his, run⟩ := h.code
  obtain ⟨is', his', run'⟩ := h'
  refine ⟨is ++ is', ?_, ?_⟩
  · rw [his', his, List.append_assoc]
  · rw [run, run']

open Checked (StmtTyped BodyTyped)

/-- The code of a typed body evaluates it. -/
theorem simulate_genBody (pointer : paramTy.word? = some .i64) {stmts : List Checked.Stmt}
    (typed : BodyTyped records paramTy tys stmts) {bindings : Bindings} {regs : List Reg}
    {b b' : Builder} {f : Frame} {u : PUnit} (hf : Represents f bindings tys regs)
    (hb : f.values.length = b.next) (h : Gives (genBody regs stmts) b u b') :
    ∃ f', (evalBody callees bindings stmts).Gives f.world ⟨⟩ f'.world ∧
      Ends callees b f b' f' := by
  induction typed generalizing bindings regs b f with
  | nil =>
      rw [genBody] at h
      obtain rfl := gives_emit.mp h
      exact ⟨f, Eval.gives_pure.mpr ⟨rfl, rfl⟩, .ret⟩
  | ret =>
      rw [genBody] at h
      obtain rfl := gives_emit.mp h
      exact ⟨f, Eval.gives_pure.mpr ⟨rfl, rfl⟩, .ret⟩
  | cons first rest ih =>
      cases first with
      | bind value values =>
          rw [genBody] at h
          obtain ⟨r, t, gen, h⟩ := gives_bind.mp h
          obtain ⟨w, f₁, eval, leads, held, fits⟩ :=
            simulate_genValue (simulate_genExpr pointer value) hf hb gen
          have bound := hf.typed.length_eq
          obtain ⟨f', evalRest, ends⟩ := ih ((hf.later leads).bind held fits) leads.next h
          refine ⟨f', ?_, leads.ends ends⟩
          rw [evalBody]
          refine Eval.gives_bind.mpr ⟨w, _, eval, ?_⟩
          rw [if_pos bound.symm]
          exact evalRest
      | @store _ _ _ _ field address known member stored values =>
          rw [genBody] at h
          simp only [gives_bind, gives_liftM, gives_emit] at h
          obtain ⟨base, t, gen, r, _, gen', n, t', ⟨hoffset, rfl⟩, _, _, rfl, h⟩ := h
          obtain ⟨w, f₁, eval, leads, held, -⟩ :=
            simulate_genValue (simulate_genExpr pointer address) hf hb gen
          obtain ⟨v, f₂, eval', leads', held', -⟩ :=
            simulate_genValue (simulate_genExpr pointer stored) (hf.later leads) leads.next gen'
          obtain rfl := offset_of_fieldOffset hoffset
          have later := getElem?_of_grown leads'.values held
          have written : Leads callees t' f₂
              { t' with instrs := t'.instrs ++ [.store r base field.offset.toNat] }
              { f₂ with
                contents := f₂.contents.write (Checked.fieldOf w field.offset) v.image } := by
            refine .emit leads'.next (by simp) ?_ rfl
            rw [Instr.run, addressAt_eq later, Frame.value_of_getElem? held']
          obtain ⟨f', evalRest, ends⟩ :=
            ih (((hf.later leads).later leads').later written) written.next h
          refine ⟨f', ?_, leads.ends (leads'.ends (written.ends ends))⟩
          rw [evalBody]
          simp only [Eval.gives_bind, Eval.gives_modify]
          exact ⟨w, _, eval, v, _, eval', ⟨⟩, _, rfl, evalRest⟩
      | @storeCall _ _ _ _ _ _ field _ address known member holds gives call =>
          rw [genBody] at h
          simp only [Checked.Expr.isCall, if_true, gives_bind] at h
          obtain ⟨base, t, gen, dest, t', hdest, r, t'', gen', h⟩ := h
          obtain ⟨w, f₁, eval, leads, held, fits⟩ :=
            simulate_genValue (simulate_genExpr pointer address) hf hb gen
          obtain ⟨f₂, leads', held', same⟩ :=
            simulate_fieldAddress callees leads.next held fits hdest
          obtain ⟨v, f₃, eval', leads'', -, -⟩ :=
            simulate_genExpr pointer call (some dest) (some (Checked.fieldOf w field.offset))
              ((hf.later leads).later leads') leads'.next held' gen'
          obtain ⟨f', evalRest, ends⟩ :=
            ih (((hf.later leads).later leads').later leads'') leads''.next h
          refine ⟨f', ?_, leads.ends (leads'.ends (leads''.ends ends))⟩
          rw [evalBody]
          simp only [Eval.gives_bind]
          exact ⟨_, _, eval, _, _, same ▸ eval', evalRest⟩
      | eval value discarded =>
          rw [genBody] at h
          obtain ⟨r, t, gen, h⟩ := gives_bind.mp h
          obtain ⟨v, f₁, eval, leads, -, -⟩ :=
            simulate_genExpr pointer value none none hf hb trivial gen
          obtain ⟨f', evalRest, ends⟩ := ih (hf.later leads) leads.next h
          refine ⟨f', ?_, leads.ends ends⟩
          rw [evalBody]
          exact Eval.gives_bind.mpr ⟨_, _, eval, evalRest⟩

/-- The code of a typed program does what evaluating its body does. -/
theorem Code.run_of_wellTyped {program : Checked.Program} {code : Code}
    (typed : program.WellTyped) (h : Code.ofFunction program.wrapper = .ok code)
    (callees : Callees) (param : UInt64) (contents : Contents) :
    program.wrapper.eval callees param contents = some (code.run callees param contents).world := by
  obtain ⟨pointee, typed⟩ := typed
  obtain ⟨⟨u, b⟩, gen, h⟩ := bind_eq_ok.mp h
  cases h
  have start : Represents ⟨[.ofAddress param], contents, []⟩ ⟨param, []⟩ [] [] := ⟨rfl, .nil, .nil⟩
  obtain ⟨f', eval, is, his, run⟩ :=
    @simulate_genBody callees _ _ _ rfl _ typed _ _ _ _ _ _ start rfl gen
  have final : Code.run callees ⟨b.instrs⟩ param contents = f' := by
    rw [Code.run, his]
    exact run
  have ran : (evalBody callees ⟨param, []⟩ program.wrapper.body).run ⟨contents, []⟩ =
      some (⟨⟩, f'.world) := eval
  rw [final, Checked.Function.eval, ran]
  rfl

/-- Code does what evaluating the checked body does, for every unit that is checked and lowered: the
same memory and the same calls, whatever the callees do. -/
theorem Code.run_eq_eval {env : Checked.Env} {unit : Source.SourceUnit}
    {program : Checked.Program} {reports : Diagnostics} {code : Code}
    (checked : Checked.check env unit = (some program, reports))
    (lowered : Code.ofFunction program.wrapper = .ok code) (callees : Callees) (param : UInt64)
    (contents : Contents) :
    program.wrapper.eval callees param contents = some (code.run callees param contents).world :=
  Code.run_of_wellTyped (Checked.typed_of_inferWrapper (Checked.check_eq_some.mp checked).1) lowered
    callees param contents

theorem Code.run_eq_eval_wideningUnit :
    ∃ program reports code,
      Checked.check ⟨8, fun _ => none⟩ Checked.wideningUnit = (some program, reports) ∧
        Code.ofFunction program.wrapper = .ok code ∧
        ∀ callees param contents, program.wrapper.eval callees param contents =
          some (code.run callees param contents).world := by
  have lowers : ((Checked.check ⟨8, fun _ => none⟩ Checked.wideningUnit).1.bind fun program =>
      (Code.ofFunction program.wrapper).toOption).isSome := by decide
  obtain ⟨code, hcode⟩ := Option.isSome_iff_exists.mp lowers
  obtain ⟨program, checked, hcode⟩ := Option.bind_eq_some_iff.mp hcode
  have lowered : Code.ofFunction program.wrapper = .ok code := by
    cases h : Code.ofFunction program.wrapper with
    | error e => rw [h] at hcode; cases hcode
    | ok c => rw [h] at hcode; cases hcode; rfl
  exact ⟨program, _, code, Prod.ext checked rfl, lowered,
    fun callees param contents =>
      Code.run_eq_eval (Prod.ext checked rfl) lowered callees param contents⟩

end

end CallThunk.Machine
