import CallThunk.Proofs.Call.Writing
import CallThunk.Proofs.Machine.Simulation
import CallThunk.Proofs.Wrapper.Body

/-!
# What a wrapper passes

Running the body of a wrapper on a struct whose slots hold the written values makes one call, with
one word for each argument. An argument arrives as the value that was written: an integer as the
same number modulo the width of its parameter, and an aggregate as the address of its bytes.
-/

namespace CallThunk

open Checked
open Caller (ArgumentImage)
open Machine (Word WordTy Callees CallEvent intWord floatWord)

/-! ## Arguments -/

/-- The types whose values are addresses. -/
def Ty.IsAddress : Ty → Prop
  | .pointer _ | .function .. => True
  | _ => False

/-- The word in which a written value arrives at a parameter. -/
inductive Value.Arrives (sides : List UInt64) (m : Memory) : Ty → Value → Word → Prop where
  | bool {b : Bool} : Arrives sides m .bool (.bool b) ⟨.i8, if b then 1 else 0⟩
  /-- The same number modulo the width of the parameter. -/
  | int {kind param : IntKind} {bits : BitVec kind.width} :
      Arrives sides m (.int param) (.int kind bits)
        ⟨intWord param, (Value.intValue kind bits % 2 ^ param.width).toNat⟩
  | float {kind : FloatKind} {bits : BitVec kind.width} :
      Arrives sides m (.float kind) (.float kind bits) ⟨floatWord kind, bits.toNat⟩
  | pointer {param pointee : Ty} {address : UInt64} (addresses : param.IsAddress) :
      Arrives sides m param (.pointer pointee address) (.ofAddress address)
  /-- The address of a side buffer with exactly the bytes of the aggregate. -/
  | aggregate {param : Ty} {record : RecordTy} {bytes : List UInt8} {address : UInt64}
      (addresses : param.IsAddress) (owned : address ∈ sides)
      (holds : m.read? address bytes.length = some bytes) :
      Arrives sides m param (.aggregate record bytes) (.ofAddress address)

theorem Ty.IsAddress.word? {ty : Ty} (h : ty.IsAddress) : ty.word? = some .i64 := by
  cases ty with
  | pointer | function => rfl
  | void | bool | int | float | record => exact h.elim

theorem IntKind.toNat_lt {kind : IntKind} (bits : BitVec kind.width) :
    bits.toNat < 256 ^ kind.bytes := by
  rw [Machine.pow_256]
  exact bits.isLt

theorem FloatKind.toNat_lt {kind : FloatKind} (bits : BitVec kind.width) :
    bits.toNat < 256 ^ kind.bytes := by
  rw [show 256 ^ kind.bytes = 2 ^ kind.width by cases kind <;> rfl]
  exact bits.isLt

section
variable {sides : List UInt64} {m : Memory} {slot param : Ty} {v : Value} {w : Word}

theorem isAddress_of_admits (h : slot.admits v.slotTy) (other : v.slotTy.IsAddress) :
    slot.IsAddress := by
  unfold Ty.admits at h
  rcases Bool.or_eq_true_iff.mp h with same | mixed
  · rw [of_decide_eq_true same]
    exact other
  · cases slot with
    | pointer | function => trivial
    | void | bool | int | float | record => cases mixed

/-- A slot that is no address only takes values of its own type. -/
theorem eq_of_admits (h : slot.admits v.slotTy) (other : ¬ v.slotTy.IsAddress) :
    slot = v.slotTy := by
  unfold Ty.admits at h
  rcases Bool.or_eq_true_iff.mp h with same | mixed
  · exact of_decide_eq_true same
  · generalize v.slotTy = ty at mixed other
    cases ty with
    | pointer | function => exact absurd trivial other
    | void | bool | int | float | record => cases slot <;> cases mixed

theorem isAddress_of_converts (h : slot.Converts param) (address : slot.IsAddress) :
    param.IsAddress := by
  cases h with
  | same => exact address
  | int => exact address.elim
  | pointer | ofFunction | toFunction => trivial

/-- An integer modulo its own width is its pattern. -/
theorem toNat_intValue_emod (kind : IntKind) (bits : BitVec kind.width) :
    (Value.intValue kind bits % 2 ^ kind.width).toNat = bits.toNat := by
  have number := Machine.intValue_emod kind bits.isLt (Nat.le_refl kind.width)
  rw [BitVec.ofNat_toNat, BitVec.setWidth_eq, Nat.mod_eq_of_lt bits.isLt, Int.natCast_pow] at number
  rw [show (2 : Int) = ((2 : Nat) : Int) from rfl, number, Int.toNat_natCast]

/-- Converting a value from its slot's type to its parameter's type keeps what arrives. -/
theorem arrives_of_converts (h : v.Arrives sides m slot w) (admits : slot.admits v.slotTy)
    (converts : slot.Converts param) (different : slot ≠ param) :
    ∃ w', convertWord slot param w = some w' ∧ v.Arrives sides m param w' := by
  have address (addresses : slot.IsAddress) : convertWord slot param w = some w := by
    cases converts with
    | same => exact absurd rfl different
    | int => exact addresses.elim
    | pointer | ofFunction | toFunction => rfl
  cases h with
  | bool =>
      cases converts
      exact absurd rfl different
  | @int kind own bits =>
      have same := eq_of_admits admits id
      cases same
      cases converts with
      | same => exact absurd rfl different
      | @int _ target =>
          refine ⟨_, by rw [convertWord, Machine.word?_int]; rfl, ?_⟩
          rw [castInt, toNat_intValue_emod, BitVec.ofNat_toNat, BitVec.setWidth_eq]
          exact .int
  | float =>
      cases converts
      exact absurd rfl different
  | pointer addresses =>
      exact ⟨_, address addresses, .pointer (isAddress_of_converts converts addresses)⟩
  | aggregate addresses owned holds =>
      exact ⟨_, address addresses,
        .aggregate (isAddress_of_converts converts addresses) owned holds⟩

end

/-! ## Loading slots -/

section
variable {sides : List UInt64} {m : Memory} {base : UInt64} {stop : Nat} {place : SlotPlace}
  {ty : Ty} {v : Value}

/-- A slot holds the image of a value that was checked against it. -/
def Carries (target : Target) (base : UInt64) (sides : List UInt64) (m : Memory) (stop : Nat)
    (ty : Ty) (place : SlotPlace) (v : Value) : Prop :=
  ∃ index image, Caller.argumentImage target index ty place v = .ok image ∧
    Stored target base sides m stop place image

/-- The image of a number is loaded as that number. -/
theorem load_image {c : Contents} {a : UInt64} {word : WordTy} {count n : Nat}
    (held : c.read a (ByteOrder.little.image count n).length = ByteOrder.little.image count n)
    (width : word.bytes = count) (h : n < 256 ^ count) :
    Word.ofImage word (c.read a word.bytes) = ⟨word, n⟩ := by
  rw [ByteOrder.length_image] at held
  rw [width, held, Word.ofImage, ByteOrder.value_image, Nat.mod_eq_of_lt h]

theorem bytes_floatWord (kind : FloatKind) : (floatWord kind).bytes = kind.bytes := by
  cases kind <;> rfl

theorem addressImage_host {address : UInt64} {image : List UInt8}
    (h : Target.host.addressImage address = .ok image) :
    image = ByteOrder.little.image 8 address.toNat :=
  (addressImage_eq_ok.mp h).2.2

theorem load_address {address : UInt64} {image : List UInt8}
    (encoded : Target.host.addressImage address = .ok image)
    (held : m.contents.read (base + place.offset.toUInt64) image.length = image) :
    Word.ofImage .i64 (m.contents.read (base + place.offset.toUInt64) WordTy.i64.bytes) =
      .ofAddress address := by
  rw [addressImage_host encoded] at held
  exact load_image held rfl address.toNat_lt

/-- The check of an argument that is accepted. -/
theorem argumentImage_eq_ok {target : Target} {index : Nat} {image : ArgumentImage}
    (h : Caller.argumentImage target index ty place v = .ok image) :
    ty.admits v.slotTy ∧ ((∃ record bytes, v = .aggregate record bytes ∧
        bytes.length = record.size.toNat ∧ image = .side bytes record.align) ∨
      ∃ bytes, v.encode target = .ok bytes ∧ bytes.length = place.size.toNat ∧
        image = .word bytes) := by
  unfold Caller.argumentImage at h
  obtain ⟨_, fits, h⟩ := bind_eq_ok.mp h
  unfold Value.fitSlot at fits
  split at fits
  case isFalse => cases fits
  next admits =>
  refine ⟨admits, ?_⟩
  split at h
  next record bytes _ =>
    cases h
    refine .inl ⟨record, bytes, rfl, ?_, rfl⟩
    dsimp only at fits
    split at fits
    next size => exact size
    next => cases fits
  next =>
    obtain ⟨bytes, encoded, h⟩ := bind_eq_ok.mp h
    dsimp only at h
    split at h
    · cases h
    next size =>
      cases h
      exact .inr ⟨bytes, encoded, Classical.not_not.mp size, rfl⟩

/-- A slot is loaded as the word in which its value arrives at the slot's own type. -/
theorem arrives_of_carries (h : Carries .host base sides m stop ty place v) :
    ty.admits v.slotTy ∧ ∃ w : Word, ty.word? = some w.ty ∧
      Word.ofImage w.ty (m.contents.read (base + place.offset.toUInt64) w.ty.bytes) = w ∧
      v.Arrives sides m ty w := by
  obtain ⟨index, image, checked, stored⟩ := h
  obtain ⟨admits, ⟨record, bytes, rfl, -, rfl⟩ | ⟨bytes, encoded, size, rfl⟩⟩ :=
    argumentImage_eq_ok checked
  · refine ⟨admits, ?_⟩
    have addresses := isAddress_of_admits admits trivial
    cases stored with
    | @side _ image _ address owned behind buffer encoded held =>
        exact ⟨.ofAddress address, addresses.word?, load_address encoded held,
          .aggregate addresses owned buffer⟩
  · refine ⟨admits, ?_⟩
    cases stored with
    | word held =>
        cases v with
        | void => cases encoded
        | aggregate => cases encoded
        | pointer pointee address =>
            have addresses : ty.IsAddress := by
              refine isAddress_of_admits admits ?_
              cases pointee <;> trivial
            exact ⟨.ofAddress address, addresses.word?, load_address encoded held,
              .pointer addresses⟩
        | bool b =>
            cases encoded
            cases eq_of_admits admits id
            refine ⟨⟨.i8, if b then 1 else 0⟩, rfl, ?_, .bool⟩
            have loaded : m.contents.read (base + place.offset.toUInt64) 1 =
                [if b then 1 else 0] := held
            show Word.ofImage .i8 (m.contents.read (base + place.offset.toUInt64) 1) = _
            rw [loaded]
            cases b <;> rfl
        | int kind bits =>
            cases encoded
            cases eq_of_admits admits id
            refine ⟨⟨intWord kind, _⟩, Machine.word?_int kind, ?_, .int⟩
            rw [toNat_intValue_emod kind bits]
            exact load_image held (Machine.bytes_intWord kind) (IntKind.toNat_lt bits)
        | float kind bits =>
            cases encoded
            cases eq_of_admits admits id
            have word : (Ty.float kind).word? = some (floatWord kind) := by cases kind <;> rfl
            exact ⟨⟨floatWord kind, _⟩, word,
              load_image held (bytes_floatWord kind) (FloatKind.toNat_lt bits), .float⟩

end

/-! ## Evaluating the wrapper -/

section
variable {callees : Callees} {record : PlacedRecord} {model : StructModel} {base : UInt64}
  {sides : List UInt64} {m : Memory} {stop : Nat} {s : World} {slot : Slot} {v : Value} {w : Word}

/-- What the names of a wrapper stand for once its struct is bound. -/
def wrapperBindings (base : UInt64) : Bindings := ⟨base, [.ofAddress base]⟩

theorem gives_structBase (callees : Callees) (dest : Option UInt64) :
    (evalExpr callees (wrapperBindings base) dest (structBase record)).Gives s
      (some (.ofAddress base)) s := by
  unfold structBase
  rw [evalExpr]
  simp only [Eval.gives_bind, Eval.gives_lift, Eval.gives_pure]
  exact ⟨_, s, ⟨rfl, rfl⟩, rfl, rfl⟩

theorem gives_slotLoad (callees : Callees) (word : slot.ty.word? = some w.ty)
    (loaded : Word.ofImage w.ty (s.contents.read
      (base + (fieldPlace record slot).offset.toUInt64) w.ty.bytes) = w) :
    (evalExpr callees (wrapperBindings base) none (slotLoad record slot)).Gives s (some w) s := by
  unfold slotLoad
  rw [evalExpr]
  simp only [Eval.gives_bind, Eval.gives_lift, Eval.gives_get, Eval.gives_pure]
  refine ⟨_, s, gives_structBase callees none, _, s, ⟨rfl, rfl⟩, _, s, ⟨word, rfl⟩, s, s,
    ⟨rfl, rfl⟩, ?_, rfl⟩
  rw [fieldOf, Word.address_ofAddress, loaded]

/-- A slot that carries a value is passed as the word in which the value arrives, whatever is
called. -/
theorem gives_passAs {param : Ty} (memory : s.contents = m.contents)
    (carries : Carries .host base sides m stop slot.ty (fieldPlace record slot) v)
    (converts : slot.ty.Converts param) :
    ∃ w, v.Arrives sides m param w ∧ ∀ callees, (evalExpr callees (wrapperBindings base) none
      (passAs (slotLoad record slot) (some param))).Gives s (some w) s := by
  obtain ⟨admits, w, word, loaded, arrives⟩ := arrives_of_carries carries
  rw [← memory] at loaded
  have load (callees : Callees) := gives_slotLoad callees word loaded
  by_cases same : slot.ty = param
  · rw [show passAs (slotLoad record slot) (some param) = slotLoad record slot from if_pos same]
    exact ⟨w, same ▸ arrives, load⟩
  · obtain ⟨w', converted, arrives'⟩ := arrives_of_converts arrives admits converts same
    refine ⟨w', arrives', fun callees => ?_⟩
    rw [show passAs (slotLoad record slot) (some param) = .convert param (slotLoad record slot)
      from if_neg same, evalExpr]
    simp only [Eval.gives_bind, Eval.gives_lift, Eval.gives_pure]
    exact ⟨_, s, load callees, _, s, ⟨rfl, rfl⟩, w', s, ⟨converted, rfl⟩, rfl, rfl⟩

/-- All arguments are passed, in order. -/
theorem gives_passedArgs {slots : List Slot} {args : List Value} {params : List Ty}
    (memory : s.contents = m.contents)
    (carries : List.Forall₂ (fun slot v =>
      Carries .host base sides m stop slot.ty (fieldPlace record slot) v) slots args)
    (converts : List.Forall₂ (fun slot param => slot.ty.Converts param) slots params) :
    ∃ words, List.Forall₂ (fun (p : Value × Ty) w => p.1.Arrives sides m p.2 w)
        (args.zip params) words ∧
      ∀ callees, (evalArgs callees (wrapperBindings base)
        (passedArgs record params slots)).Gives s words s := by
  induction carries generalizing params with
  | nil =>
      cases converts
      refine ⟨[], .nil, fun callees => ?_⟩
      rw [passedArgs, evalArgs]
      exact Eval.gives_pure.mpr ⟨rfl, rfl⟩
  | cons first _ ih =>
      cases converts with
      | cons convert converts =>
          obtain ⟨w, arrives, gives⟩ := gives_passAs memory first convert
          obtain ⟨words, rest, givesAll⟩ := ih converts
          refine ⟨w :: words, .cons arrives rest, fun callees => ?_⟩
          rw [passedArgs, evalArgs]
          simp only [Eval.gives_bind, Eval.gives_lift, Eval.gives_pure]
          exact ⟨_, s, gives callees, _, s, ⟨rfl, rfl⟩, words, s, givesAll callees, rfl, rfl⟩

/-- What comes in front of the arguments of a call: the address of the result's slot if the result
is a record. -/
inductive StructLayout.Hidden (layout : StructLayout) (base : UInt64) : Ty → List Word → Prop where
  | record {r : RecordTy} {place : SlotPlace} (returns : layout.result = some place) :
      Hidden layout base (.record r) [.ofAddress (base + place.offset.toUInt64)]
  | value {ret : Ty} (other : ∀ r, ret ≠ .record r) : Hidden layout base ret []

/-- Memory behind a call, from what the callee gives: a result that is a word goes to its slot. -/
def StructLayout.keep (layout : StructLayout) (base : UInt64) (ret : Ty)
    (result : Nat × Contents) : Contents :=
  match layout.result, ret.word? with
  | some place, some word =>
    result.2.write (base + place.offset.toUInt64) (word.word result.1).image
  | _, _ => result.2

theorem resultSlot?_of_ne (h : model.signature.ret ≠ .void) :
    model.resultSlot? = some ⟨.result, model.signature.ret⟩ := by
  unfold StructModel.resultSlot?
  exact if_neg fun isVoid => h (Ty.isVoid_iff.mp isVoid)

theorem hidden_layoutOf (record : PlacedRecord) (model : StructModel) (base : UInt64) :
    ∃ hidden, (layoutOf record model).Hidden base model.signature.ret hidden := by
  cases hret : model.signature.ret with
  | record r =>
      have returns := @resultSlot?_of_ne model (by simp [hret])
      refine ⟨_, @StructLayout.Hidden.record _ base r
        (fieldPlace record ⟨.result, model.signature.ret⟩) ?_⟩
      rw [layoutOf, returns]
      rfl
  | void | bool | int | float | pointer | function => exact ⟨[], .value (by simp)⟩

/-- Evaluating the call of a wrapper calls the function in its slot with the words of all arguments,
behind the address of the result's slot if the result is a record. -/
theorem gives_wrapperCall {address : UInt64} {words hidden : List Word} {dest : Option UInt64}
    (callee : Word.ofImage .i64 (s.contents.read
      (base + (fieldPlace record model.calleeSlot).offset.toUInt64) WordTy.i64.bytes) =
        .ofAddress address)
    (front : hiddenArgs model.signature.ret dest = some hidden)
    (passed : (evalArgs callees (wrapperBindings base)
      (passedArgs record model.signature.params model.inputSlots)).Gives s words s) :
    (evalExpr callees (wrapperBindings base) dest (wrapperCall record model)).Gives s
      (model.signature.ret.word?.map
        (·.word (callees address (hidden ++ words) s.contents).1))
      ⟨(callees address (hidden ++ words) s.contents).2,
        s.calls ++ [⟨address, hidden ++ words⟩]⟩ := by
  have target := @gives_slotLoad record base s model.calleeSlot (.ofAddress address) callees rfl
    callee
  unfold wrapperCall
  rw [evalExpr]
  simp only [Eval.gives_bind, Eval.gives_lift]
  refine ⟨_, s, target, _, s, ⟨rfl, rfl⟩, hidden, s, ⟨front, rfl⟩, words, s, passed, ?_⟩
  rw [Word.address_ofAddress]
  exact Eval.gives_invoke.mpr ⟨rfl, rfl⟩

/-! ## Evaluating statements -/

theorem gives_evalValue {bindings : Bindings} {e : Expr} {s' : World} :
    (evalValue callees bindings e).Gives s w s' ↔
      (evalExpr callees bindings none e).Gives s (some w) s' := by
  unfold evalValue
  simp only [Eval.gives_bind, Eval.gives_lift]
  constructor
  · rintro ⟨v, t, gives, rfl, rfl⟩
    exact gives
  · exact fun gives => ⟨some w, s', gives, rfl, rfl⟩

theorem gives_evalBody_nil (bindings : Bindings) (s : World) :
    (evalBody callees bindings []).Gives s ⟨⟩ s := by
  rw [evalBody]
  exact Eval.gives_pure.mpr ⟨rfl, rfl⟩

theorem gives_evalStmt {e : Expr} {v : Option Word} {s' : World}
    (gives : (evalExpr callees (wrapperBindings base) none e).Gives s v s') :
    (evalBody callees (wrapperBindings base) [.eval e]).Gives s ⟨⟩ s' := by
  rw [evalBody]
  exact Eval.gives_bind.mpr ⟨v, s', gives, gives_evalBody_nil _ s'⟩

theorem gives_store {e : Expr} {offset : UInt32} {s' : World}
    (gives : (evalExpr callees (wrapperBindings base) none e).Gives s (some w) s') :
    (evalBody callees (wrapperBindings base) [.store (structBase record) offset e]).Gives s ⟨⟩
      ⟨s'.contents.write (base + offset.toUInt64) w.image, s'.calls⟩ := by
  rw [evalBody]
  simp only [Eval.gives_bind, gives_evalValue, Eval.gives_modify]
  refine ⟨_, s, gives_structBase callees none, w, s', gives, ⟨⟩, _, rfl, ?_⟩
  rw [fieldOf, Word.address_ofAddress]
  exact gives_evalBody_nil _ _

theorem gives_storeCall {e : Expr} {offset : UInt32} {v : Option Word} {s' : World}
    (gives : (evalExpr callees (wrapperBindings base) (some (base + offset.toUInt64)) e).Gives s v
      s') :
    (evalBody callees (wrapperBindings base) [.storeCall (structBase record) offset e]).Gives s ⟨⟩
      s' := by
  rw [evalBody]
  simp only [Eval.gives_bind, gives_evalValue]
  refine ⟨_, s, gives_structBase callees none, v, s', ?_, gives_evalBody_nil _ _⟩
  rw [fieldOf, Word.address_ofAddress]
  exact gives

/-! ## The whole body -/

theorem keepCall_of_word {word : WordTy} (h : model.signature.ret.word? = some word) :
    keepCall record model = .store (structBase record)
      (fieldPlace record ⟨.result, model.signature.ret⟩).offset (wrapperCall record model) := by
  unfold keepCall
  cases hret : model.signature.ret with
  | void | record =>
      rw [hret] at h
      cases h
  | bool | int | float | pointer | function =>
      rw [resultSlot?_of_ne (by rw [hret]; nofun), hret]

/-- Running the call of a wrapper and keeping its result. -/
theorem gives_keepCall {address : UInt64} {words hidden : List Word}
    (callee : Word.ofImage .i64 (s.contents.read
      (base + (fieldPlace record model.calleeSlot).offset.toUInt64) WordTy.i64.bytes) =
        .ofAddress address)
    (front : (layoutOf record model).Hidden base model.signature.ret hidden)
    (passed : (evalArgs callees (wrapperBindings base)
      (passedArgs record model.signature.params model.inputSlots)).Gives s words s) :
    (evalBody callees (wrapperBindings base) [keepCall record model]).Gives s ⟨⟩
      ⟨(layoutOf record model).keep base model.signature.ret
        (callees address (hidden ++ words) s.contents),
          s.calls ++ [⟨address, hidden ++ words⟩]⟩ := by
  have call (dest : Option UInt64) (front : hiddenArgs model.signature.ret dest = some hidden) :=
    @gives_wrapperCall callees record model base s address words hidden dest callee front passed
  generalize hret : model.signature.ret = ret at front
  cases front with
  | @record r place returns =>
      have slot := @resultSlot?_of_ne model (by simp [hret])
      have same : fieldPlace record ⟨.result, model.signature.ret⟩ = place := by
        rw [layoutOf, slot] at returns
        exact Option.some.inj returns
      have gives := call (some (base + place.offset.toUInt64)) (by rw [hret]; rfl)
      have keep : keepCall record model =
          .storeCall (structBase record) place.offset (wrapperCall record model) := by
        unfold keepCall
        rw [slot, ← same, hret]
      unfold StructLayout.keep
      rw [keep, returns]
      exact gives_storeCall gives
  | value other =>
      by_cases void : ret = .void
      · have none : model.resultSlot? = none := by
          unfold StructModel.resultSlot?
          rw [hret, void]
          rfl
        have keep : keepCall record model = .eval (wrapperCall record model) := by
          unfold keepCall
          rw [none]
        have gives := call Option.none (by rw [hret, void]; rfl)
        unfold StructLayout.keep layoutOf
        rw [keep, none]
        exact gives_evalStmt gives
      · obtain ⟨word, hword⟩ := Machine.word?_of_hasValues (Ty.hasValues_of_ne void other)
        have slot := @resultSlot?_of_ne model (by rw [hret]; exact void)
        have gives := call Option.none (by
          rw [hret]
          cases ret with
          | record r => exact absurd rfl (other r)
          | void | bool | int | float | pointer | function => rfl)
        rw [hret, hword] at gives
        unfold StructLayout.keep layoutOf
        rw [keepCall_of_word (by rw [hret]; exact hword), slot, hword]
        exact gives_store gives

/-- Running a wrapper on a struct whose slots carry the arguments makes one call, with a word for
each argument in which it arrives, and keeps the result. -/
theorem eval_wrapperBody (name : String) {address : UInt64} {args : List Value}
    (callee : Word.ofImage .i64 (m.contents.read
      (base + (fieldPlace record model.calleeSlot).offset.toUInt64) WordTy.i64.bytes) =
        .ofAddress address)
    (carries : List.Forall₂ (fun slot v =>
      Carries .host base sides m stop slot.ty (fieldPlace record slot) v) model.inputSlots args)
    (converts : List.Forall₂ (fun slot param => slot.ty.Converts param) model.inputSlots
      model.signature.params) :
    ∃ hidden words, (layoutOf record model).Hidden base model.signature.ret hidden ∧
      List.Forall₂ (fun (p : Value × Ty) w => p.1.Arrives sides m p.2 w)
        (args.zip model.signature.params) words ∧
      ∀ callees : Callees, Checked.Function.eval callees ⟨name, wrapperBody record model⟩ base
          m.contents =
        some ⟨(layoutOf record model).keep base model.signature.ret
          (callees address (hidden ++ words) m.contents), [⟨address, hidden ++ words⟩]⟩ := by
  obtain ⟨hidden, front⟩ := hidden_layoutOf record model base
  obtain ⟨words, arrives, passed⟩ :=
    @gives_passedArgs record base sides m stop ⟨m.contents, []⟩ _ _ _ rfl carries converts
  refine ⟨hidden, words, front, arrives, fun callees => ?_⟩
  have kept := @gives_keepCall callees record model base ⟨m.contents, []⟩ address words hidden
    callee front (passed callees)
  have bound : (evalValue callees ⟨base, []⟩
      (.convert (.pointer (.record record.recordTy)) (.param .untypedPointer))).Gives
      ⟨m.contents, []⟩ (.ofAddress base) ⟨m.contents, []⟩ := by
    rw [gives_evalValue, evalExpr]
    simp only [Eval.gives_bind, Eval.gives_lift, Eval.gives_pure]
    refine ⟨some (.ofAddress base), _, ?_, _, _, ⟨rfl, rfl⟩, _, _, ⟨rfl, rfl⟩, rfl, rfl⟩
    rw [evalExpr]
    exact Eval.gives_pure.mpr ⟨rfl, rfl⟩
  have body : (evalBody callees ⟨base, []⟩ (wrapperBody record model)).Gives ⟨m.contents, []⟩ ⟨⟩
      ⟨(layoutOf record model).keep base model.signature.ret
        (callees address (hidden ++ words) m.contents), [⟨address, hidden ++ words⟩]⟩ := by
    unfold wrapperBody
    rw [evalBody]
    exact Eval.gives_bind.mpr ⟨_, _, bound, kept⟩
  exact congrArg (Option.map Prod.snd) body

end

end CallThunk
