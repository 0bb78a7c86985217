import CallThunk.Proofs.Call.Layouts
import CallThunk.Proofs.Call.Reading

/-!
# Values and the slots of a compiled struct

In a struct that a compiler laid out from the source, every slot has the size of its type. So a
value that fits its slot has an image there, unless it is an address that pointers of the target do
not reach. And whatever bytes a slot holds, they are decoded as some value.
-/

namespace CallThunk

open Caller (FetchEnds slotAddress)

/-- Mismatches that blame a layout instead of a value. -/
def Mismatch.Misfit : Mismatch → Prop
  | .wrongSize .. | .unrepresentable _ => True
  | _ => False

/-- Whether an address has an image: pointers of the target have a width, and they reach it. -/
def Target.Reaches (target : Target) (address : UInt64) : Prop :=
  Target.isPointerWidth target.pointerSize ∧ address.toNat < 256 ^ target.pointerSize.toNat

/-- Whether the address of a pointer has an image; other values have no address. -/
def Value.Reaches (target : Target) : Value → Prop
  | .pointer _ address => target.Reaches address
  | _ => True

/-- Values that suit slots of some types, of which the first one has an index. -/
structure Suits (target : Target) (index : Nat) (tys : List Ty) (values : List Value) : Prop where
  fits : ∀ (i : Nat) (ty : Ty) (v : Value), tys[i]? = some ty → values[i]? = some v →
    v.fitSlot (index + i) ty = .ok ()
  pointers : ∀ v ∈ values, v.Reaches target

/-- A caller takes one argument for each slot, all of them fit, and every address has an image. -/
structure Caller.Takes (caller : Caller) (target : Target) (args : List Value) : Prop where
  count : args.length = caller.model.arity
  suits : Suits target 0 caller.model.argumentTys args
  callee : target.Reaches caller.callee.address

/-! ## Checks -/

/-- A check gives a result exactly if a condition holds, and it never fails for what it may not
blame. -/
inductive Checks {ε α : Type} (blames : ε → Prop) (P : Prop) : Except ε α → Prop where
  | passed (holds : P) (a : α) : Checks blames P (.ok a)
  | refused (fails : ¬ P) {e : ε} (fair : ¬ blames e) : Checks blames P (.error e)

namespace Checks

variable {ε α β : Type} {blames : ε → Prop} {P Q : Prop} {x : Except ε α}

theorem of_iff (h : Checks blames P x) (same : P ↔ Q) : Checks blames Q x := by
  cases h with
  | passed holds a => exact .passed (same.mp holds) a
  | refused fails fair => exact .refused (mt same.mpr fails) fair

/-- One check behind another one, on which it may rely. -/
theorem bind {f : α → Except ε β} (h : Checks blames P x)
    (next : ∀ a, P → x = .ok a → Checks blames Q (f a)) : Checks blames (P ∧ Q) (x >>= f) := by
  cases h with
  | refused fails fair => exact .refused (mt And.left fails) fair
  | passed holds a => exact (next a holds rfl).of_iff (and_iff_right holds).symm

/-- A step that cannot fail behind a check. -/
theorem total {f : α → Except ε β} (h : Checks blames P x)
    (next : ∀ a, x = .ok a → ∃ b, f a = .ok b) : Checks blames P (x >>= f) := by
  refine (h.bind (Q := True) fun a _ given => ?_).of_iff ⟨And.left, fun holds => ⟨holds, trivial⟩⟩
  obtain ⟨b, done⟩ := next a given
  rw [done]
  exact .passed trivial b

end Checks

section
variable {target : Target} {ty : Ty} {v : Value} {i : Nat}

/-! ## Images -/

theorem checks_addressImage (target : Target) (address : UInt64) :
    Checks Mismatch.Misfit (target.Reaches address) (target.addressImage address) := by
  unfold Target.addressImage
  dsimp only
  split
  next fits => exact .passed fits _
  next unfit => exact .refused unfit id

theorem checks_fitSlot : Checks Mismatch.Misfit (v.fitSlot i ty = .ok ()) (v.fitSlot i ty) := by
  unfold Value.fitSlot
  split
  · cases v with
    | aggregate record bytes =>
        dsimp only
        split
        · exact .passed rfl ()
        · exact .refused nofun id
    | void | bool | int | float | pointer => exact .passed rfl ()
  · exact .refused nofun id

theorem UInt32.toNat_ofNat_bytes {n : Nat} (small : n ≤ 8) : (UInt32.ofNat n).toNat = n :=
  UInt32.toNat_ofNat_of_lt' (by unfold UInt32.size; omega)

theorem IntKind.bytes_le (kind : IntKind) : kind.bytes ≤ 8 := by cases kind <;> decide

theorem FloatKind.bytes_le (kind : FloatKind) : kind.bytes ≤ 8 := by cases kind <;> decide

/-- An encoded value has the size of the slot that admits it. -/
theorem length_of_encode {bytes : List UInt8} (admits : ty.admits v.slotTy)
    (encoded : v.encode target = .ok bytes) :
    bytes.length = (ty.size target.pointerSize).toNat := by
  cases v with
  | void | aggregate => cases encoded
  | bool b =>
      cases encoded
      cases eq_of_admits admits id
      rfl
  | int kind bits =>
      cases encoded
      cases eq_of_admits admits id
      rw [ByteOrder.length_image]
      exact (UInt32.toNat_ofNat_bytes kind.bytes_le).symm
  | float kind bits =>
      cases encoded
      cases eq_of_admits admits id
      rw [ByteOrder.length_image]
      exact (UInt32.toNat_ofNat_bytes kind.bytes_le).symm
  | pointer pointee address =>
      have addresses : ty.IsAddress := by
        refine isAddress_of_admits admits ?_
        cases pointee <;> trivial
      rw [length_of_addressImage encoded]
      cases ty with
      | pointer | function => rfl
      | void | bool | int | float | record => exact addresses.elim

/-- A value that is no aggregate is encoded for every slot that admits it, unless it is an address
without an image. -/
theorem checks_encode (target : Target) (inhabited : ty ≠ .void)
    (scalar : ∀ record bytes, v ≠ .aggregate record bytes) (admits : ty.admits v.slotTy) :
    Checks Mismatch.Misfit (v.Reaches target) (v.encode target) := by
  cases v with
  | void => exact absurd (eq_of_admits admits id) inhabited
  | aggregate record bytes => exact absurd rfl (scalar record bytes)
  | bool | int | float => exact .passed trivial _
  | pointer pointee address => exact checks_addressImage target address

/-- An argument has an image in a slot that has the size of its type if it fits and its address has
an image. -/
theorem checks_argumentImage {place : SlotPlace} (inhabited : ty ≠ .void)
    (size : place.size = ty.size target.pointerSize) :
    Checks Mismatch.Misfit (v.fitSlot i ty = .ok () ∧ v.Reaches target)
      (Caller.argumentImage target i ty place v) := by
  refine checks_fitSlot.bind fun _ fits _ => ?_
  have admits : ty.admits v.slotTy := by
    unfold Value.fitSlot at fits
    split at fits
    next admits => exact admits
    next => cases fits
  split
  next record bytes => exact .passed trivial _
  next scalar =>
    refine (checks_encode target inhabited
      (fun record bytes same => scalar record bytes same) admits).total fun bytes encoded => ?_
    have length := length_of_encode admits encoded
    exact ⟨_, if_neg (by rw [size, length]; exact not_not_intro rfl)⟩

end

/-! ## All images -/

theorem suits_nil {target : Target} {index : Nat} : Suits target index [] [] := ⟨nofun, nofun⟩

theorem suits_cons {target : Target} {index : Nat} {ty : Ty} {tys : List Ty} {v : Value}
    {values : List Value} : Suits target index (ty :: tys) (v :: values) ↔
      (v.fitSlot index ty = .ok () ∧ v.Reaches target) ∧ Suits target (index + 1) tys values := by
  constructor
  · intro h
    refine ⟨⟨h.fits 0 ty v rfl rfl, h.pointers v (List.mem_cons_self ..)⟩,
      fun i ty v first second => ?_, fun v hv => h.pointers v (List.mem_cons_of_mem _ hv)⟩
    rw [Nat.add_right_comm]
    exact h.fits (i + 1) ty v first second
  · rintro ⟨⟨fits, reaches⟩, rest⟩
    refine ⟨fun i ty' v' first second => ?_, fun v' hv => ?_⟩
    · cases i with
      | zero =>
          cases first
          cases second
          exact fits
      | succ i =>
          have later := rest.fits i ty' v' first second
          rwa [Nat.add_right_comm] at later
    · rcases List.mem_cons.mp hv with rfl | later
      · exact reaches
      · exact rest.pointers v' later

section
variable {target : Target} {record : PlacedRecord}

theorem checks_argumentImages {slots : List Slot} {values : List Value} {index : Nat}
    (count : values.length = slots.length) (inhabited : ∀ slot ∈ slots, slot.ty ≠ .void)
    (size : ∀ slot ∈ slots, (fieldPlace record slot).size = slot.ty.size target.pointerSize) :
    Checks Mismatch.Misfit (Suits target index (slots.map Slot.ty) values)
      (Caller.argumentImages target index (slots.map Slot.ty) (slots.map (fieldPlace record))
        values) := by
  induction slots generalizing values index with
  | nil =>
      cases List.length_eq_zero_iff.mp count
      exact .passed suits_nil _
  | cons slot slots ih =>
      cases values with
      | nil => cases count
      | cons v values =>
          have first := checks_argumentImage (v := v) (i := index)
            (inhabited slot (List.mem_cons_self ..)) (size slot (List.mem_cons_self ..))
          have rest := @ih values (index + 1) (Nat.succ.inj count)
            (fun other member => inhabited other (List.mem_cons_of_mem _ member))
            fun other member => size other (List.mem_cons_of_mem _ member)
          exact (first.bind fun image _ _ => rest.total fun images _ => ⟨_, rfl⟩).of_iff
            suits_cons.symm

variable {caller : Caller} {r : Ready}

/-- The images of the arguments of a compiled caller exist exactly if it takes them. -/
theorem Caller.FromSource.checks_images (h : caller.FromSource target r) (args : List Value) :
    Checks Mismatch.Misfit (caller.Takes target args) (caller.images r args) := by
  unfold Caller.images
  by_cases count : args.length = caller.model.arity
  · dsimp only
    rw [if_neg (not_not_intro count), h.layout, h.targeted]
    show Checks Mismatch.Misfit _ (Caller.argumentImages target 0 caller.model.argumentTys
      (caller.model.inputSlots.map (fieldPlace _)) args >>= _)
    rw [← inputSlots_tys]
    have typed : ∀ slot ∈ caller.model.inputSlots, slot.ty ∈ caller.model.argumentTys := by
      intro slot member
      rw [← inputSlots_tys]
      exact List.mem_map_of_mem member
    have arguments := @checks_argumentImages target _ _ args 0
      (count.trans (length_inputSlots caller.model).symm)
      (fun slot member => h.inhabited _ (typed slot member))
      fun slot member => h.laidOut.size slot (inputSlots_subset caller.model member)
    have callee := checks_addressImage target caller.callee.address
    refine (arguments.bind fun images _ _ => callee.total fun function _ => ⟨_, rfl⟩).of_iff ?_
    rw [inputSlots_tys]
    exact ⟨fun both => ⟨count, both.1, both.2⟩, fun takes => ⟨takes.suits, takes.callee⟩⟩
  · dsimp only
    rw [if_pos count]
    exact .refused (fun takes => count takes.count) id

end

/-! ## Decoding -/

section
variable {target : Target} {ty : Ty} {bytes : List UInt8}

theorem decodeWord_of_length {count : Nat} (length : bytes.length = count) :
    Value.decodeWord target ty count bytes = .ok (target.order.value bytes) :=
  if_pos length

theorem addressOf_of_length (width : Target.isPointerWidth target.pointerSize)
    (length : bytes.length = target.pointerSize.toNat) :
    Value.addressOf target ty bytes = .ok (UInt64.ofNat (target.order.value bytes)) := by
  unfold Value.addressOf
  rw [if_pos width, decodeWord_of_length length]
  rfl

/-- Bytes that fill a slot are the image of some value. -/
theorem decode_of_length (width : Target.isPointerWidth target.pointerSize)
    (length : bytes.length = (ty.size target.pointerSize).toNat) :
    ∃ v, Value.decode target ty bytes = .ok v := by
  cases ty with
  | void => exact ⟨_, rfl⟩
  | bool =>
      rw [Value.decode, decodeWord_of_length (show bytes.length = 1 from length)]
      exact ⟨_, rfl⟩
  | int kind =>
      rw [Value.decode,
        decodeWord_of_length (length.trans (UInt32.toNat_ofNat_bytes kind.bytes_le))]
      exact ⟨_, rfl⟩
  | float kind =>
      rw [Value.decode,
        decodeWord_of_length (length.trans (UInt32.toNat_ofNat_bytes kind.bytes_le))]
      exact ⟨_, rfl⟩
  | pointer | function =>
      rw [Value.decode, addressOf_of_length width length]
      exact ⟨_, rfl⟩
  | record record => exact ⟨_, if_pos length⟩

end

/-! ## Reading -/

section
variable {ω : Type} {ctx : Context ω} {memory : ω → Memory} {target : Target}
  {activation : Activation} {w w' : ω} {m : Mismatch}

theorem Context.Manages.length_of_read (manages : ctx.Manages memory) {a : UInt64} {n : Nat}
    {bytes : List UInt8} (read : Yields (ctx.read a n) w bytes w') : bytes.length = n := by
  obtain ⟨held, -⟩ := manages.fetched read
  rw [(Memory.read?_eq_some.mp held).2]
  exact Contents.length_read ..

theorem run_access_ne_mismatch {α : Type} {service : Service ω α} :
    ((Caller.access service).run.run w : Except CallError α × _) ≠ (.error (.mismatch m), w') := by
  intro failed
  rw [Caller.run_access] at failed
  exact mapError_memory_ne (congrArg Prod.fst failed)

theorem run_readArgument_ne_mismatch (manages : ctx.Manages memory) {ty : Ty} {place : SlotPlace}
    {written : Option Value} (width : Target.isPointerWidth target.pointerSize)
    (size : place.size = ty.size target.pointerSize) :
    ((Caller.readArgument ctx target activation ty place written).run.run w :
      Except CallError Value × _) ≠ (.error (.mismatch m), w') := by
  intro failed
  rcases run_exceptBind_eq_error failed with first | ⟨bytes, t, got, second⟩
  · exact run_access_ne_mismatch first
  · have length := manages.length_of_read (yields_access.mp got)
    rw [size] at length
    obtain ⟨v, decoded⟩ := decode_of_length width length
    rw [decoded] at second
    split at second
    · rcases run_exceptBind_eq_error second with third | ⟨_, _, -, fourth⟩
      · exact run_access_ne_mismatch third
      · cases fourth
    · cases second
    next other => cases other

theorem run_readAll_ne_mismatch (manages : ctx.Manages memory) {record : PlacedRecord}
    {slots : List Slot} {written : List Value} (width : Target.isPointerWidth target.pointerSize)
    (size : ∀ slot ∈ slots, (fieldPlace record slot).size = slot.ty.size target.pointerSize) :
    ((Caller.readAll ctx target activation (slots.map Slot.ty) (slots.map (fieldPlace record))
      written).run.run w : Except CallError (List Value) × _) ≠ (.error (.mismatch m), w') := by
  induction slots generalizing written w with
  | nil => nofun
  | cons slot slots ih =>
      intro failed
      rcases run_exceptBind_eq_error failed with first | ⟨v, t, -, rest⟩
      · exact run_readArgument_ne_mismatch manages width (size slot (List.mem_cons_self ..)) first
      · rcases run_exceptBind_eq_error rest with second | ⟨_, _, -, last⟩
        · exact ih (fun other member => size other (List.mem_cons_of_mem _ member)) second
        · cases last

variable {caller : Caller} {r : Ready}

/-- Reading arguments back never blames a value, whatever the slots hold. -/
theorem Caller.FromSource.run_read_ne_mismatch (h : caller.FromSource target r)
    (manages : ctx.Manages memory) (ready : caller.ready = .ok r)
    (width : activation.stage ≠ .prepared → Target.isPointerWidth target.pointerSize) :
    ((caller.read ctx activation).run.run w : Except CallError (List Value) × _) ≠
      (.error (.mismatch m), w') := by
  unfold Caller.read
  rw [ready]
  dsimp only
  by_cases written : activation.stage = .prepared
  · rw [if_pos written]
    nofun
  · rw [if_neg written, h.layout, h.targeted]
    show ((Caller.readAll ctx target activation caller.model.argumentTys
      (caller.model.inputSlots.map (fieldPlace _)) _).run.run w : Except CallError _ × _) ≠ _
    rw [← inputSlots_tys]
    exact run_readAll_ne_mismatch manages (width written) fun slot member =>
      h.laidOut.size slot (inputSlots_subset caller.model member)

/-- Nor does fetching a result. -/
theorem Caller.FromSource.fetchEnds_ne_mismatch (h : caller.FromSource target r)
    (manages : ctx.Manages memory) (ready : caller.ready = .ok r) {s t : Activation × ω}
    (width : s.1.stage ≠ .prepared → Target.isPointerWidth target.pointerSize)
    {result : Except CallError Value} (ends : FetchEnds ctx caller s result t) :
    result ≠ .error (.mismatch m) := by
  rintro rfl
  cases ends with
  | unready unready => cases ready.symm.trans unready
  | @undecodable r' place slot bytes _ w ready' held read failed completed typed =>
      cases ready.symm.trans ready'
      have member := (resultSlot?_eq_some typed).2
      rw [h.layout] at held
      have place : place = fieldPlace (structRecord target.pointerSize
          (WrapperSource.ofModel caller.name caller.model).structName caller.model.slots) slot := by
        replace held : caller.model.resultSlot?.map (fieldPlace _) = some place := held
        rw [typed] at held
        exact (Option.some.inj held).symm
      have length := manages.length_of_read read
      rw [place, h.laidOut.size slot member] at length
      rw [h.targeted] at failed
      obtain ⟨v, decoded⟩ := decode_of_length (width (by rw [completed]; nofun)) length
      cases decoded.symm.trans failed

end

end CallThunk
