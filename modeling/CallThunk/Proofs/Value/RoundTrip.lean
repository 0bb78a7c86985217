import CallThunk.Proofs.Call.Marshaling

/-!
# Values and their images

Encoding and decoding undo each other, for pointers of every width and both orders of bytes. A value
is found again in its image, with all its bits. Bytes that have the size of a type are the image of
the value that they are decoded as; only a true bool has more than one byte to be decoded from.
-/

namespace CallThunk

/-- The values that have an image of their own: scalars, and addresses that pointers of some size
reach. -/
def Value.HasImage (pointerSize : UInt32) : Value → Prop
  | .pointer _ address => address.toNat < 2 ^ (8 * pointerSize.toNat)
  | .bool _ | .int .. | .float .. => True
  | .void | .aggregate .. => False

/-- A value without what it points at. -/
def Value.untyped : Value → Value
  | .pointer _ address => .pointer .void address
  | v => v

/-- The types whose values are scalars and addresses. -/
def Ty.IsWord : Ty → Prop
  | .void | .record _ => False
  | .bool | .int _ | .float _ | .pointer _ | .function .. => True

theorem Ty.admits_self (ty : Ty) : ty.admits ty := by simp [Ty.admits]

/-- The image among all bytes that are decoded as the same value. -/
def Ty.normalize : Ty → List UInt8 → List UInt8
  | .bool, bytes => bytes.map fun b => if b = 0 then 0 else 1
  | _, bytes => bytes

section
variable {target : Target} {ty : Ty} {v w : Value} {bytes bytes' : List UInt8}

/-! ## Encoding -/

theorem encode_eq_ok_iff (width : Target.isPointerWidth target.pointerSize) :
    (∃ bytes, v.encode target = .ok bytes) ↔ v.HasImage target.pointerSize := by
  cases v with
  | void | aggregate => exact ⟨nofun, False.elim⟩
  | bool | int | float => exact ⟨fun _ => trivial, fun _ => ⟨_, rfl⟩⟩
  | pointer pointee address =>
      unfold Value.HasImage
      rw [Nat.pow_mul]
      constructor
      · rintro ⟨bytes, encoded⟩
        exact (addressImage_eq_ok.mp encoded).2.1
      · exact fun reaches => ⟨_, addressImage_eq_ok.mpr ⟨width, reaches, rfl⟩⟩

/-- Images in the two orders of bytes are each other's reverse. -/
theorem encode_big (pointerSize : UInt32) (v : Value) :
    v.encode ⟨pointerSize, .big⟩ = (v.encode ⟨pointerSize, .little⟩).map List.reverse := by
  cases v with
  | pointer pointee address =>
      unfold Value.encode Target.addressImage
      dsimp only
      split <;> rfl
  | void | bool | int | float | aggregate => rfl

theorem encode_untyped (target : Target) (v : Value) :
    v.untyped.encode target = v.encode target := by
  cases v <;> rfl

/-- A value is decoded from its image as its own slot holds it. -/
theorem decode_slotTy (encoded : v.encode target = .ok bytes) :
    Value.decode target v.slotTy bytes = .ok v := by
  rw [decode_encode (Ty.admits_self _) encoded]
  cases v with
  | pointer pointee address => cases pointee <;> rfl
  | void | bool | int | float | aggregate => rfl

theorem decode_ty (encoded : v.encode target = .ok bytes) :
    Value.decode target v.ty bytes = .ok v := by
  cases v with
  | pointer pointee address =>
      show (Value.addressOf target _ bytes).map _ = _
      rw [addressOf_image encoded]
      rfl
  | void | aggregate => cases encoded
  | bool | int | float => exact decode_slotTy encoded

/-- Values of one type, whatever they point at, are told apart by their images. -/
theorem image_inj (first : v.encode target = .ok bytes) (second : w.encode target = .ok bytes')
    (typed : v.untyped.ty = w.untyped.ty) : bytes = bytes' ↔ v.untyped = w.untyped := by
  rw [← encode_untyped] at first second
  constructor
  · -- one image is decoded at one type, so as one value
    rintro rfl
    have back := decode_ty first
    rw [typed, decode_ty second] at back
    exact (Except.ok.inj back).symm
  · intro same
    rw [same, second] at first
    exact (Except.ok.inj first).symm

/-! ## Decoding -/

theorem decodeWord_eq_ok {count n : Nat} :
    Value.decodeWord target ty count bytes = .ok n ↔
      bytes.length = count ∧ target.order.value bytes = n := by
  unfold Value.decodeWord
  split
  next length => exact ⟨fun h => ⟨length, Except.ok.inj h⟩, fun h => congrArg _ h.2⟩
  next length => exact ⟨nofun, fun h => absurd h.1 length⟩

theorem addressOf_eq_ok {address : UInt64} :
    Value.addressOf target ty bytes = .ok address ↔ Target.isPointerWidth target.pointerSize ∧
      bytes.length = target.pointerSize.toNat ∧
      UInt64.ofNat (target.order.value bytes) = address := by
  unfold Value.addressOf
  split
  next width =>
    rw [map_eq_ok]
    constructor
    · rintro ⟨n, word, same⟩
      obtain ⟨length, rfl⟩ := decodeWord_eq_ok.mp word
      exact ⟨width, length, same⟩
    · rintro ⟨-, length, same⟩
      exact ⟨_, decodeWord_eq_ok.mpr ⟨length, rfl⟩, same⟩
  next width => exact ⟨nofun, fun h => absurd h.1 width⟩

/-- A pointer holds the number of every address that its bytes can hold. -/
theorem toNat_address {n : Nat} (width : Target.isPointerWidth target.pointerSize)
    (h : n < 256 ^ target.pointerSize.toNat) : (UInt64.ofNat n).toNat = n := by
  refine UInt64.toNat_ofNat_of_lt' (Nat.lt_of_lt_of_le h ?_)
  have small : target.pointerSize.toNat ≤ 8 := by
    simp only [Target.isPointerWidth, Bool.or_eq_true, decide_eq_true_eq] at width
    rcases width with (two | four) | eight
    · rw [two]
      decide
    · rw [four]
      decide
    · rw [eight]
      decide
  exact Nat.pow_le_pow_right (by decide) small

/-- An address is decoded from its own image. -/
theorem addressImage_addressOf {address : UInt64}
    (h : Value.addressOf target ty bytes = .ok address) :
    bytes.length = target.pointerSize.toNat ∧ target.addressImage address = .ok bytes := by
  obtain ⟨width, length, rfl⟩ := addressOf_eq_ok.mp h
  have fits := ByteOrder.value_lt target.order bytes
  have whole := ByteOrder.image_value target.order bytes
  rw [length] at fits whole
  have number := toNat_address width fits
  exact ⟨length, addressImage_eq_ok.mpr ⟨width, by rwa [number], by rw [number, whole]⟩⟩

/-- A pattern of some bytes is decoded from its own image. -/
theorem image_ofNat {count bits : Nat} (same : 256 ^ count = 2 ^ bits)
    (length : bytes.length = count) :
    target.order.image count (BitVec.ofNat bits (target.order.value bytes)).toNat = bytes := by
  have fits := ByteOrder.value_lt target.order bytes
  have whole := ByteOrder.image_value target.order bytes
  rw [length] at fits whole
  rw [BitVec.toNat_ofNat, Nat.mod_eq_of_lt (same ▸ fits), whole]

/-- Bytes that are decoded have the size of their type, and they are the image of what they are
decoded as, up to the byte of a bool. -/
theorem encode_decode (word : ty.IsWord) (decoded : Value.decode target ty bytes = .ok v) :
    bytes.length = (ty.size target.pointerSize).toNat ∧
      v.encode target = .ok (ty.normalize bytes) := by
  cases ty with
  | void | record => exact word.elim
  | bool =>
      obtain ⟨n, held, rfl⟩ := map_eq_ok.mp decoded
      obtain ⟨length, rfl⟩ := decodeWord_eq_ok.mp held
      obtain ⟨b, rfl⟩ := List.length_eq_one_iff.mp length
      have number : target.order.value [b] = b.toNat := by
        cases target with | mk size order => cases order <;> rfl
      refine ⟨length, ?_⟩
      show Except.ok [if target.order.value [b] != 0 then (1 : UInt8) else 0] =
        .ok [if b = 0 then 0 else 1]
      by_cases zero : b = 0
      · rw [number, zero]
        rfl
      · have nonzero : b.toNat ≠ 0 := fun same => zero (UInt8.toNat_inj.mp same)
        rw [number, if_pos (bne_iff_ne.mpr nonzero), if_neg zero]
  | int kind =>
      obtain ⟨n, held, rfl⟩ := map_eq_ok.mp decoded
      obtain ⟨length, rfl⟩ := decodeWord_eq_ok.mp held
      refine ⟨length.trans (UInt32.toNat_ofNat_bytes kind.bytes_le).symm, ?_⟩
      exact congrArg _ (image_ofNat (Machine.pow_256 kind) length)
  | float kind =>
      obtain ⟨n, held, rfl⟩ := map_eq_ok.mp decoded
      obtain ⟨length, rfl⟩ := decodeWord_eq_ok.mp held
      refine ⟨length.trans (UInt32.toNat_ofNat_bytes kind.bytes_le).symm, ?_⟩
      exact congrArg _ (image_ofNat (by cases kind <;> rfl) length)
  | pointer | function =>
      obtain ⟨address, held, rfl⟩ := map_eq_ok.mp decoded
      exact addressImage_addressOf held

theorem decode_eq_ok_iff (width : Target.isPointerWidth target.pointerSize) (word : ty.IsWord) :
    (∃ v, Value.decode target ty bytes = .ok v) ↔
      bytes.length = (ty.size target.pointerSize).toNat := by
  constructor
  · rintro ⟨v, decoded⟩
    exact (encode_decode word decoded).1
  · exact decode_of_length width

theorem storage?_iff {env : Checked.Env} (pointers : env.pointerSize = target.pointerSize)
    (inhabited : ty ≠ .void) {n : Nat} :
    (∃ size align, env.storage? ty = some (size, align) ∧ n = size.toNat) ↔
      n = (ty.size target.pointerSize).toNat := by
  rw [Ty.storage?_eq inhabited, pointers]
  constructor
  · rintro ⟨_, _, ⟨⟩, same⟩
    exact same
  · exact fun same => ⟨_, _, rfl, same⟩

/-- Values and images determine each other. Just the scalars and the addresses that fit are encoded,
in the size of their slot, and they are decoded again with all their bits. Just the bytes of the
size of a type are decoded, and they are encoded again but for the byte of a bool. Two values of one
type have one image exactly when they are equal up to what they point at. -/
theorem encode_decode_inverse {env : Checked.Env} (width : Target.isPointerWidth target.pointerSize)
    (pointers : env.pointerSize = target.pointerSize) :
    (∀ v : Value, ((∃ bytes, v.encode target = .ok bytes) ↔ v.HasImage target.pointerSize) ∧
      v.encode ⟨target.pointerSize, .big⟩ =
        (v.encode ⟨target.pointerSize, .little⟩).map List.reverse ∧
      ∀ bytes, v.encode target = .ok bytes →
        (∃ size align, env.storage? v.slotTy = some (size, align) ∧ bytes.length = size.toNat) ∧
          Value.decode target v.slotTy bytes = .ok v ∧ Value.decode target v.ty bytes = .ok v) ∧
    (∀ (ty : Ty) (bytes : List UInt8), ty.IsWord →
      ((∃ v, Value.decode target ty bytes = .ok v) ↔
        ∃ size align, env.storage? ty = some (size, align) ∧ bytes.length = size.toNat) ∧
      ∀ v, Value.decode target ty bytes = .ok v → v.encode target = .ok (ty.normalize bytes)) ∧
    ∀ (v w : Value) (bytes bytes' : List UInt8), v.encode target = .ok bytes →
      w.encode target = .ok bytes' → v.untyped.ty = w.untyped.ty →
        (bytes = bytes' ↔ v.untyped = w.untyped) := by
  refine ⟨fun v => ⟨encode_eq_ok_iff width, encode_big target.pointerSize v,
    fun bytes encoded => ⟨?_, decode_slotTy encoded, decode_ty encoded⟩⟩,
    fun ty bytes word => ⟨?_, fun v decoded => (encode_decode word decoded).2⟩,
    fun v w bytes bytes' first second => image_inj first second⟩
  · have inhabited : v.slotTy ≠ .void := by
      cases v with
      | void | aggregate => cases encoded
      | pointer pointee address => cases pointee <;> nofun
      | bool | int | float => nofun
    rw [storage?_iff pointers inhabited]
    exact length_of_encode (Ty.admits_self _) encoded
  · rw [decode_eq_ok_iff width word, storage?_iff pointers]
    rintro rfl
    exact word

end

/-- An address of two bytes, the more significant one first, in the slot of a function. -/
theorem encode_decode_inverse_far :
    let target : Target := ⟨2, .big⟩
    let callback : Ty := .function .void [] false
    Target.isPointerWidth target.pointerSize ∧
      (∃ bytes, (Value.pointer callback 0xbeef).encode target = .ok bytes) ∧
      Value.decode target callback [0xbe, 0xef] = .ok (.pointer callback 0xbeef) := by
  intro target callback
  have width : Target.isPointerWidth target.pointerSize := by decide
  obtain ⟨values, -, -⟩ := @encode_decode_inverse target ⟨2, fun _ => none⟩ width rfl
  obtain ⟨encodes, -, round⟩ := values (.pointer callback 0xbeef)
  have reaches : 0xbeef < 2 ^ (8 * 2) := by decide
  exact ⟨width, encodes.mpr reaches, (round [0xbe, 0xef] (by decide)).2.1⟩

end CallThunk
