import CallThunk.Checked.Check

/-!
# Sizes and offsets as numbers

The layout of fields without a bound on numbers: each field lies at the least multiple of its
alignment behind the field before, and the size of a struct is the least multiple of its alignment
behind the last field. Placing fields in 32 bits gives the same numbers as long as they fit.
-/

namespace CallThunk

/-! ## Rounding up -/

theorem le_alignUp (n align : Nat) : n ≤ alignUp n align := by
  have pos : 0 < max align 1 := by omega
  have whole := Nat.div_add_mod (n + max align 1 - 1) (max align 1)
  have rest := Nat.mod_lt (n + max align 1 - 1) pos
  rw [Nat.mul_comm] at whole
  dsimp only [alignUp]
  omega

theorem dvd_alignUp (n align : Nat) : max align 1 ∣ alignUp n align := Nat.dvd_mul_left ..

/-! ## Numbers of 32 bits -/

theorem word32?_eq_none {n : Nat} : word32? n = none ↔ 2 ^ 32 ≤ n := by
  unfold word32?
  split
  next small => exact ⟨nofun, fun large => absurd small (by simpa [UInt32.size] using large)⟩
  next large => exact ⟨fun _ => by simpa [UInt32.size] using large, fun _ => rfl⟩

theorem word32?_of_lt {n : Nat} (h : n < 2 ^ 32) : word32? n = some (UInt32.ofNat n) :=
  if_pos h

theorem toNat_max (a b : UInt32) : (max a b).toNat = max a.toNat b.toNat := by
  show (if a ≤ b then b else a).toNat = _
  split
  next le => exact (Nat.max_eq_right (UInt32.le_iff_toNat_le.mp le)).symm
  next gt =>
    have le := UInt32.le_of_lt (UInt32.not_le.mp gt)
    exact (Nat.max_eq_left (UInt32.le_iff_toNat_le.mp le)).symm

/-! ## Placements -/

namespace Placement

variable {placed placed' : Placement} {name : String}

theorem add?_eq {stop : UInt32} (h : placed.stop = some stop)
    (name : String) (ty : Ty) (size align : UInt32) :
    placed.add? name ty size align =
      (word32? (alignUp stop.toNat align.toNat)).map fun offset =>
        ⟨placed.fields ++ [⟨name, ty, offset, size, align⟩], word32? (offset.toNat + size.toNat),
          max placed.align align⟩ := by
  unfold Placement.add?
  rw [h]
  show (word32? (alignUp stop.toNat align.toNat)).bind _ = _
  cases word32? (alignUp stop.toNat align.toNat) <;> rfl

theorem fields_of_add? {ty : Ty}
    {size align : UInt32} (h : placed.add? name ty size align = some placed') :
    ∃ offset, placed'.fields = placed.fields ++ [⟨name, ty, offset, size, align⟩] := by
  obtain ⟨stop, -, h⟩ := Option.bind_eq_some_iff.mp h
  obtain ⟨offset, -, h⟩ := Option.bind_eq_some_iff.mp h
  cases h
  exact ⟨offset, rfl⟩

theorem finish?_eq {stop : UInt32} (h : placed.stop = some stop) (name : String) :
    placed.finish? name =
      (word32? (alignUp stop.toNat placed.align.toNat)).map fun size =>
        ⟨name, size, placed.align, placed.fields⟩ := by
  unfold Placement.finish?
  rw [h]
  show (word32? (alignUp stop.toNat placed.align.toNat)).bind _ = _
  cases word32? (alignUp stop.toNat placed.align.toNat) <;> rfl

theorem fields_of_finish? {record : PlacedRecord}
    (h : placed.finish? name = some record) : record.fields = placed.fields := by
  obtain ⟨stop, -, h⟩ := Option.bind_eq_some_iff.mp h
  obtain ⟨size, -, h⟩ := Option.bind_eq_some_iff.mp h
  cases h
  rfl

theorem name_of_finish? {record : PlacedRecord}
    (h : placed.finish? name = some record) : record.name = name := by
  obtain ⟨stop, -, h⟩ := Option.bind_eq_some_iff.mp h
  obtain ⟨size, -, h⟩ := Option.bind_eq_some_iff.mp h
  cases h
  rfl

end Placement

/-! ## Fields -/

namespace Ty

/-- The bytes that a field of a type takes, for the size of a pointer. -/
def size (pointerSize : UInt32) : Ty → UInt32
  | void => 0
  | bool => 1
  | int kind => UInt32.ofNat kind.bytes
  | float kind => UInt32.ofNat kind.bytes
  | pointer _ | function .. => pointerSize
  | record r => r.size

/-- The alignment of a field of a type, which is its size unless it is a record. -/
def align (pointerSize : UInt32) : Ty → UInt32
  | void => 1
  | record r => r.align
  | ty => ty.size pointerSize

theorem storage?_eq {env : Checked.Env} {ty : Ty} (h : ty ≠ .void) :
    env.storage? ty = some (ty.size env.pointerSize, ty.align env.pointerSize) := by
  cases ty with
  | void => exact absurd rfl h
  | bool | int | float | pointer | function | record => rfl

end Ty

/-- One past the last byte of fields of some types that are laid out behind a number of bytes. -/
def fieldsStop (pointerSize : UInt32) : (stop : Nat) → List Ty → Nat
  | stop, [] => stop
  | stop, ty :: tys =>
    fieldsStop pointerSize
      (alignUp stop (ty.align pointerSize).toNat + (ty.size pointerSize).toNat) tys

/-- The alignment of fields of some types behind others: the largest one. -/
def fieldsAlign (pointerSize : UInt32) : (align : UInt32) → List Ty → UInt32
  | align, [] => align
  | align, ty :: tys => fieldsAlign pointerSize (max align (ty.align pointerSize)) tys

/-- The size of a struct with fields of some types. -/
def structSize (pointerSize : UInt32) (tys : List Ty) : Nat :=
  alignUp (fieldsStop pointerSize 0 tys) (fieldsAlign pointerSize 1 tys).toNat

theorem le_fieldsStop (pointerSize : UInt32) (stop : Nat) (tys : List Ty) :
    stop ≤ fieldsStop pointerSize stop tys := by
  induction tys generalizing stop with
  | nil => exact Nat.le_refl _
  | cons ty tys ih =>
      have offset := le_alignUp stop (ty.align pointerSize).toNat
      have rest := ih (alignUp stop (ty.align pointerSize).toNat + (ty.size pointerSize).toNat)
      rw [fieldsStop]
      omega

end CallThunk
