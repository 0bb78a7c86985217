import CallThunk.Numeral

/-!
# Target data model

What must be known about a target: the size of its pointers and the order of bytes in a word. The
image of a number is its little-endian bytes or the same bytes reversed.
-/

namespace CallThunk

/-- The order of the bytes of a word in memory. -/
inductive ByteOrder where
  | little | big
  deriving DecidableEq

/-- The data model of a target. -/
structure Target where
  /-- Size of a pointer in bytes. -/
  pointerSize : UInt32
  order : ByteOrder
  deriving DecidableEq

namespace ByteOrder

def text : ByteOrder → String
  | little => "little-endian"
  | big => "big-endian"

/-- The low `count` bytes of a number, the least significant one first. -/
def littleBytes : (count : Nat) → Nat → List UInt8
  | 0, _ => []
  | count + 1, n => UInt8.ofNat n :: littleBytes count (n / 256)

/-- The number whose bytes are given, the least significant one first. -/
def littleValue : List UInt8 → Nat
  | [] => 0
  | b :: bs => b.toNat + 256 * littleValue bs

/-- The image of a number in `count` bytes. -/
def image (order : ByteOrder) (count n : Nat) : List UInt8 :=
  match order with
  | little => littleBytes count n
  | big => (littleBytes count n).reverse

/-- The number that an image holds. -/
def value (order : ByteOrder) (bytes : List UInt8) : Nat :=
  match order with
  | little => littleValue bytes
  | big => littleValue bytes.reverse

@[simp] theorem length_littleBytes (count n : Nat) : (littleBytes count n).length = count := by
  induction count generalizing n with
  | zero => rfl
  | succ count ih => simp [littleBytes, ih]

theorem littleValue_littleBytes (count n : Nat) :
    littleValue (littleBytes count n) = n % 256 ^ count := by
  induction count generalizing n with
  | zero => simp [littleBytes, littleValue, Nat.mod_one]
  | succ count ih =>
    simp only [littleBytes, littleValue, ih, Nat.pow_succ', Nat.mod_mul]
    simp

theorem littleValue_lt (bytes : List UInt8) : littleValue bytes < 256 ^ bytes.length := by
  induction bytes with
  | nil => simp [littleValue]
  | cons b bs ih =>
    have hb := b.toNat_lt
    simp only [littleValue, List.length_cons, Nat.pow_succ']
    omega

theorem littleBytes_littleValue (bytes : List UInt8) :
    littleBytes bytes.length (littleValue bytes) = bytes := by
  induction bytes with
  | nil => rfl
  | cons b bs ih =>
    have hb := b.toNat_lt
    have hd : (b.toNat + 256 * littleValue bs) / 256 = littleValue bs := by omega
    simp only [List.length_cons, littleBytes, littleValue, hd, ih]
    congr 1
    apply UInt8.toNat_inj.mp
    simp

@[simp] theorem length_image (order : ByteOrder) (count n : Nat) :
    (order.image count n).length = count := by
  cases order <;> simp [image]

/-- An image holds the number modulo the word size. -/
theorem value_image (order : ByteOrder) (count n : Nat) :
    order.value (order.image count n) = n % 256 ^ count := by
  cases order <;> simp [image, value, littleValue_littleBytes]

theorem value_lt (order : ByteOrder) (bytes : List UInt8) :
    order.value bytes < 256 ^ bytes.length := by
  cases order with
  | little => exact littleValue_lt bytes
  | big => simpa [value] using littleValue_lt bytes.reverse

/-- Every byte string is the image of the number it holds. -/
theorem image_value (order : ByteOrder) (bytes : List UInt8) :
    order.image bytes.length (order.value bytes) = bytes := by
  cases order with
  | little => exact littleBytes_littleValue bytes
  | big =>
    have h := littleBytes_littleValue bytes.reverse
    rw [List.length_reverse] at h
    simp [image, value, h]

end ByteOrder

namespace Target

/-- The data model of the machine this library runs calls on. -/
def host : Target := ⟨8, .little⟩

def text (target : Target) : String :=
  Numeral.decimal (target.pointerSize * 8).toNat ++ "-bit " ++ target.order.text

end Target

end CallThunk
