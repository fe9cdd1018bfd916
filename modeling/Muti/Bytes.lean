import Mathlib.Algebra.GroupWithZero.Nat
import Mathlib.Data.List.Basic

/-! Little-endian byte images of fixed-width words, and the words read back out of
a byte string. Reading a short string treats the missing high bytes as zero;
callers check lengths before they read. -/
namespace Muti.Bytes

/-- The `k` low bytes of `n`, least significant first. -/
def image : Nat → Nat → List UInt8
  | 0, _ => []
  | k + 1, n => UInt8.ofNat n :: image k (n / 256)

def value : List UInt8 → Nat
  | [] => 0
  | b :: bs => b.toNat + 256 * value bs

/-- The `k`-byte word found at `offset`. -/
def field (offset k : Nat) (bytes : List UInt8) : Nat := value ((bytes.drop offset).take k)

@[simp] theorem image_length (k n : Nat) : (image k n).length = k := by
  induction k generalizing n with
  | zero => rfl
  | succ k ih => simp [image,ih]

theorem value_image (k n : Nat) : value (image k n) = n % 256 ^ k := by
  induction k generalizing n with
  | zero => simp [image,value,Nat.mod_one]
  | succ k ih =>
    have split : n % (256 * 256 ^ k) = n % 256 + 256 * (n / 256 % 256 ^ k) := Nat.mod_mul
    rw [image,value,ih,Nat.pow_succ,Nat.mul_comm (256 ^ k),split]
    simp

theorem image_add (j k n : Nat) : image (j + k) n = image j n ++ image k (n / 256 ^ j) := by
  induction j generalizing n with
  | zero => simp [image]
  | succ j ih => rw [Nat.succ_add,image,image,ih,Nat.div_div_eq_div_mul,Nat.pow_succ',List.cons_append]

/-- A field lies where its enclosing image puts it, whatever follows the image. -/
theorem field_append (front back : List UInt8) (offset k : Nat) (bound : offset + k ≤ front.length) :
    field offset k (front ++ back) = field offset k front := by
  have room : k ≤ (front.drop offset).length := by rw [List.length_drop]; omega
  rw [field,List.drop_append_of_le_length (by omega),List.take_append_of_le_length room,field]

theorem field_skip (front back : List UInt8) (offset k : Nat) (bound : front.length ≤ offset) :
    field offset k (front ++ back) = field (offset - front.length) k back := by
  rw [field,List.drop_append,List.drop_eq_nil_of_le bound,List.nil_append,field]

theorem field_image (k n : Nat) (back : List UInt8) :
    field 0 k (image k n ++ back) = n % 256 ^ k := by
  rw [field,List.drop_zero,List.take_left' (image_length k n),value_image]

def image16 (x : UInt16) : List UInt8 := image 2 x.toNat
def image32 (x : UInt32) : List UInt8 := image 4 x.toNat
def image64 (x : UInt64) : List UInt8 := image 8 x.toNat

def field16 (offset : Nat) (bytes : List UInt8) : UInt16 := UInt16.ofNat (field offset 2 bytes)
def field32 (offset : Nat) (bytes : List UInt8) : UInt32 := UInt32.ofNat (field offset 4 bytes)
def field64 (offset : Nat) (bytes : List UInt8) : UInt64 := UInt64.ofNat (field offset 8 bytes)

@[simp] theorem image16_length (x : UInt16) : (image16 x).length = 2 := image_length ..
@[simp] theorem image32_length (x : UInt32) : (image32 x).length = 4 := image_length ..
@[simp] theorem image64_length (x : UInt64) : (image64 x).length = 8 := image_length ..

@[simp] theorem field16_image16 (x : UInt16) (back : List UInt8) :
    field16 0 (image16 x ++ back) = x := by
  have range : x.toNat < 256 ^ 2 := x.toNat_lt
  rw [field16,image16,field_image,Nat.mod_eq_of_lt range,UInt16.ofNat_toNat]

@[simp] theorem field32_image32 (x : UInt32) (back : List UInt8) :
    field32 0 (image32 x ++ back) = x := by
  have range : x.toNat < 256 ^ 4 := x.toNat_lt
  rw [field32,image32,field_image,Nat.mod_eq_of_lt range,UInt32.ofNat_toNat]

@[simp] theorem field64_image64 (x : UInt64) (back : List UInt8) :
    field64 0 (image64 x ++ back) = x := by
  have range : x.toNat < 256 ^ 8 := x.toNat_lt
  rw [field64,image64,field_image,Nat.mod_eq_of_lt range,UInt64.ofNat_toNat]

/-- A word read through a pointer to a narrower one loses its high half. -/
theorem field32_image64 (x : UInt64) (back : List UInt8) : field32 0 (image64 x ++ back) = x.toUInt32 := by
  rw [field32,image64,image_add 4 4,List.append_assoc,field_image]
  apply UInt32.toNat_inj.mp
  rw [UInt32.toNat_ofNat',UInt64.toNat_toUInt32]
  change x.toNat % 2 ^ 32 % 2 ^ 32 = _
  omega

/-- Lengths below the word size survive the conversion. -/
theorem toNat_ofNat_small (small : n < 2 ^ 64) : (UInt64.ofNat n).toNat = n :=
  UInt64.toNat_ofNat_of_lt small

end Muti.Bytes
