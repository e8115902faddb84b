import S000.Foundations.Strings
import Mathlib.Data.List.Indexes

/-!
# Foundations/Ctr — counter mode

A block function of sixteen bytes as a stream cipher: byte `i` of the data meets byte `i % 16` of the
image of the counter after `i / 16` steps.  The counter is a big-endian number that wraps around.
-/

namespace S000.Ctr

/-- One more, the lowest byte first. -/
def incrementLE : Bytes → Bytes
  | [] => []
  | b :: t => if b = 0xFF then 0 :: incrementLE t else (b + 1) :: t

def increment (counter : Bytes) : Bytes := (incrementLE counter.reverse).reverse

def keyByte (E : Bytes → Bytes) (iv : Bytes) (i : ℕ) : UInt8 :=
  (E (increment^[i / 16] iv)).getD (i % 16) 0

/-- `cipher.NewCTR`, on all of the data. -/
def xorKeyStream (E : Bytes → Bytes) (iv data : Bytes) : Bytes :=
  data.mapIdx fun i b => b ^^^ keyByte E iv i

variable (E : Bytes → Bytes) (iv data : Bytes)

@[simp] theorem length_xorKeyStream : (xorKeyStream E iv data).length = data.length :=
  List.length_mapIdx

@[simp] theorem xorKeyStream_nil : xorKeyStream E iv [] = [] := rfl

/-- **Decryption is encryption.** -/
@[simp] theorem xorKeyStream_xorKeyStream : xorKeyStream E iv (xorKeyStream E iv data) = data := by
  refine List.ext_getElem (by simp) fun i h₁ h₂ => ?_
  simp only [xorKeyStream, List.getElem_mapIdx, UInt8.xor_assoc, UInt8.xor_self, UInt8.xor_zero]

/-! ## Parts of the data -/

/-- The key stream after `k` blocks is that of the counter after `k` steps. -/
theorem keyByte_add (k i : ℕ) : keyByte E iv (16 * k + i) = keyByte E (increment^[k] iv) i := by
  have hdiv : (16 * k + i) / 16 = i / 16 + k := by omega
  have hmod : (16 * k + i) % 16 = i % 16 := by omega
  rw [keyByte, keyByte, hdiv, hmod, Function.iterate_add_apply]

theorem xorKeyStream_take (n : ℕ) :
    xorKeyStream E iv (data.take n) = (xorKeyStream E iv data).take n := by
  refine List.ext_getElem (by simp) fun i h₁ h₂ => ?_
  simp [xorKeyStream]

/-- **Counter mode from a block on.** -/
theorem xorKeyStream_drop (k : ℕ) : xorKeyStream E (increment^[k] iv) (data.drop (16 * k)) =
    (xorKeyStream E iv data).drop (16 * k) := by
  refine List.ext_getElem (by simp) fun i h₁ h₂ => ?_
  simp [xorKeyStream, keyByte_add]

end S000.Ctr
