import S000.Foundations.Sha256

/-!
# Foundations/Digest — the digests of stored objects

MD5, SHA-1 and the two CRC-32 checksums, next to SHA-256 the digests a stored object carries, so that
an example can evaluate the entity tag of an object.  Words are natural numbers below `2 ^ 32`.
-/

namespace S000

open List
open Sha256 (modulus bigEndian)

def rotl (x n : ℕ) : ℕ := ((x <<< n) % modulus) ||| (x >>> (32 - n))

def complement (x : ℕ) : ℕ := modulus - 1 - x

/-! ## MD5 -/

namespace Md5

def roundConstants : List ℕ :=
  [0xd76aa478, 0xe8c7b756, 0x242070db, 0xc1bdceee, 0xf57c0faf, 0x4787c62a, 0xa8304613, 0xfd469501,
    0x698098d8, 0x8b44f7af, 0xffff5bb1, 0x895cd7be, 0x6b901122, 0xfd987193, 0xa679438e, 0x49b40821,
    0xf61e2562, 0xc040b340, 0x265e5a51, 0xe9b6c7aa, 0xd62f105d, 0x02441453, 0xd8a1e681, 0xe7d3fbc8,
    0x21e1cde6, 0xc33707d6, 0xf4d50d87, 0x455a14ed, 0xa9e3e905, 0xfcefa3f8, 0x676f02d9, 0x8d2a4c8a,
    0xfffa3942, 0x8771f681, 0x6d9d6122, 0xfde5380c, 0xa4beea44, 0x4bdecfa9, 0xf6bb4b60, 0xbebfbc70,
    0x289b7ec6, 0xeaa127fa, 0xd4ef3085, 0x04881d05, 0xd9d4d039, 0xe6db99e5, 0x1fa27cf8, 0xc4ac5665,
    0xf4292244, 0x432aff97, 0xab9423a7, 0xfc93a039, 0x655b59c3, 0x8f0ccc92, 0xffeff47d, 0x85845dd1,
    0x6fa87e4f, 0xfe2ce6e0, 0xa3014314, 0x4e0811a1, 0xf7537e82, 0xbd3af235, 0x2ad7d2bb, 0xeb86d391]

/-- The four words of the chaining value. -/
structure State where
  (a b c d : ℕ)

/-- The amount of the rotation in round `i`. -/
def shift (i : ℕ) : ℕ :=
  match i / 16, i % 4 with
  | 0, 0 => 7 | 0, 1 => 12 | 0, 2 => 17 | 0, _ => 22
  | 1, 0 => 5 | 1, 1 => 9 | 1, 2 => 14 | 1, _ => 20
  | 2, 0 => 4 | 2, 1 => 11 | 2, 2 => 16 | 2, _ => 23
  | _, 0 => 6 | _, 1 => 10 | _, 2 => 15 | _, _ => 21

/-- The mixing function of round `i`, and the word of the block it takes. -/
def mix (i : ℕ) (s : State) : ℕ × ℕ :=
  match i / 16 with
  | 0 => ((s.b &&& s.c) ||| (complement s.b &&& s.d), i)
  | 1 => ((s.d &&& s.b) ||| (complement s.d &&& s.c), (5 * i + 1) % 16)
  | 2 => (s.b ^^^ s.c ^^^ s.d, (3 * i + 5) % 16)
  | _ => (s.c ^^^ (s.b ||| complement s.d), 7 * i % 16)

/-- The rounds of a block from round `i` on. -/
def rounds (block : List ℕ) : ℕ → List ℕ → State → State
  | _, [], s => s
  | i, k :: ks, s =>
    let (f, g) := mix i s
    let x := (f + s.a + k + block.getD g 0) % modulus
    rounds block (i + 1) ks ⟨s.d, (s.b + rotl x (shift i)) % modulus, s.b, s.c⟩

def littleEndian (n x : ℕ) : Bytes := (bigEndian n x).reverse

def words : Bytes → List ℕ
  | a :: b :: c :: d :: t =>
    (d.toNat * 16777216 + c.toNat * 65536 + b.toNat * 256 + a.toNat) :: words t
  | _ => []

def compress (s : State) (block : Bytes) : State :=
  let t := rounds (words block) 0 roundConstants s
  ⟨(s.a + t.a) % modulus, (s.b + t.b) % modulus, (s.c + t.c) % modulus, (s.d + t.d) % modulus⟩

/-- `n` blocks of a message. -/
def blocks : ℕ → Bytes → State → State
  | 0, _, s => s
  | n + 1, m, s => blocks n (m.drop 64) (compress s (m.take 64))

/-- `md5.Sum`. -/
def hash (m : Bytes) : Bytes :=
  let padded := m ++ 0x80 :: replicate ((119 - m.length % 64) % 64) 0 ++
    littleEndian 8 (m.length * 8)
  let s := blocks (padded.length / 64) padded ⟨0x67452301, 0xefcdab89, 0x98badcfe, 0x10325476⟩
  [s.a, s.b, s.c, s.d].flatMap (littleEndian 4)

example : hash (str "abc") =
    [0x90, 0x01, 0x50, 0x98, 0x3c, 0xd2, 0x4f, 0xb0, 0xd6, 0x96, 0x3f, 0x7d, 0x28, 0xe1, 0x7f,
      0x72] := by
  decide +kernel

end Md5

/-! ## SHA-1 -/

namespace Sha1

/-- The five words of the chaining value. -/
structure State where
  (a b c d e : ℕ)

/-- The mixing function of round `i`, and its constant. -/
def mix (i : ℕ) (s : State) : ℕ × ℕ :=
  match i / 20 with
  | 0 => ((s.b &&& s.c) ||| (complement s.b &&& s.d), 0x5a827999)
  | 1 => (s.b ^^^ s.c ^^^ s.d, 0x6ed9eba1)
  | 2 => ((s.b &&& s.c) ||| (s.b &&& s.d) ||| (s.c &&& s.d), 0x8f1bbcdc)
  | _ => (s.b ^^^ s.c ^^^ s.d, 0xca62c1d6)

/-- `n` rounds from round `i` on; `w` is the window of sixteen schedule words that starts there. -/
def rounds : ℕ → ℕ → List ℕ → State → State
  | 0, _, _, s => s
  | n + 1, i, w, s =>
    let (f, k) := mix i s
    let x := (rotl s.a 5 + f + s.e + k + w.headD 0) % modulus
    let next := rotl (w.getD 13 0 ^^^ w.getD 8 0 ^^^ w.getD 2 0 ^^^ w.getD 0 0) 1
    rounds n (i + 1) (w.tail ++ [next]) ⟨x, s.a, rotl s.b 30, s.c, s.d⟩

def compress (s : State) (block : Bytes) : State :=
  let t := rounds 80 0 (Sha256.words block) s
  ⟨(s.a + t.a) % modulus, (s.b + t.b) % modulus, (s.c + t.c) % modulus, (s.d + t.d) % modulus,
    (s.e + t.e) % modulus⟩

/-- `n` blocks of a message. -/
def blocks : ℕ → Bytes → State → State
  | 0, _, s => s
  | n + 1, m, s => blocks n (m.drop 64) (compress s (m.take 64))

/-- `sha1.Sum`. -/
def hash (m : Bytes) : Bytes :=
  let padded := Sha256.pad m
  let s := blocks (padded.length / 64) padded
    ⟨0x67452301, 0xefcdab89, 0x98badcfe, 0x10325476, 0xc3d2e1f0⟩
  [s.a, s.b, s.c, s.d, s.e].flatMap (bigEndian 4)

example : hash (str "abc") =
    [0xa9, 0x99, 0x3e, 0x36, 0x47, 0x06, 0x81, 0x6a, 0xba, 0x3e, 0x25, 0x71, 0x78, 0x50, 0xc2, 0x6c,
      0x9c, 0xd0, 0xd8, 0x9d] := by
  decide +kernel

end Sha1

/-! ## CRC-32 -/

namespace Crc32

/-- `n` bits of the register. -/
def bits (poly : ℕ) : ℕ → ℕ → ℕ
  | 0, x => x
  | n + 1, x => bits poly n (if x % 2 = 1 then (x / 2) ^^^ poly else x / 2)

/-- The big-endian checksum over a reflected polynomial. -/
def hash (poly : ℕ) (m : Bytes) : Bytes :=
  bigEndian 4 (complement
    (m.foldl (fun x b => bits poly 8 (x ^^^ b.toNat)) (modulus - 1)))

/-- `crc32.NewIEEE`. -/
def ieee : Bytes → Bytes := hash 0xedb88320

/-- `crc32.New(crc32.MakeTable(crc32.Castagnoli))`. -/
def castagnoli : Bytes → Bytes := hash 0x82f63b78

example : ieee (str "123456789") = [0xcb, 0xf4, 0x39, 0x26] := by decide +kernel
example : castagnoli (str "123456789") = [0xe3, 0x06, 0x92, 0x83] := by decide +kernel

end Crc32

/-- A platform with these digests, for examples that neither encrypt nor parse a date. -/
def digestPlatform : Platform :=
  { Sha256.platform with sha1 := Sha1.hash, md5 := Md5.hash, crc32 := Crc32.ieee
                         crc32c := Crc32.castagnoli }

/-- A hash function on some inputs; other inputs have longer values, so that no two are confused. -/
def spread (f : Bytes → Bytes) (inputs : List Bytes) (x : Bytes) : Bytes :=
  if x ∈ inputs then f x else x ++ replicate 65 0

theorem spread_injective {f : Bytes → Bytes} {inputs : List Bytes}
    (hinj : ∀ x ∈ inputs, ∀ y ∈ inputs, f x = f y → x = y)
    (hlength : ∀ x ∈ inputs, (f x).length ≤ 64) : Function.Injective (spread f inputs) := by
  intro x y h
  unfold spread at h
  split_ifs at h with hx hy hy
  · exact hinj x hx y hy h
  · have := hlength x hx
    have := congrArg length h
    simp at this
    omega
  · have := hlength y hy
    have := congrArg length h
    simp at this
    omega
  · exact append_cancel_right h

/-- SHA-256 on some inputs is injective where it does not confuse two of them. -/
theorem spread_sha256_injective {inputs : List Bytes}
    (hinj : ∀ x ∈ inputs, ∀ y ∈ inputs, Sha256.hash x = Sha256.hash y → x = y) :
    Function.Injective (spread Sha256.hash inputs) :=
  spread_injective hinj fun x _ => by
    rw [Sha256.length_hash]
    decide

theorem spread_sha256_ne_nil (inputs : List Bytes) (x : Bytes) : spread Sha256.hash inputs x ≠ [] := by
  unfold spread
  split_ifs
  · exact ne_nil_of_length_pos (by rw [Sha256.length_hash]; decide)
  · simp

end S000
