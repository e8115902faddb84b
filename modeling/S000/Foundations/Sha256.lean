import S000.Foundations.Platform

/-!
# Foundations/Sha256 — SHA-256 on byte lists

The hash the signatures are made with, so that a signed request can be checked by evaluation.
Words are natural numbers below `2 ^ 32`.
-/

namespace S000.Sha256

open List

def modulus : ℕ := 4294967296

def rotr (x n : ℕ) : ℕ := (x >>> n) ||| ((x <<< (32 - n)) % modulus)

def roundConstants : List ℕ :=
  [0x428a2f98, 0x71374491, 0xb5c0fbcf, 0xe9b5dba5, 0x3956c25b, 0x59f111f1, 0x923f82a4, 0xab1c5ed5,
    0xd807aa98, 0x12835b01, 0x243185be, 0x550c7dc3, 0x72be5d74, 0x80deb1fe, 0x9bdc06a7, 0xc19bf174,
    0xe49b69c1, 0xefbe4786, 0x0fc19dc6, 0x240ca1cc, 0x2de92c6f, 0x4a7484aa, 0x5cb0a9dc, 0x76f988da,
    0x983e5152, 0xa831c66d, 0xb00327c8, 0xbf597fc7, 0xc6e00bf3, 0xd5a79147, 0x06ca6351, 0x14292967,
    0x27b70a85, 0x2e1b2138, 0x4d2c6dfc, 0x53380d13, 0x650a7354, 0x766a0abb, 0x81c2c92e, 0x92722c85,
    0xa2bfe8a1, 0xa81a664b, 0xc24b8b70, 0xc76c51a3, 0xd192e819, 0xd6990624, 0xf40e3585, 0x106aa070,
    0x19a4c116, 0x1e376c08, 0x2748774c, 0x34b0bcb5, 0x391c0cb3, 0x4ed8aa4a, 0x5b9cca4f, 0x682e6ff3,
    0x748f82ee, 0x78a5636f, 0x84c87814, 0x8cc70208, 0x90befffa, 0xa4506ceb, 0xbef9a3f7, 0xc67178f2]

/-- The eight words of the chaining value. -/
structure State where
  (a b c d e f g h : ℕ)

def initial : State :=
  ⟨0x6a09e667, 0xbb67ae85, 0x3c6ef372, 0xa54ff53a, 0x510e527f, 0x9b05688c, 0x1f83d9ab, 0x5be0cd19⟩

/-- The next word of the message schedule, from the last sixteen words, the oldest first. -/
def scheduleWord (w : List ℕ) : ℕ :=
  let w0 := w.getD 0 0
  let w1 := w.getD 1 0
  let w14 := w.getD 14 0
  let s0 := rotr w1 7 ^^^ rotr w1 18 ^^^ (w1 >>> 3)
  let s1 := rotr w14 17 ^^^ rotr w14 19 ^^^ (w14 >>> 10)
  (w0 + s0 + w.getD 9 0 + s1) % modulus

/-- One round, with the round constant `k` and the schedule word `w`. -/
def round (s : State) (k w : ℕ) : State :=
  let s1 := rotr s.e 6 ^^^ rotr s.e 11 ^^^ rotr s.e 25
  let ch := (s.e &&& s.f) ^^^ ((modulus - 1 - s.e) &&& s.g)
  let t1 := s.h + s1 + ch + k + w
  let s0 := rotr s.a 2 ^^^ rotr s.a 13 ^^^ rotr s.a 22
  let maj := (s.a &&& s.b) ^^^ (s.a &&& s.c) ^^^ (s.b &&& s.c)
  ⟨(t1 + s0 + maj) % modulus, s.a, s.b, s.c, (s.d + t1) % modulus, s.e, s.f, s.g⟩

/-- The rounds of a block; `w` is the window of sixteen schedule words that starts at this round. -/
def rounds : List ℕ → List ℕ → State → State
  | [], _, s => s
  | k :: ks, w, s => rounds ks (w.tail ++ [scheduleWord w]) (round s k (w.headD 0))

def words : Bytes → List ℕ
  | a :: b :: c :: d :: t =>
    (a.toNat * 16777216 + b.toNat * 65536 + c.toNat * 256 + d.toNat) :: words t
  | _ => []

def compress (s : State) (block : Bytes) : State :=
  let t := rounds roundConstants (words block) s
  ⟨(s.a + t.a) % modulus, (s.b + t.b) % modulus, (s.c + t.c) % modulus, (s.d + t.d) % modulus,
    (s.e + t.e) % modulus, (s.f + t.f) % modulus, (s.g + t.g) % modulus, (s.h + t.h) % modulus⟩

def bigEndian : ℕ → ℕ → Bytes
  | 0, _ => []
  | n + 1, x => bigEndian n (x / 256) ++ [.ofNat (x % 256)]

def pad (m : Bytes) : Bytes :=
  m ++ 0x80 :: replicate ((119 - m.length % 64) % 64) 0 ++ bigEndian 8 (m.length * 8)

/-- `n` blocks of a message. -/
def blocks : ℕ → Bytes → State → State
  | 0, _, s => s
  | n + 1, m, s => blocks n (m.drop 64) (compress s (m.take 64))

/-- `sha256.Sum256`. -/
def hash (m : Bytes) : Bytes :=
  let padded := pad m
  let s := blocks (padded.length / 64) padded initial
  [s.a, s.b, s.c, s.d, s.e, s.f, s.g, s.h].flatMap (bigEndian 4)

theorem length_bigEndian : ∀ n x, (bigEndian n x).length = n
  | 0, _ => rfl
  | n + 1, x => by rw [bigEndian, length_append, length_bigEndian n, length_singleton]

theorem length_hash (m : Bytes) : (hash m).length = 32 := by
  unfold hash
  simp [length_bigEndian]

example : hash (str "abc") =
    [0xba, 0x78, 0x16, 0xbf, 0x8f, 0x01, 0xcf, 0xea, 0x41, 0x41, 0x40, 0xde, 0x5d, 0xae, 0x22, 0x23,
      0xb0, 0x03, 0x61, 0xa3, 0x96, 0x17, 0x7a, 0x9c, 0xb4, 0x10, 0xff, 0x61, 0xf2, 0x00, 0x15,
      0xad] := by
  decide +kernel

/-- A platform with this hash function, for examples that evaluate no other library function. -/
def platform : Platform :=
  { sha256 := hash, sha1 := id, md5 := id, crc32 := id, crc32c := id, aes := fun _ b => b
    lowerUnicode := id, upperUnicode := id, parseHTTPTime := fun _ => none
    formatHTTPTime := fun _ => [] }

end S000.Sha256
