import S000.Foundations.Ctr
import S000.Foundations.Heap
import S000.Server.Api
import Mathlib.Data.Nat.Digits.Defs

/-!
# Server/Sse — server-side encryption

`internal/server/sse.go`.  An encrypted object is stored as its initialisation vector followed by the
data in counter mode; its digests are those of the data.  `storedBytes` and `content` are the two
directions on whole objects: what is written for some data, and what a file reads as under a row.
-/

namespace S000

open Strings Metadata Blob Prog

/-- `sseAlgorithmAES256`. -/
def sseAlgorithmAES256 : Bytes := str "AES256"

/-- `sseMetadataKey`. -/
def sseMetadataKey : Bytes := str "__s000_sse"

/-- `sseIVSize`. -/
def sseIVSize : ℕ := 16

/-- `objectUsesSSE`. -/
def objectUsesSSE (obj : ObjectVersion) : Bool :=
  obj.metadata.at sseMetadataKey = sseAlgorithmAES256

/-- `setSSEHeader`. -/
def setSSEHeader (obj : ObjectVersion) : List (Bytes × Bytes) :=
  if objectUsesSSE obj then [(str "x-amz-server-side-encryption", sseAlgorithmAES256)] else []

/-- `markSSEMetadata`. -/
def markSSEMetadata (metadata : StrMap) (encrypted : Bool) : StrMap :=
  if encrypted then metadata.insert sseMetadataKey sseAlgorithmAES256
  else metadata.erase sseMetadataKey

theorem markSSEMetadata_at (metadata : StrMap) (encrypted : Bool) :
    (markSSEMetadata metadata encrypted).at sseMetadataKey =
      if encrypted then sseAlgorithmAES256 else [] := by
  cases encrypted <;> simp [markSSEMetadata, StrMap.at]

/-- The algorithm of `sseRequested`. -/
def sseRequestedAlgorithm (r : Request) : Bytes :=
  trimSpace (r.header.get (str "x-amz-server-side-encryption"))

/-- The flag of `sseRequested`. -/
def sseRequested (r : Request) : Bool := sseRequestedAlgorithm r ≠ []

/-- `validateSSEHeaders`: whether the object is to be encrypted. -/
def validateSSEHeaders (a : S3API) (r : Request) (bucket key : Bytes) : Except Reply Bool :=
  if !sseRequested r then .ok false
  else if sseRequestedAlgorithm r ≠ sseAlgorithmAES256 then
    .error (objectError bucket key 400 "InvalidArgument"
      "Unsupported server-side encryption algorithm.")
  else if a.sseKey.length ≠ 32 then
    .error (objectError bucket key 400 "InvalidRequest" "SSE-S3 is not configured.")
  else .ok true

/-- A request that passes is encrypted as it asks for, under a key of the right length. -/
theorem validateSSEHeaders_ok {a : S3API} {r : Request} {bucket key : Bytes} {encrypted : Bool}
    (h : validateSSEHeaders a r bucket key = .ok encrypted) :
    encrypted = sseRequested r ∧ (encrypted = true → a.sseKey.length = 32) := by
  unfold validateSSEHeaders at h
  split_ifs at h with hreq halg hkey
  · cases h
    exact ⟨(by simpa using hreq : sseRequested r = false).symm, nofun⟩
  · cases h
    exact ⟨(by simpa using hreq : sseRequested r = true).symm, fun _ => not_not.1 hkey⟩

/-! ## Writing -/

def storedBytes (a : S3API) (iv : Bytes) (encrypted : Bool) (data : Bytes) : Bytes :=
  if encrypted then iv ++ Ctr.xorKeyStream (a.platform.aes a.sseKey) iv data else data

/-- The key has a length that `aes.NewCipher` takes. -/
def S3API.keyed (a : S3API) : Bool :=
  a.sseKey.length = 16 || a.sseKey.length = 24 || a.sseKey.length = 32

/-- `writeMaybeEncryptedObject`. -/
def writeMaybeEncryptedObject (a : S3API) (c : Ctx) (ref : ObjectRef) (src : Stream)
    (encrypted : Bool) : Act (Option ObjectMeta) := do
  if !encrypted then writeObject a.platform a.blob c.now ref src
  else if !a.keyed then return none
  else
    let ciphertext : Stream := ⟨storedBytes a c.iv true src.bytes, src.fails⟩
    match ← writeObject a.platform a.blob c.now ref ciphertext with
    | none => return none
    | some base => return some { base with toDigests := digests a.platform src.bytes }

/-! ## Reading -/

/-- The carry of `advanceCTRIV` through the bytes from the lowest on. -/
def addCarry : ℕ → Bytes → Bytes
  | _, [] => []
  | carry, b :: t =>
    if carry = 0 then b :: t
    else
      let sum := b.toNat + carry % 256
      .ofNat sum :: addCarry (carry / 256 + sum / 256) t

/-- `advanceCTRIV`. -/
def advanceCTRIV (iv : Bytes) (blocks : ℕ) : Bytes := (addCarry blocks iv.reverse).reverse

@[simp] theorem addCarry_zero (l : Bytes) : addCarry 0 l = l := by
  cases l with
  | nil => rfl
  | cons b t => rw [addCarry, if_pos rfl]

theorem addCarry_cons (carry : ℕ) (b : UInt8) (t : Bytes) :
    addCarry carry (b :: t) = .ofNat (b.toNat + carry) :: addCarry ((b.toNat + carry) / 256) t := by
  rw [addCarry]
  have hb : b.toNat < 256 := b.toNat_lt
  split_ifs with hzero
  · rw [hzero, add_zero, Nat.div_eq_of_lt hb, addCarry_zero, UInt8.ofNat_toNat]
  have hdiv : carry / 256 + (b.toNat + carry % 256) / 256 = (b.toNat + carry) / 256 := by omega
  have hbyte : UInt8.ofNat (b.toNat + carry % 256) = .ofNat (b.toNat + carry) := by
    rw [UInt8.ofNat_eq_iff_mod_eq_toNat, UInt8.toNat_ofNat']
    omega
  simp only [hdiv, hbyte]

/-- Carrying one more is counting once more. -/
theorem addCarry_succ : ∀ (l : Bytes) (carry : ℕ),
    addCarry (carry + 1) l = Ctr.incrementLE (addCarry carry l)
  | [], _ => rfl
  | b :: t, carry => by
    rw [addCarry_cons, addCarry_cons, Ctr.incrementLE, ← add_assoc]
    have hlast : UInt8.ofNat (b.toNat + carry) = 0xFF ↔ (b.toNat + carry) % 256 = 255 := by
      rw [← UInt8.toNat_inj]
      rfl
    split_ifs with h
    · have hmod := hlast.1 h
      have hdiv : (b.toNat + carry + 1) / 256 = (b.toNat + carry) / 256 + 1 := by omega
      have hbyte : UInt8.ofNat (b.toNat + carry + 1) = 0 := by
        rw [← UInt8.toNat_inj, UInt8.toNat_ofNat']
        show _ = 0
        omega
      rw [hdiv, hbyte, addCarry_succ t]
    · have hmod := mt hlast.2 h
      have hdiv : (b.toNat + carry + 1) / 256 = (b.toNat + carry) / 256 := by omega
      rw [hdiv, UInt8.ofNat_add]
      rfl

/-- **`advanceCTRIV` counts**, one step for each block. -/
theorem advanceCTRIV_eq (iv : Bytes) (blocks : ℕ) :
    advanceCTRIV iv blocks = Ctr.increment^[blocks] iv := by
  induction blocks with
  | zero => simp [advanceCTRIV]
  | succ n ih =>
    rw [Function.iterate_succ_apply', ← ih, Ctr.increment, advanceCTRIV, advanceCTRIV,
      List.reverse_reverse, addCarry_succ]

/-! ### The loop in its array -/

/-- The loop of `advanceCTRIV`, over the first `i` bytes of the array and with a carry of 64 bits. -/
def advanceLoop : ℕ → UInt64 → Bytes → Bytes
  | 0, _, out => out
  | i + 1, carry, out =>
    if carry = 0 then out
    else
      let sum := (out.getD i 0).toUInt64 + (carry &&& 0xff)
      advanceLoop i ((carry >>> 8) + (sum >>> 8)) (out.set i sum.toUInt8)

/-- `advanceCTRIV` on arrays: the array of the result, and the memory with it. -/
def advanceInMemory (m : Heap.Cells Bytes) (iv : ℕ) (blocks : UInt64) : ℕ × Heap.Cells Bytes :=
  -- `append([]byte(nil), iv...)`
  let m' := m.alloc (m.val iv)
  (m.next, m'.write m.next (advanceLoop (m'.val m.next).length blocks (m'.val m.next)))

/-- The loop carries through the bytes from the last on, and its carry never overflows. -/
theorem advanceLoop_eq : ∀ (front rest : Bytes) {carry : UInt64}, carry.toNat < 2 ^ 63 →
    advanceLoop front.length carry (front.reverse ++ rest) =
      (addCarry carry.toNat front).reverse ++ rest
  | [], _, _, _ => rfl
  | b :: t, rest, carry, hcarry => by
    have hb := b.toNat_lt
    have hsum : (b.toUInt64 + (carry &&& 0xff)).toNat = b.toNat + carry.toNat % 256 := by
      rw [UInt64.toNat_add, UInt64.toNat_and, UInt8.toNat_toUInt64]
      have hlow : carry.toNat &&& 0xff = carry.toNat % 256 := Nat.and_two_pow_sub_one_eq_mod _ 8
      change (_ + (carry.toNat &&& 0xff)) % _ = _
      rw [hlow]
      omega
    have hnext : ((carry >>> 8) + ((b.toUInt64 + (carry &&& 0xff)) >>> 8)).toNat =
        carry.toNat / 256 + (b.toNat + carry.toNat % 256) / 256 := by
      rw [UInt64.toNat_add, UInt64.toNat_shiftRight, UInt64.toNat_shiftRight]
      change (carry.toNat >>> 8 + _ >>> 8) % _ = _
      omega
    have hbyte : (b.toUInt64 + (carry &&& 0xff)).toUInt8 = .ofNat (b.toNat + carry.toNat % 256) := by
      rw [← hsum]
      rfl
    have hzero : carry = 0 ↔ carry.toNat = 0 := by
      rw [← UInt64.toNat_inj]
      rfl
    rw [List.length_cons, advanceLoop, addCarry, List.reverse_cons, List.append_assoc]
    simp only [hzero]
    split_ifs
    · simp
    have hget : (t.reverse ++ ([b] ++ rest)).getD t.length 0 = b := by simp
    have hset (c : UInt8) : (t.reverse ++ ([b] ++ rest)).set t.length c = t.reverse ++ c :: rest := by
      simp
    simp only [hget, hset, hbyte]
    rw [advanceLoop_eq t _ (by omega), hnext]
    simp

/-- The number that bytes are, the highest first. -/
def number (b : Bytes) : ℕ := .ofDigits 256 (b.reverse.map UInt8.toNat)

theorem ofDigits_addCarry : ∀ (l : Bytes) (carry : ℕ),
    .ofDigits 256 ((addCarry carry l).map UInt8.toNat) =
      (.ofDigits 256 (l.map UInt8.toNat) + carry) % 256 ^ l.length
  | [], _ => by simp [addCarry, Nat.mod_one]
  | b :: t, carry => by
    simp only [addCarry_cons, List.map_cons, Nat.ofDigits_cons, ofDigits_addCarry t, List.length_cons,
      UInt8.toNat_ofNat']
    have hdiv (x : ℕ) : (b.toNat + 256 * x + carry) / 256 = x + (b.toNat + carry) / 256 := by omega
    rw [Nat.pow_succ' (m := 256), Nat.mod_mul, hdiv]
    omega

/-- **Counting is adding**: for a counter of sixteen bytes and a count below `2 ^ 63`, the result is the
sum modulo `2 ^ 128`, in an array of its own; no array that there was is changed. -/
theorem advanceInMemory_adds {m : Heap.Cells Bytes} {iv : ℕ} {blocks : UInt64}
    (hlength : (m.val iv).length = 16) (hblocks : blocks.toNat < 2 ^ 63) :
    let (out, m') := advanceInMemory m iv blocks
    m'.val out = advanceCTRIV (m.val iv) blocks.toNat ∧
      number (m'.val out) = (number (m.val iv) + blocks.toNat) % 2 ^ 128 ∧
      ∀ array < m.next, m'.val array = m.val array := by
  have hout : (m.alloc (m.val iv)).val m.next = m.val iv := Heap.Cells.val_alloc_self
  have hloop := advanceLoop_eq (m.val iv).reverse [] hblocks
  simp only [List.length_reverse, List.reverse_reverse, List.append_nil] at hloop
  simp only [advanceInMemory, hout, Heap.Cells.val_write_self]
  refine ⟨hloop, ?_, fun array h => ?_⟩
  · rw [hloop, number, List.reverse_reverse, ofDigits_addCarry, List.length_reverse, hlength]
    rfl
  · rw [Heap.Cells.val_write_of_ne h.ne, Heap.Cells.val_alloc_of_lt h]

/-- A counter of ones wraps around. -/
theorem advanceInMemory_adds_one :
    let ones := List.replicate 16 0xFF
    number ((advanceInMemory ⟨fun _ => ones, 1⟩ 0 1).2.val 1) = (number ones + 1) % 2 ^ 128 :=
  (advanceInMemory_adds (by decide)
    (by decide)).2.1

/-- `readMaybeEncryptedObject`: what is written to the destination, and whether it ends with an
error. -/
def readMaybeEncryptedObject (a : S3API) (obj : ObjectVersion) (br : Option ByteRange) :
    Act Stream := do
  if !objectUsesSSE obj then readObject obj.storagePath br
  else if a.sseKey.length ≠ 32 then return ⟨[], true⟩
  else match ← ask (.openFile obj.storagePath) with
  | none => return ⟨[], true⟩
  | some f =>
    let iv := f.section 0 sseIVSize
    let (start, last) := match br with
      | none => (0, (obj.size : ℤ) - 1)
      | some br => (br.start, br.last)
    if iv.fails ∨ iv.bytes.length < sseIVSize then return ⟨[], true⟩
    else if start < 0 ∨ last < start ∨ last ≥ obj.size then return ⟨[], true⟩
    else
      let discard := start.toNat % 16
      let blockStart := start.toNat - discard
      let s := f.section (sseIVSize + blockStart) (last.toNat - blockStart + 1)
      let plain := Ctr.xorKeyStream (a.platform.aes a.sseKey)
        (advanceCTRIV iv.bytes (blockStart / 16)) s.bytes
      if plain.length < discard then return ⟨[], true⟩
      else return ⟨plain.drop discard, s.fails⟩

section Calls

variable {a : S3API} {c : Ctx} {ref : ObjectRef} {src : Stream} {encrypted : Bool}
  {A : (o : Call) → o.Val → Prop} {G : Call → Prop} (hq : ∀ o, Call.Idle o → G o)

include hq

/-- Writing an object, encrypted or not: one call that is not idle, and digests of the data. -/
theorem writeMaybeEncryptedObject_only (hrename : ∀ id, G (.rename id
      (storedBytes a c.iv encrypted src.bytes) (objectPath a.platform a.blob ref))) :
    (writeMaybeEncryptedObject a c ref src encrypted).Only A G fun x => ∀ m, x = some m →
      m = { digests a.platform src.bytes with
            ref, path := objectPath a.platform a.blob ref, createdAt := c.now } ∧
        ∃ id, A (.rename id (storedBytes a c.iv encrypted src.bytes)
          (objectPath a.platform a.blob ref)) true := by
  cases encrypted with
  | false => exact writeObject_only hq hrename
  | true =>
    refine only_ite nofun fun _ => only_ite nofun fun _ => ?_
    refine (writeObject_only hq hrename).bind fun x hx => ?_
    rcases x with _ | base
    · intro m hm
      cases hm
    · obtain ⟨rfl, hplaced⟩ := hx base rfl
      exact fun m hm => ⟨(Option.some.inj hm).symm, hplaced⟩

theorem readMaybeEncryptedObject_only (obj : ObjectVersion) (br : Option ByteRange) :
    (readMaybeEncryptedObject a obj br).Only A G fun _ => True := by
  refine only_ite (fun _ => readObject_only hq _ _) fun _ => only_unless fun _ => ?_
  simp only [only_bind, only_ask]
  refine ⟨hq _ trivial, fun v _ => ?_⟩
  rcases v with _ | f
  · trivial
  · dsimp only
    split_ifs <;> trivial

end Calls

/-- What a file reads as under a row. -/
def content (a : S3API) (obj : ObjectVersion) (file : Bytes) : Bytes :=
  if objectUsesSSE obj then
    Ctr.xorKeyStream (a.platform.aes a.sseKey) (file.take sseIVSize)
      ((file.drop sseIVSize).take obj.size)
  else file

/-- **What is written is what is read.** -/
theorem content_storedBytes {a : S3API} {obj : ObjectVersion} {iv data : Bytes}
    (hiv : iv.length = sseIVSize) (hsize : obj.size = data.length) :
    content a obj (storedBytes a iv (objectUsesSSE obj) data) = data := by
  unfold content storedBytes
  cases objectUsesSSE obj with
  | false => rfl
  | true =>
    rw [if_pos rfl, if_pos rfl, ← hiv, List.take_left, List.drop_left, List.take_of_length_le]
    · exact Ctr.xorKeyStream_xorKeyStream _ _ _
    · simp [hsize]

end S000
