import S000.Blob.Outcomes
import S000.Server.Readable

/-!
# Server/Contents — what a read delivers

A plain `GET`, one without conditions and without a range, answers with the content of the file that
the row of the version names (`respond_getObject`), and a write stores a file with the content it was
given (`writeMaybeEncryptedObject_ensures`).  The two meet in `content_storedBytes`.
-/

namespace S000

open Strings Metadata Blob Machine

variable {a : S3API} {w : World} {c : Ctx} {ref : ObjectRef} {src : Stream} {bucket key : Bytes}
  {row : ObjectVersion} {file : Bytes} {r : Request}

/-! ## Writing -/

/-- **Writing an object**, encrypted or not. -/
theorem writeMaybeEncryptedObject_ensures (encrypted : Bool) :
    stores.Ensures (fun x w' => ∀ m, x = some m →
        m = { digests a.platform src.bytes with
              ref, path := a.path ref, createdAt := c.now } ∧
          src.fails = false ∧ w.Stored w' (a.path ref) (storedBytes a c.iv encrypted src.bytes))
      (writeMaybeEncryptedObject a c ref src encrypted) w := by
  cases encrypted with
  | false => exact writeObject_ensures
  | true =>
    refine ensures_ite stores nofun fun _ => ensures_ite stores nofun fun _ => ?_
    refine writeObject_ensures.bind fun x w' hx => ?_
    rcases x with _ | base
    · intro m hm
      cases hm
    · obtain ⟨rfl, hfails, hstored⟩ := hx base rfl
      exact fun m hm => ⟨(Option.some.inj hm).symm, hfails, hstored⟩

variable {encrypted : Bool}

theorem eval_writeMaybeEncryptedObject (hbucket : ref.bucket ≠ []) (hobject : ref.key ≠ [])
    (h : src.fails = false) (hkey : encrypted = true → a.sseKey.length = 32) :
    (stores.eval (writeMaybeEncryptedObject a c ref src encrypted) w).1 =
      some { digests a.platform src.bytes with ref, path := a.path ref, createdAt := c.now } := by
  unfold writeMaybeEncryptedObject
  cases encrypted with
  | false => exact eval_writeObject hbucket hobject h
  | true =>
    have hkeyed : a.keyed = true := by simp [S3API.keyed, hkey rfl]
    simp [hkeyed, h, eval_writeObject hbucket hobject]

/-! ## Reading -/

/-- A row and a file that belong together: an encrypted file starts with its initialisation vector, and
the key is there. -/
def Decipherable (a : S3API) (row : ObjectVersion) (file : Bytes) : Prop :=
  objectUsesSSE row = true → a.sseKey.length = 32 ∧ sseIVSize ≤ file.length

/-- **A read delivers the content.** -/
theorem bytes_readVersion (hfile : w.disk.files row.storagePath = some file)
    (hkey : Decipherable a row file) : (readVersion a w row).bytes = content a row file := by
  unfold readVersion readMaybeEncryptedObject content
  by_cases hsse : objectUsesSSE row = true
  · obtain ⟨hlen, hiv⟩ := hkey hsse
    have hvector : (file.take sseIVSize).length = sseIVSize := by simp [hiv]
    simp only [hsse, Bool.not_true, Bool.false_eq_true, if_false, if_true, hlen, ne_eq,
      not_true_eq_false, eval_bind, eval_ask, step, hfile, opening, Option.map_some,
      File.section, List.drop_zero, hvector, lt_irrefl, or_self]
    split_ifs with hrange hshort
    · -- an empty object: the range is refused, and there is nothing to deliver
      have hzero : row.size = 0 := by
        rcases hrange with h | h | h
        · exact h.elim
        all_goals omega
      rw [hzero, List.take_zero, Ctr.xorKeyStream_nil]
      rfl
    · simp at hshort
    · have hlast : row.size - 1 + 1 = row.size := by
        have : ¬ ((row.size : ℤ) - 1 < 0) := fun h => hrange (.inr (.inl h))
        omega
      simp [advanceCTRIV_eq, hlast]
  · simp only [hsse, Bool.not_false, if_true, Bool.false_eq_true, if_false, readObject,
      eval_bind, eval_ask, step, hfile, opening, Option.map_some]
    split_ifs with hrange
    · have hzero : file.length = 0 := by omega
      rw [List.length_eq_zero_iff.1 hzero]
      rfl
    · simp [File.section]

theorem objectUsesSSE_of_mark {metadata : StrMap}
    (h : row.metadata = markSSEMetadata metadata encrypted) : objectUsesSSE row = encrypted := by
  rw [objectUsesSSE, h, markSSEMetadata_at]
  cases encrypted <;> decide

/-- **What was written is delivered**: the file of a row that is marked as it was stored. -/
theorem exists_content {data : Bytes} (hmark : objectUsesSSE row = encrypted)
    (hsize : row.size = data.length) (hkey : encrypted = true → a.sseKey.length = 32)
    (hfile : w.disk.files row.storagePath = some (storedBytes a c.iv encrypted data)) :
    ∃ file, w.disk.files row.storagePath = some file ∧ Decipherable a row file ∧
      content a row file = data := by
  subst hmark
  refine ⟨_, hfile, fun hsse => ⟨hkey hsse, ?_⟩, content_storedBytes c.iv_length hsize⟩
  rw [storedBytes, if_pos hsse, List.length_append, c.iv_length]
  exact Nat.le_add_right 16 _

/-- A request without conditions and without a range. -/
structure Request.Unconditional (r : Request) : Prop where
  ifMatch : r.header.get (str "if-match") = []
  ifNoneMatch : r.header.get (str "if-none-match") = []
  ifModifiedSince : r.header.get (str "if-modified-since") = []
  ifUnmodifiedSince : r.header.get (str "if-unmodified-since") = []
  range : r.header.get (str "Range") = []

theorem Request.Unconditional.conditionsPass (h : r.Unconditional) :
    objectConditionsPass a.platform r row [] = none := by
  simp [objectConditionsPass, h.ifMatch, h.ifNoneMatch, h.ifModifiedSince, h.ifUnmodifiedSince]

def Reply.content? : Reply → Option Bytes
  | answer _ _ (.object content) => some content
  | _ => none

/-- The reply to a `GET` when nothing goes wrong. -/
def getReply (a : S3API) (w : World) (r : Request) (bucket key : Bytes) : Reply :=
  (stores.eval (inBucket bucket (handleGetObject a r bucket key false)) w).1

/-- The version that a `GET` asks for. -/
def requested (w : World) (r : Request) (bucket key : Bytes) : Except Error ObjectVersion :=
  w.metadata.getObjectVersion bucket key (r.query.get (str "versionId"))

theorem getReply_eq (hb : bucket ∈ w.metadata.buckets) :
    getReply a w r bucket key = (stores.eval (handleGetObject a r bucket key false) w).1 := by
  obtain ⟨b, hlookup⟩ := Option.isSome_iff_exists.1 (AList.lookup_isSome.2 hb)
  simp [getReply, inBucket, step, reading, MemoryState.getBucket, hlookup]

/-- **What a plain `GET` answers** about a version that is there. -/
theorem getReply_of_found (hr : r.Unconditional) (hb : bucket ∈ w.metadata.buckets)
    (hrow : requested w r bucket key = .ok row) (hobject : row.deleteMarker = false)
    (hfile : w.disk.files row.storagePath = some file) (hkey : Decipherable a row file) :
    getReply a w r bucket key =
      .answer 200 (objectHeaders a.platform row) (.object (content a row file)) := by
  rw [getReply_eq hb, ← bytes_readVersion hfile hkey]
  unfold requested at hrow
  simp only [handleGetObject, eval_bind, eval_ask, step, reading, hrow, hobject,
    Bool.false_eq_true, if_false, hr.conditionsPass, hr.range, if_true]
  rfl

end S000
