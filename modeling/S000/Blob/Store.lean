import S000.Store.Machine

/-!
# Blob/Store — the blob store

The functions of `internal/blob/store.go` as programs over the file system.  Data goes to a temporary
file, which is renamed to its final path when it is complete; up to the rename the object files are
what they were.  Where the Go function returns an error the program returns `none`.
-/

namespace S000

open Prog List Strings

namespace Blob

/-- `FsyncMode`. -/
inductive FsyncMode
  | strict | safe | fast
deriving DecidableEq

/-- `Store`, the fields the modelled functions read. -/
structure Store where
  objectsRoot : Bytes
  multipartRoot : Bytes
  fsyncMode : FsyncMode := .safe

/-- `ObjectRef`. -/
structure ObjectRef where
  bucket : Bytes
  key : Bytes
  versionID : Bytes
deriving DecidableEq

/-- The length and the digests of a sequence of bytes, as object and part records carry them. -/
structure Digests where
  size : ℕ
  md5Hex : Bytes
  sha256 : Bytes
  sha256B64 : Bytes
  sha1B64 : Bytes
  crc32B64 : Bytes
  crc32cB64 : Bytes
deriving DecidableEq

/-- What the hash functions find in the bytes they were fed. -/
def digests (P : Platform) (data : Bytes) : Digests where
  size := data.length
  md5Hex := Hex.encode (P.md5 data)
  sha256 := Hex.encode (P.sha256 data)
  sha256B64 := Base64.stdEncode (P.sha256 data)
  sha1B64 := Base64.stdEncode (P.sha1 data)
  crc32B64 := Base64.stdEncode (P.crc32 data)
  crc32cB64 := Base64.stdEncode (P.crc32c data)

/-- `ObjectMeta`. -/
structure ObjectMeta extends Digests where
  ref : ObjectRef
  path : Bytes
  createdAt : Time
deriving DecidableEq

/-- `MultipartPartMeta`. -/
structure MultipartPartMeta extends Digests where
  uploadID : Bytes
  partNumber : ℤ
  path : Bytes
  createdAt : Time
deriving DecidableEq

/-- `ByteRange`: the first and the last position. -/
structure ByteRange where
  start : ℤ
  last : ℤ
deriving DecidableEq

/-! ## Paths -/

/-- `digestHex`. -/
def digestHex (P : Platform) (s : Bytes) : Bytes := Hex.encode (P.sha256 s)

/-- The elements of the path of an object below the root. -/
def pathElements (P : Platform) (ref : ObjectRef) : List Bytes :=
  let keyDigest := digestHex P (ref.bucket ++ 0 :: ref.key)
  let version := if ref.versionID = [] then Metadata.nullVersion else ref.versionID
  let verDigest := digestHex P version
  [keyDigest.take 2, (keyDigest.drop 2).take 2, keyDigest, verDigest ++ str ".obj"]

/-- `ObjectPath`, for a clean root. -/
def objectPath (P : Platform) (s : Store) (ref : ObjectRef) : Bytes :=
  join (s.objectsRoot :: pathElements P ref) (str "/")

def ObjectRef.version (ref : ObjectRef) : Bytes :=
  if ref.versionID = [] then Metadata.nullVersion else ref.versionID

theorem ObjectRef.version_eq {ref : ObjectRef} (h : ref.versionID ≠ []) :
    ref.version = ref.versionID := if_neg h

/-- **Where the digest is one-to-one**, a path determines the version, and bucket and key up to where
the one ends and the other begins. -/
theorem objectPath_inj {P : Platform} {s : Store} (hP : Function.Injective P.sha256)
    {ref ref' : ObjectRef} (h : objectPath P s ref = objectPath P s ref') :
    ref.bucket ++ 0 :: ref.key = ref'.bucket ++ 0 :: ref'.key ∧ ref.version = ref'.version := by
  have hdigest : Function.Injective (digestHex P) := fun _ _ h => hP (Hex.encode_injective h)
  have hslash (x : Bytes) : 0x2F ∉ digestHex P x := Hex.slash_not_mem_encode _
  have htake (n m : ℕ) (x : Bytes) : 0x2F ∉ ((digestHex P x).drop n).take m := fun h =>
    hslash x (mem_of_mem_drop (mem_of_mem_take h))
  simp only [objectPath, pathElements, join,
    intercalate, intersperse, flatten_cons, flatten_nil, append_nil] at h
  have h := (cons.inj (append_cancel_left h)).2
  have h := (append_cons_inj (htake 0 2 _) (htake 0 2 _) h).2
  have h := (append_cons_inj (htake 2 2 _) (htake 2 2 _) h).2
  obtain ⟨hkey, hversion⟩ := append_cons_inj (hslash _) (hslash _) h
  exact ⟨hdigest hkey, hdigest (append_cancel_right hversion)⟩

/-- `multipartPartPath`. -/
def multipartPartPath (s : Store) (uploadID : Bytes) (partNumber : ℤ) : Bytes :=
  let n := Strconv.itoa partNumber
  join [s.multipartRoot, uploadID,
    str "part-" ++ replicate (6 - n.length) 0x30 ++ n ++ str ".bin"] (str "/")

/-! ## Writing -/

/-- `syncFile`. -/
def syncFile (s : Store) (id : ℕ) : Act Bool :=
  if s.fsyncMode = .fast then pure true else ask (.syncTemp id)

/-- `syncParentDir`. -/
def syncParentDir (s : Store) (path : Bytes) : Act Bool :=
  if s.fsyncMode ≠ .strict then pure true else ask (.syncDir path)

/-- `cleanupTemp`: the temporary file is closed and removed, whether that succeeds or not. -/
def cleanupTemp {α : Type} (id : ℕ) : Act (Option α) := do
  let _ ← ask (.closeTemp id)
  let _ ← ask (.removeTemp id)
  return none

/-- The first half of `WriteObject` and `WriteMultipartPart`: a temporary file with all of the
source, synced and closed. -/
def fillTemp (s : Store) (src : Stream) : Act (Option ℕ) := do
  match ← ask .createTemp with
  | none => return none
  | some id =>
    if !(← ask (.writeTemp id src.bytes)) || src.fails then cleanupTemp id
    else if !(← syncFile s id) then cleanupTemp id
    else if !(← ask (.closeTemp id)) then cleanupTemp id
    else return some id

/-- `WriteObject`. -/
def writeObject (P : Platform) (s : Store) (now : Time) (ref : ObjectRef) (src : Stream) :
    Act (Option ObjectMeta) := do
  if ref.bucket = [] ∨ ref.key = [] then return none
  else match ← fillTemp s src with
  | none => return none
  | some id =>
    let finalPath := objectPath P s ref
    if !(← ask (.mkdirAll finalPath)) then cleanupTemp id
    else if !(← ask (.rename id src.bytes finalPath)) then cleanupTemp id
    else if !(← syncParentDir s finalPath) then return none
    else return some { digests P src.bytes with ref, path := finalPath, createdAt := now }

/-! ## Reading -/

/-- `ReadObject`: what is written to the destination, and whether it ends with an error. -/
def readObject (path : Bytes) (br : Option ByteRange) : Act Stream := do
  match ← ask (.openFile path) with
  | none => return ⟨[], true⟩
  | some f =>
    let (start, last) := match br with
      | none => (0, (f.bytes.length : ℤ) - 1)
      | some br => (br.start, br.last)
    if start < 0 ∨ last < start ∨ last ≥ f.bytes.length then return ⟨[], true⟩
    else return f.section start.toNat (last - start + 1).toNat

/-! ## Deleting -/

/-- `DeleteObject` of one version. -/
def deleteObject (P : Platform) (s : Store) (ref : ObjectRef) : Act Bool :=
  ask (.remove (objectPath P s ref))

/-! ## Multipart uploads -/

/-- `CreateMultipartUpload`. -/
def createMultipartUpload (uploadID : Bytes) : Act Bool :=
  if trimSpace uploadID = [] then pure false else ask (.mkdirUpload uploadID)

/-- `WriteMultipartPart`. -/
def writeMultipartPart (P : Platform) (s : Store) (now : Time) (uploadID : Bytes) (partNumber : ℤ)
    (src : Stream) : Act (Option MultipartPartMeta) := do
  if partNumber ≤ 0 then return none
  else if !(← createMultipartUpload uploadID) then return none
  else match ← fillTemp s src with
  | none => return none
  | some id =>
    let finalPath := multipartPartPath s uploadID partNumber
    if !(← ask (.renamePart id src.bytes uploadID partNumber)) then cleanupTemp id
    else if !(← syncParentDir s finalPath) then return none
    else return some { digests P src.bytes with
      uploadID, partNumber, path := finalPath, createdAt := now }

/-- The readers of the parts of an upload in a row; no reader where a part cannot be opened. -/
def openParts (uploadID : Bytes) : List ℤ → Act (Option Stream)
  | [] => return some ⟨[], false⟩
  | n :: ns => do
    match ← ask (.openPart uploadID n) with
    | none => return none
    | some f => match ← openParts uploadID ns with
      | none => return none
      | some rest => return some (f.stream.append rest)

/-- `CompleteMultipartUploadWithWriter`. -/
def completeMultipartUploadWithWriter (uploadID : Bytes) (partNumbers : List ℤ)
    (write : Stream → Act (Option ObjectMeta)) : Act (Option ObjectMeta) := do
  if partNumbers = [] then return none
  else match ← openParts uploadID partNumbers with
  | none => return none
  | some src => match ← write src with
    | none => return none
    | some m => if !(← ask (.removeUpload uploadID)) then return none else return some m

/-- `CompleteMultipartUpload`. -/
def completeMultipartUpload (P : Platform) (s : Store) (now : Time) (uploadID : Bytes)
    (partNumbers : List ℤ) (dst : ObjectRef) : Act (Option ObjectMeta) :=
  completeMultipartUploadWithWriter uploadID partNumbers (writeObject P s now dst)

/-- `PromoteMultipartPart`; the creation time of a stored part is never zero. -/
def promoteMultipartPart (P : Platform) (s : Store) (uploadID : Bytes) (partNumber : ℤ)
    (dst : ObjectRef) (part : Digests) (createdAt : Time) : Act (Option ObjectMeta) := do
  let finalPath := objectPath P s dst
  if !(← ask (.mkdirAll finalPath)) then return none
  else if !(← ask (.promote uploadID partNumber finalPath)) then return none
  else if !(← syncParentDir s finalPath) then return none
  else if !(← ask (.removeUpload uploadID)) then return none
  else return some { part with ref := dst, path := finalPath, createdAt }

/-! ## What the programs call

Apart from one call that puts an object file in place, writing an object makes idle calls only, and
it returns a record only when that call succeeded. -/

section Calls

variable {P : Platform} {s : Store} {now : Time} {ref : ObjectRef} {src : Stream} {uploadID : Bytes}
  {A : (o : Call) → o.Val → Prop} {G : Call → Prop} (hq : ∀ o, Call.Idle o → G o)

include hq

theorem createMultipartUpload_only : (createMultipartUpload uploadID).Only A G fun _ => True :=
  only_unless fun _ => ⟨hq _ trivial, fun _ _ => trivial⟩

theorem syncFile_only (id : ℕ) : (syncFile s id).Only A G fun _ => True :=
  only_unless fun _ => ⟨hq _ trivial, fun _ _ => trivial⟩

theorem syncParentDir_only (path : Bytes) : (syncParentDir s path).Only A G fun _ => True :=
  only_unless fun _ => ⟨hq _ trivial, fun _ _ => trivial⟩

theorem cleanupTemp_only {α : Type} (id : ℕ) : (cleanupTemp (α := α) id).Only A G (· = none) :=
  ⟨hq _ trivial, fun _ _ => ⟨hq _ trivial, fun _ _ => rfl⟩⟩

theorem fillTemp_only : (fillTemp s src).Only A G fun x => ∀ id, x = some id → src.fails = false := by
  have hclean (id : ℕ) : (cleanupTemp id).Only A G fun x : Option ℕ =>
      ∀ id, x = some id → src.fails = false :=
    (cleanupTemp_only hq id).mono fun x hx id hid => by rw [hx] at hid; cases hid
  refine ⟨hq _ trivial, fun v _ => ?_⟩
  rcases v with _ | id
  · intro id hid
    cases hid
  refine ⟨hq _ trivial, fun written _ => ?_⟩
  refine only_ite (fun _ => hclean id) fun hsrc => ?_
  refine (syncFile_only hq id).bind fun synced _ => ?_
  refine only_ite (fun _ => hclean id) fun _ => ?_
  refine ⟨hq _ trivial, fun closed _ => ?_⟩
  refine only_ite (fun _ => hclean id) fun _ _ _ => ?_
  simp only [Bool.or_eq_true, not_or, Bool.not_eq_true] at hsrc
  exact hsrc.2

theorem fillTemp_fails (hfails : src.fails = true) : (fillTemp s src).Only A G (· = none) := by
  refine (fillTemp_only hq).mono fun x hx => ?_
  rcases x with _ | id
  · rfl
  · cases hfails.symm.trans (hx id rfl)

/-- Nothing is committed of data that ends with an error. -/
theorem writeObject_fails (hfails : src.fails = true) :
    (writeObject P s now ref src).Only A G (· = none) := by
  refine only_ite (fun _ => rfl) fun _ => (fillTemp_fails hq hfails).bind fun x hx => ?_
  subst hx
  rfl

/-- **Writing an object.** -/
theorem writeObject_only (hrename : ∀ id, G (.rename id src.bytes (objectPath P s ref))) :
    (writeObject P s now ref src).Only A G fun x => ∀ m, x = some m →
      m = { digests P src.bytes with ref, path := objectPath P s ref, createdAt := now } ∧
        ∃ id, A (.rename id src.bytes (objectPath P s ref)) true := by
  have hclean (id : ℕ) : (cleanupTemp id).Only A G fun x : Option ObjectMeta => ∀ m, x = some m →
      m = { digests P src.bytes with ref, path := objectPath P s ref, createdAt := now } ∧
        ∃ id, A (.rename id src.bytes (objectPath P s ref)) true :=
    (cleanupTemp_only hq id).mono fun x hx m hm => by rw [hx] at hm; cases hm
  unfold writeObject
  split_ifs
  · intro m hm
    cases hm
  refine (fillTemp_only hq).bind fun t _ => ?_
  rcases t with _ | id
  · intro m hm
    cases hm
  simp only [only_bind, only_ask]
  refine ⟨hq _ trivial, fun made _ => ?_⟩
  split_ifs
  · exact hclean id
  simp only [only_bind, only_ask]
  refine ⟨hrename id, fun (renamed : Bool) hrenamed => ?_⟩
  split_ifs with hr
  · exact hclean id
  refine (syncParentDir_only hq _).bind fun synced _ => ?_
  split_ifs
  · intro m hm
    cases hm
  · intro m hm
    obtain rfl : renamed = true := by simpa using hr
    exact ⟨(Option.some.inj hm).symm, id, hrenamed⟩

theorem readObject_only (path : Bytes) (br : Option ByteRange) :
    (readObject path br).Only A G fun _ => True := by
  simp only [readObject, only_bind, only_ask]
  refine ⟨hq _ trivial, fun v _ => ?_⟩
  rcases v with _ | f
  · trivial
  · dsimp only
    split_ifs <;> trivial

theorem openParts_only : ∀ ns, (openParts uploadID ns).Only A G fun _ => True
  | [] => trivial
  | n :: ns => by
    refine ⟨hq _ trivial, fun v _ => ?_⟩
    rcases v with _ | f
    · trivial
    refine (openParts_only ns).bind fun rest _ => ?_
    rcases rest with _ | rest <;> trivial

theorem completeMultipartUploadWithWriter_only {ns : List ℤ}
    {write : Stream → Act (Option ObjectMeta)} {Q : ObjectMeta → Prop}
    (hremove : G (.removeUpload uploadID))
    (hwrite : ∀ src, (write src).Only A G fun x => ∀ m, x = some m → Q m) :
    (completeMultipartUploadWithWriter uploadID ns write).Only A G fun x => ∀ m, x = some m → Q m := by
  have hnone : ∀ m, none = some m → Q m := nofun
  unfold completeMultipartUploadWithWriter
  split_ifs
  · exact hnone
  refine (openParts_only hq ns).bind fun x _ => ?_
  rcases x with _ | src
  · exact hnone
  refine (hwrite src).bind fun x hx => ?_
  rcases x with _ | m
  · exact hnone
  simp only [only_bind, only_ask]
  refine ⟨hremove, fun removed _ => ?_⟩
  split_ifs
  · exact hnone
  · exact hx

theorem promoteMultipartPart_only {n : ℤ} {part : Digests} {createdAt : Time}
    (hremove : G (.removeUpload uploadID))
    (hpromote : G (.promote uploadID n (objectPath P s ref))) :
    (promoteMultipartPart P s uploadID n ref part createdAt).Only A G fun x => ∀ m, x = some m →
      m = { part with ref, path := objectPath P s ref, createdAt } ∧
        A (.promote uploadID n (objectPath P s ref)) true := by
  simp only [promoteMultipartPart, only_bind, only_ask]
  refine ⟨hq _ trivial, fun made _ => ?_⟩
  split_ifs
  · exact fun _ h => by cases h
  simp only [only_bind, only_ask]
  refine ⟨hpromote, fun (promoted : Bool) hpromoted => ?_⟩
  split_ifs with hp
  · exact fun _ h => by cases h
  refine (syncParentDir_only hq _).bind fun synced _ => ?_
  split_ifs
  · exact fun _ h => by cases h
  simp only [only_bind, only_ask]
  refine ⟨hremove, fun removed _ => ?_⟩
  split_ifs
  · exact fun _ h => by cases h
  intro m hm
  obtain rfl : promoted = true := by simpa using hp
  exact ⟨(Option.some.inj hm).symm, hpromoted⟩

end Calls

end Blob

end S000
