import S000.Server.Calls
import S000.Server.WebUI

/-!
# Server/Actions — what an action may call

One lemma for each action of the web UI, in the form of those of `Server/Calls`: under which
assumptions on the answers it makes which calls.
-/

namespace S000

open Strings Metadata Blob Prog List MemoryState

variable {a : S3API} {A : (o : Call) → o.Val → Prop} {G : Call → Prop} {c : Ctx}
  {bucket key pre delimiter : Bytes} {ref : ObjectRef} {src : Stream} {metadata : StrMap}

def uiRow (a : S3API) (c : Ctx) (ref : ObjectRef) (src : Stream) (metadata : StrMap) :
    ObjectVersion :=
  let m : ObjectMeta := { digests a.platform src.bytes with
    ref, path := a.path ref, createdAt := c.now }
  objectRow m m.md5Hex metadata

variable (a A G c bucket) in
/-- The calls of a write to a key, without a lock check. -/
structure FolderGuard (key : Bytes) : Prop where
  rename : ∀ b, A (.getBucket bucket) (.ok b) → ∀ id content,
    G (.rename id content (a.path ⟨bucket, key, writtenVersionID c b⟩))
  put : ∀ b, A (.getBucket bucket) (.ok b) → ∀ src metadata,
    G (.putObjectVersion (uiRow a c ⟨bucket, key, writtenVersionID c b⟩ src metadata))
  remove : ∀ b, A (.getBucket bucket) (.ok b) →
    G (.remove (a.path ⟨bucket, key, writtenVersionID c b⟩))

variable (a A G bucket) in
/-- The calls of a deletion of all versions of a key, without a lock check. -/
structure WipeGuard (key : Bytes) : Prop where
  all : G (.deleteAllObjectVersions bucket key)
  blobs : ∀ removed err, A (.deleteAllObjectVersions bucket key) (removed, err) →
    ∀ v ∈ removed, G (.remove (a.path (blobRef v)))

section

variable (hq : ∀ o, Call.Idle o → G o)

/-! ## Writing -/

include hq in
/-- **A write of the web UI.** -/
theorem uiStore_only {failure : String} (hrename : ∀ id, G (.rename id src.bytes (a.path ref)))
    (hput : ∀ id, A (.rename id src.bytes (a.path ref)) true →
      G (.putObjectVersion (uiRow a c ref src metadata)))
    (hremove : ∀ id, A (.rename id src.bytes (a.path ref)) true → G (.remove (a.path ref))) :
    (uiStore a c ref src metadata failure).Only A G fun _ => True := by
  refine (writeObject_only hq hrename).bind fun x hx => ?_
  rcases x with _ | m
  · trivial
  obtain ⟨rfl, id, hid⟩ := hx m rfl
  refine ⟨hput id hid, fun v _ => ?_⟩
  rcases v with _ | _
  · exact ⟨hremove id hid, fun _ _ => trivial⟩
  · trivial

include hq in
theorem uiUploadFile_only {b : Bucket} {fh : UploadFile} (hb : A (.getBucket bucket) (.ok b))
    (hw : WriteGuard a A G c bucket key) :
    (uiUploadFile a c b bucket key fh).Only A G fun _ => True := by
  refine only_unless fun _ => ?_
  split
  · trivial
  next src _ =>
    refine (overwriteLocked_only hq).bind fun locked hlocked => ?_
    refine only_unless fun hfalse => ?_
    have htarget := hlocked hfalse b hb rfl
    have hwritten {metadata : StrMap} {id : ℕ}
        (hid : A (.rename id src.bytes (a.path ⟨bucket, key, writtenVersionID c b⟩)) true) :
        Written a A c bucket key (uiRow a c ⟨bucket, key, writtenVersionID c b⟩ src metadata) :=
      .of_rename htarget rfl rfl hid
    exact uiStore_only hq (fun id => hw.rename _ htarget id _)
      (fun id hid => hw.put _ (hwritten hid)) fun id hid =>
        hw.remove _ htarget ⟨.rename id _ _, true, ⟨rfl, rfl⟩, hid⟩

include hq in
/-- **An upload.** -/
theorem uiUploadObject_only {form : UploadForm}
    (hw : ∀ i key, WriteGuard a A G (c.skip i) (trimSpace form.bucket) key) :
    (uiUploadObject a c form).Only A G fun _ => True := by
  -- the files, by induction on those that are left
  have hloop {b : Bucket} (hb : A (.getBucket (trimSpace form.bucket)) (.ok b)) :
      ∀ (files : List UploadFile) (i : ℕ),
        (uiUploadFiles a c form b (trimSpace form.bucket) i files).Only A G fun _ => True := by
    intro files
    induction files with
    | nil => exact fun _ => trivial
    | cons fh files ih =>
      intro i
      refine (uiUploadFile_only hq hb (hw i _)).bind fun failure _ => ?_
      rcases failure with _ | _
      · exact ih (i + 1)
      · trivial
  refine only_unless fun _ => only_unless fun _ => ?_
  refine ⟨hq _ trivial, fun v hb => ?_⟩
  rcases v with _ | b
  · trivial
  refine (hloop hb form.upload.1 0).bind fun failure _ => ?_
  rcases failure with _ | _
  · exact only_unless fun _ => trivial
  · trivial

include hq in
/-- **A new folder.** -/
theorem uiCreateFolder_only {folder : Bytes} (hw : FolderGuard a A G c (trimSpace bucket)
      (normalizeFolderMarkerKey (normalizeUIPrefix pre) (trimSpace folder))) :
    (uiCreateFolder a c bucket pre delimiter folder).Only A G fun _ => True := by
  refine only_unless fun _ => only_unless fun _ => ?_
  refine ⟨hq _ trivial, fun v hb => ?_⟩
  rcases v with _ | b
  · trivial
  refine (uiStore_only hq (fun id => hw.rename b hb id _) (fun _ _ => hw.put b hb _ _)
    fun _ _ => hw.remove b hb).bind fun failure _ => ?_
  rcases failure with _ | _ <;> trivial

/-! ## Metadata -/

include hq in
/-- **Another content type.** -/
theorem uiUpdateObjectMimetype_only {contentType : Bytes}
    (hput : ∀ obj versionID metadata,
      A (.getLatestObjectVersion (trimSpace bucket) (trimSpace key)) (.ok obj) →
      obj.deleteMarker = false →
      (versionID = obj.versionID ∨ versionID = newVersionID c 0 ∧
        ∃ b, A (.getBucket (trimSpace bucket)) (.ok b) ∧ b.versioningStatus = str "Enabled") →
      G (.putObjectVersion { obj with versionID, metadata, createdAt := c.now })) :
    (uiUpdateObjectMimetype c bucket key contentType).Only A G fun _ => True := by
  refine only_unless fun _ => ?_
  refine ⟨hq _ trivial, fun v hobj => ?_⟩
  rcases v with _ | obj
  · trivial
  refine only_unless fun hm => ?_
  refine ⟨hq _ trivial, fun v hb => ⟨hput obj _ _ hobj (by simpa using hm) ?_, fun v _ => ?_⟩⟩
  · rcases v with _ | b
    · exact .inl rfl
    dsimp only
    split_ifs with henabled
    · exact .inr ⟨rfl, b, hb, henabled⟩
    · exact .inl rfl
  · rcases v with _ | _ <;> trivial

include hq in
theorem uiUpdateLock_only {change : StrMap → Except String StrMap}
    (hupdate : ∀ versionID metadata,
      G (.updateObjectMetadata (trimSpace bucket) (trimSpace key) versionID metadata)) :
    (uiUpdateLock bucket key change).Only A G fun _ => True := by
  refine only_unless fun _ => ?_
  refine ⟨hq _ trivial, fun v _ => ?_⟩
  rcases v with _ | obj
  · trivial
  refine only_unless fun _ => ?_
  cases change obj.metadata with
  | error flash => trivial
  | ok metadata =>
    refine ⟨hupdate _ metadata, fun v _ => ?_⟩
    rcases v with _ | _ <;> trivial

/-! ## Deleting -/

section Delete

variable (hmarker : ∀ b, A (.getBucket (trimSpace bucket)) (.ok b) → b.versioningStatus = str "Enabled" →
  G (.putObjectVersion (deleteMarker (trimSpace bucket) (trimSpace key) (newVersionID c 0) c.now)))

include hq hmarker

/-- **A deletion.** -/
theorem uiDeleteObject_only
    (hall : ∀ b, A (.getBucket (trimSpace bucket)) (.ok b) → b.versioningStatus ≠ str "Enabled" →
      DeleteAllGuard a A G c (trimSpace bucket) True (trimSpace key) []) :
    (uiDeleteObject a c bucket key pre delimiter).Only A G fun _ => True := by
  refine only_unless fun _ => ?_
  refine ⟨hq _ trivial, fun v hb => ?_⟩
  rcases v with _ | b
  · trivial
  refine only_ite (fun henabled => ⟨hmarker b hb henabled, fun _ _ => trivial⟩) fun hdisabled => ?_
  have hall := hall b hb hdisabled
  refine (versionLocked_only hq).bind fun locked hlocked => ?_
  refine only_unless fun hfalse => ?_
  have hunlocked := hlocked (by simpa using hfalse)
  refine ⟨hall.all hunlocked, fun v hv => ?_⟩
  refine only_unless fun herr => ?_
  exact (deleteBlobs_only (hall.blobs hunlocked v.1 v.2 hv fun _ => by tauto)).bind fun _ _ => trivial

/-- **A folder marker goes.** -/
theorem uiDeleteFolderMarker_only
    (hall : hasSuffix (trimSpace key) (str "/") = true →
      ∀ b, A (.getBucket (trimSpace bucket)) (.ok b) → b.versioningStatus ≠ str "Enabled" →
        WipeGuard a A G (trimSpace bucket) (trimSpace key)) :
    (uiDeleteFolderMarker a c bucket key pre delimiter).Only A G fun _ => True := by
  refine only_unless fun _ => only_unless fun hsuffix => ?_
  refine ⟨hq _ trivial, fun v hb => ?_⟩
  rcases v with _ | b
  · trivial
  refine only_ite (fun henabled => ⟨hmarker b hb henabled, fun _ _ => trivial⟩) fun hdisabled => ?_
  have hall := hall (by simpa using hsuffix) b hb hdisabled
  refine ⟨hall.all, fun v hv => ?_⟩
  refine only_unless fun _ => ?_
  exact (deleteBlobs_only (hall.blobs v.1 v.2 hv)).bind fun _ _ => trivial

end Delete

theorem uiMarkKeys_only
    (hmarker : ∀ key i, G (.putObjectVersion (deleteMarker bucket key (newVersionID c i) c.now))) :
    ∀ (keys : List Bytes) (i : ℕ), (uiMarkKeys c bucket i keys).Only A G fun _ => True
  | [], _ => trivial
  | key :: keys, i => by
    refine ⟨hmarker key i, fun v _ => ?_⟩
    rcases v with _ | _
    · trivial
    · exact uiMarkKeys_only hmarker keys (i + 1)

theorem uiDeleteKeys_only : ∀ {keys : List Bytes}, (∀ key ∈ keys, WipeGuard a A G bucket key) →
    (uiDeleteKeys bucket keys).Only A G fun x => ∀ removed, x = some removed →
      ∀ v ∈ removed, G (.remove (a.path (blobRef v)))
  | [], _ => by
    rintro removed ⟨⟩ v hv
    cases hv
  | key :: keys, hall => by
    have hkey := hall key mem_cons_self
    refine ⟨hkey.all, fun v hv => ?_⟩
    refine only_ite nofun fun _ => ?_
    refine (uiDeleteKeys_only fun k hk => hall k (mem_cons_of_mem key hk)).bind fun x hx => ?_
    rintro removed h r hr
    rcases x with _ | rest
    · cases h
    cases h
    rcases mem_append.1 hr with hr | hr
    · exact hkey.blobs v.1 v.2 hv r hr
    · exact hx rest rfl r hr

/-- The prefix of the keys that the deletion of a folder is about. -/
def uiFolderTarget (delimiter targetPre key : Bytes) : Bytes :=
  let target := if normalizeUIPrefix targetPre = [] then normalizeUIPrefix key
    else normalizeUIPrefix targetPre
  if hasSuffix target (normalizeUIDelimiter delimiter) then target
  else target ++ normalizeUIDelimiter delimiter

include hq in
/-- **A folder goes.** -/
theorem uiDeleteFolder_only {targetPre : Bytes}
    (hmarker : ∀ b, A (.getBucket (trimSpace bucket)) (.ok b) → b.versioningStatus = str "Enabled" →
      ∀ key i, G (.putObjectVersion (deleteMarker (trimSpace bucket) key (newVersionID c i) c.now)))
    (hall : ∀ b, A (.getBucket (trimSpace bucket)) (.ok b) → b.versioningStatus ≠ str "Enabled" →
      ∀ objects, A (.listObjects (trimSpace bucket)) (.ok objects) → ∀ obj ∈ objects,
        hasPrefix obj.key (uiFolderTarget delimiter targetPre key) = true →
          WipeGuard a A G (trimSpace bucket) obj.key) :
    (uiDeleteFolder a c bucket pre delimiter targetPre key).Only A G fun _ => True := by
  refine only_unless fun _ => ?_
  refine ⟨hq _ trivial, fun v hb => ?_⟩
  rcases v with _ | b
  · trivial
  refine ⟨hq _ trivial, fun v hobjects => ?_⟩
  rcases v with _ | objects
  · trivial
  refine only_ite (fun henabled => ?_) fun hdisabled => ?_
  · refine (uiMarkKeys_only (hmarker b hb henabled) _ 0).bind fun marked _ => ?_
    exact only_unless fun _ => trivial
  refine (uiDeleteKeys_only (a := a) fun key hkey => ?_).bind fun x hx => ?_
  · obtain ⟨hkey, htarget⟩ := mem_filter.1 hkey
    obtain ⟨obj, hobj, rfl⟩ := mem_map.1 hkey
    exact hall b hb hdisabled objects hobjects obj hobj htarget
  rcases x with _ | removed
  · trivial
  · exact (deleteBlobs_only (hx removed rfl)).bind fun _ _ => trivial

theorem uiDeleteContents_only : ∀ {objects : List ObjectVersion},
    (∀ obj ∈ objects, WipeGuard a A G bucket obj.key) →
      (uiDeleteContents a bucket objects).Only A G fun _ => True
  | [], _ => trivial
  | obj :: objects, hall => by
    have hkey := hall obj mem_cons_self
    refine ⟨hkey.all, fun v hv => ?_⟩
    refine only_unless fun _ => ?_
    exact (deleteBlobs_only (hkey.blobs v.1 v.2 hv)).bind fun _ _ =>
      uiDeleteContents_only fun obj hobj => hall obj (mem_cons_of_mem _ hobj)

theorem uiAbortUploads_only
    (habort : ∀ uploadID, G (.removeUpload uploadID) ∧ G (.deleteMultipartUpload uploadID)) :
    ∀ uploads, (uiAbortUploads uploads).Only A G fun _ => True
  | [] => trivial
  | u :: uploads => ⟨(habort u.uploadID).2, fun _ _ =>
      ⟨(habort u.uploadID).1, fun _ _ => uiAbortUploads_only habort uploads⟩⟩

/-! ## Buckets -/

include hq in
/-- **A bucket goes, with what is listed in it.** -/
theorem uiDeleteBucket_only
    (hall : ∀ objects, A (.listObjects (trimSpace bucket)) (.ok objects) →
      ∀ obj ∈ objects, WipeGuard a A G (trimSpace bucket) obj.key)
    (habort : ∀ uploadID, G (.removeUpload uploadID) ∧ G (.deleteMultipartUpload uploadID))
    (hdelete : G (.deleteBucket (trimSpace bucket))) :
    (uiDeleteBucket a bucket).Only A G fun _ => True := by
  have hdrop : (uiDropBucket (trimSpace bucket)).Only A G fun _ => True := by
    refine ⟨hdelete, fun v _ => ?_⟩
    rcases v with _ | _ <;> trivial
  refine only_unless fun _ => ?_
  refine ⟨hq _ trivial, fun v hobjects => ?_⟩
  rcases v with _ | objects
  · trivial
  refine (uiDeleteContents_only (hall objects hobjects)).bind fun done _ => ?_
  refine only_unless fun _ => ?_
  simp only [only_bind, only_ask]
  refine ⟨hq _ trivial, fun v _ => ?_⟩
  rcases v with _ | uploads
  · exact hdrop
  · exact (only_bind).2 ((uiAbortUploads_only habort uploads).mono fun _ _ => hdrop)

theorem uiCreateBucket_only (hcreate : ∀ b, G (.createBucket b)) :
    (uiCreateBucket c bucket).Only A G fun _ => True := by
  refine only_unless fun _ => ?_
  refine ⟨hcreate _, fun v _ => ?_⟩
  rcases v with _ | _ <;> trivial

theorem uiUpdateBucketVersioning_only {versioning : Bytes}
    (hupdate : ∀ status, G (.updateBucketVersioning (trimSpace bucket) status)) :
    (uiUpdateBucketVersioning bucket versioning).Only A G fun _ => True := by
  refine only_unless fun _ => ?_
  refine ⟨hupdate _, fun v _ => ?_⟩
  rcases v with _ | _ <;> trivial

end

end S000
