import S000.Server.S3

/-!
# Server/WebUI — the actions of the web UI

The handlers of `internal/server/web_ui.go` that create, change or delete buckets and objects, as
programs over the two stores.  An action is given by the values of its form; session, CSRF token and
method are checked before and touch neither store.  An action ends with a redirect, which is kept as
the page it goes to and the message that page is to show.
-/

namespace S000

open Strings Metadata Blob

inductive UIPage
  /-- `/app/buckets`. -/
  | buckets
  /-- `/app/buckets/` and the bucket. -/
  | bucket (bucket : Bytes)
  /-- `objectBrowserURL`. -/
  | browser (bucket pre delimiter : Bytes)
  /-- `objectDetailURL`. -/
  | detail (bucket key : Bytes)
  /-- The path a form asked to return to. -/
  | path (path : Bytes)
deriving DecidableEq

structure UIReply where
  page : UIPage
  flash : String
deriving DecidableEq

/-- The environment from the `i`-th id on. -/
def Ctx.skip (c : Ctx) (i : ℕ) : Ctx := { c with random := fun j => c.random (i + j) }

/-! ## Names -/

/-- `normalizeUIPrefix`. -/
def normalizeUIPrefix (value : Bytes) : Bytes := trimSpace value

/-- `normalizeUIDelimiter`. -/
def normalizeUIDelimiter (value : Bytes) : Bytes :=
  if trimSpace value = [] then str "/" else trimSpace value

/-- A prefix that ends in a slash, unless it is empty. -/
def folderPrefix (value : Bytes) : Bytes :=
  let p := normalizeUIPrefix value
  if p ≠ [] ∧ !hasSuffix p (str "/") then p ++ str "/" else p

/-- `normalizeFolderMarkerKey`. -/
def normalizeFolderMarkerKey (pre folder : Bytes) : Bytes :=
  let f := trimSuffix (trimPrefix (trimSpace folder) (str "/")) (str "/")
  if f = [] then [] else folderPrefix pre ++ f ++ str "/"

/-- `safeUIReturnPath`. -/
def safeUIReturnPath (value : Bytes) : Bytes :=
  let v := trimSpace value
  if !hasPrefix v (str "/") || hasPrefix v (str "//") then [] else v

/-- `joinUploadObjectKey`. -/
def joinUploadObjectKey (pre filename : Bytes) : Bytes :=
  let name := trimPrefix (trimSpace filename) (str "/")
  if name = [] then [] else folderPrefix pre ++ name

/-- `resolveUploadObjectKey`. -/
def resolveUploadObjectKey (pre explicitKey filename formKey : Bytes) (legacyUpload : Bool)
    (fileCount : ℕ) : Bytes :=
  let fileKey := trimPrefix (trimSpace explicitKey) (str "/")
  let p := normalizeUIPrefix pre
  if trimSpace formKey ≠ [] then joinUploadObjectKey pre (trimSpace formKey)
  else if legacyUpload ∧ fileCount = 1 ∧ fileKey ≠ [] then
    if p = [] ∨ hasPrefix fileKey p then fileKey else joinUploadObjectKey p fileKey
  else joinUploadObjectKey pre filename

/-! ## Buckets -/

/-- `/app/actions/create-bucket`. -/
def uiCreateBucket (c : Ctx) (bucket : Bytes) : Act UIReply := do
  let name := trimSpace bucket
  if name = [] then return ⟨.buckets, "bucket+name+is+required"⟩
  else match ← ask (.createBucket ⟨name, str "us-east-1", str "Suspended", c.now⟩) with
  | .error _ => return ⟨.buckets, "create+bucket+failed"⟩
  | .ok _ => return ⟨.buckets, "bucket+created"⟩

/-- The first loop of `/app/actions/delete-bucket`: the keys that are listed go, with all versions. -/
def uiDeleteContents (a : S3API) (bucket : Bytes) : List ObjectVersion → Act Bool
  | [] => return true
  | obj :: objects => do
    let (removed, err) ← ask (.deleteAllObjectVersions bucket obj.key)
    if err ≠ none ∧ err ≠ some .notFound then return false
    else
      deleteBlobs a removed
      uiDeleteContents a bucket objects

def uiAbortUploads : List MultipartUpload → Act Unit
  | [] => return ()
  | u :: uploads => do
    let _ ← ask (.deleteMultipartUpload u.uploadID)
    let _ ← ask (.removeUpload u.uploadID)
    uiAbortUploads uploads

/-- The end of `/app/actions/delete-bucket`. -/
def uiDropBucket (bucket : Bytes) : Act UIReply := do
  match ← ask (.deleteBucket bucket) with
  | .error _ => return ⟨.bucket bucket, "delete+bucket+failed"⟩
  | .ok _ => return ⟨.buckets, "bucket+deleted+with+contents"⟩

/-- `/app/actions/delete-bucket`. -/
def uiDeleteBucket (a : S3API) (bucket : Bytes) : Act UIReply := do
  let bucket := trimSpace bucket
  if bucket = [] then return ⟨.buckets, "bucket+name+is+required"⟩
  else match ← ask (.listObjects bucket) with
  | .error _ => return ⟨.bucket bucket, "list+objects+failed"⟩
  | .ok objects =>
    if !(← uiDeleteContents a bucket objects) then
      return ⟨.bucket bucket, "delete+bucket+contents+failed"⟩
    else
      match ← ask (.listMultipartUploads bucket []) with
      | .error _ => uiDropBucket bucket
      | .ok uploads =>
        uiAbortUploads uploads
        uiDropBucket bucket

/-- `/app/actions/update-bucket-versioning`. -/
def uiUpdateBucketVersioning (bucket versioning : Bytes) : Act UIReply := do
  let bucket := trimSpace bucket
  let status := trimSpace versioning
  if bucket = [] ∨ (status ≠ str "Enabled" ∧ status ≠ str "Suspended") then
    return ⟨.buckets, "invalid+versioning+settings"⟩
  else match ← ask (.updateBucketVersioning bucket status) with
  | .error _ => return ⟨.bucket bucket, "update+versioning+failed"⟩
  | .ok _ => return ⟨.bucket bucket, "versioning+updated"⟩

/-! ## Writing -/

/-- A write of the web UI: the message where it fails, and nothing where it succeeds. -/
def uiStore (a : S3API) (c : Ctx) (ref : ObjectRef) (src : Stream) (metadata : StrMap)
    (writeFailed : String) : Act (Option String) := do
  match ← writeObject a.platform a.blob c.now ref src with
  | none => return some writeFailed
  | some m => match ← ask (.putObjectVersion (objectRow m m.md5Hex metadata)) with
    | .error _ =>
      let _ ← deleteObject a.platform a.blob ref
      return some "metadata+write+failed"
    | .ok _ => return none

/-- A file of an upload form: its name, its content type, and what opening it gives. -/
structure UploadFile where
  filename : Bytes
  contentType : Bytes
  content : Option Stream

/-- The form of `/app/actions/upload-object`. -/
structure UploadForm where
  bucket : Bytes
  key : Bytes := []
  pre : Bytes := []
  delimiter : Bytes := []
  returnTo : Bytes := []
  /-- The values of the field `files`. -/
  files : List UploadFile := []
  /-- The value of the field `file`, which older forms have. -/
  file : Option UploadFile := none
  fileKeys : List Bytes := []

/-- The files of a form, and whether it is an older one. -/
def UploadForm.upload (form : UploadForm) : List UploadFile × Bool :=
  match form.files, form.file with
  | [], some file => ([file], true)
  | files, _ => (files, false)

/-- One file of `/app/actions/upload-object`: the message where it fails. -/
def uiUploadFile (a : S3API) (c : Ctx) (b : Bucket) (bucket fileKey : Bytes) (fh : UploadFile) :
    Act (Option String) := do
  if fileKey = [] then return some "invalid+object+key"
  else match fh.content with
  | none => return some "file+open+failed"
  | some src =>
    let versionID := writtenVersionID c b
    if ← overwriteLocked c bucket fileKey versionID then return some "object+locked"
    else
      let contentType := trimSpace fh.contentType
      let contentType := if contentType = [] then str "application/octet-stream" else contentType
      uiStore a c ⟨bucket, fileKey, versionID⟩ src
        (.insert (str "content-type") contentType ∅) "upload+failed"

/-- The loop of `/app/actions/upload-object` from file `i` on. -/
def uiUploadFiles (a : S3API) (c : Ctx) (form : UploadForm) (b : Bucket) (bucket : Bytes) :
    ℕ → List UploadFile → Act (Option String)
  | _, [] => return none
  | i, fh :: files => do
    let fileKey := resolveUploadObjectKey (normalizeUIPrefix form.pre) (trimSpace form.key)
      fh.filename (form.fileKeys.getD i []) form.upload.2 form.upload.1.length
    match ← uiUploadFile a (c.skip i) b bucket fileKey fh with
    | some failure => return some failure
    | none => uiUploadFiles a c form b bucket (i + 1) files

/-- `/app/actions/upload-object`. -/
def uiUploadObject (a : S3API) (c : Ctx) (form : UploadForm) : Act UIReply := do
  let bucket := trimSpace form.bucket
  let page := if safeUIReturnPath form.returnTo ≠ [] then .path (safeUIReturnPath form.returnTo)
    else .browser bucket (normalizeUIPrefix form.pre) (normalizeUIDelimiter form.delimiter)
  let files := form.upload.1
  if bucket = [] then return ⟨.buckets, "bucket+required"⟩
  else if files = [] then return ⟨page, "file+required"⟩
  else match ← ask (.getBucket bucket) with
  | .error _ => return ⟨.buckets, "bucket+not+found"⟩
  | .ok b => match ← uiUploadFiles a c form b bucket 0 files with
    | some failure => return ⟨page, failure⟩
    | none =>
      if files.length = 1 then return ⟨page, "upload+complete"⟩
      else return ⟨page, "uploaded+" ++ toString files.length ++ "+files"⟩

/-- `/app/actions/create-folder`.  There is no lock check. -/
def uiCreateFolder (a : S3API) (c : Ctx) (bucket pre delimiter folder : Bytes) : Act UIReply := do
  let bucket := trimSpace bucket
  let page := .browser bucket (normalizeUIPrefix pre) (normalizeUIDelimiter delimiter)
  let key := normalizeFolderMarkerKey (normalizeUIPrefix pre) (trimSpace folder)
  if bucket = [] ∨ trimSpace folder = [] then return ⟨.buckets, "bucket+and+folder+required"⟩
  else if key = [] then return ⟨page, "invalid+folder+name"⟩
  else match ← ask (.getBucket bucket) with
  | .error _ => return ⟨.buckets, "bucket+not+found"⟩
  | .ok b =>
    match ← uiStore a c ⟨bucket, key, writtenVersionID c b⟩ ⟨[], false⟩ ∅ "folder+create+failed" with
    | some failure => return ⟨page, failure⟩
    | none => return ⟨page, "folder+created"⟩

/-! ## Metadata -/

/-- `/app/actions/update-object-mimetype`: the row of the latest version is put again, with another
content type; where versioning is enabled it becomes a new version, whose row names the blob of the
old one. -/
def uiUpdateObjectMimetype (c : Ctx) (bucket key contentType : Bytes) : Act UIReply := do
  let bucket := trimSpace bucket
  let key := trimSpace key
  let contentType := trimSpace contentType
  if bucket = [] ∨ key = [] then return ⟨.buckets, "bucket+and+key+required"⟩
  else match ← ask (.getLatestObjectVersion bucket key) with
  | .error _ => return ⟨.detail bucket key, "object+not+found"⟩
  | .ok obj =>
    if obj.deleteMarker then return ⟨.detail bucket key, "object+not+found"⟩
    else
      let metadata := if contentType = [] then obj.metadata.erase (str "content-type")
        else obj.metadata.insert (str "content-type") contentType
      let versionID := match ← ask (.getBucket bucket) with
        | .error _ => obj.versionID
        | .ok b => if b.versioningStatus = str "Enabled" then newVersionID c 0 else obj.versionID
      match ← ask (.putObjectVersion { obj with versionID, metadata, createdAt := c.now }) with
      | .error _ => return ⟨.detail bucket key, "metadata+write+failed"⟩
      | .ok _ => return ⟨.detail bucket key, "mime+type+updated"⟩

/-- `handleObjectLockAction`; `change` says what becomes of the metadata, or which message refuses the
form. -/
def uiUpdateLock (bucket key : Bytes) (change : StrMap → Except String StrMap) : Act UIReply := do
  let bucket := trimSpace bucket
  let key := trimSpace key
  if bucket = [] ∨ key = [] then return ⟨.buckets, "bucket+and+key+required"⟩
  else match ← ask (.getLatestObjectVersion bucket key) with
  | .error _ => return ⟨.detail bucket key, "object+not+found"⟩
  | .ok obj =>
    if obj.deleteMarker then return ⟨.detail bucket key, "object+not+found"⟩
    else match change obj.metadata with
    | .error flash => return ⟨.detail bucket key, flash⟩
    | .ok metadata => match ← ask (.updateObjectMetadata bucket key obj.versionID metadata) with
      | .error _ => return ⟨.detail bucket key, "object+lock+update+failed"⟩
      | .ok _ => return ⟨.detail bucket key, "object+lock+updated"⟩

/-- `/app/actions/update-object-retention`. -/
def uiUpdateObjectRetention (a : S3API) (bucket key retentionMode retainUntil : Bytes) : Act UIReply :=
  uiUpdateLock bucket key fun metadata =>
    let mode := a.platform.toUpper (trimSpace retentionMode)
    let until_ := trimSpace retainUntil
    if mode = [] ∧ until_ = [] then
      .ok ((metadata.erase lockRetentionModeKey).erase lockRetentionRetainUntilKey)
    else if mode ≠ str "GOVERNANCE" ∧ mode ≠ str "COMPLIANCE" then .error "invalid+retention+mode"
    else if Date.parseRFC3339 until_ = none then .error "invalid+retain+until"
    else .ok ((metadata.insert lockRetentionModeKey mode).insert lockRetentionRetainUntilKey until_)

/-- `/app/actions/update-object-legal-hold`. -/
def uiUpdateObjectLegalHold (a : S3API) (bucket key legalHold : Bytes) : Act UIReply :=
  uiUpdateLock bucket key fun metadata =>
    let status := a.platform.toUpper (trimSpace legalHold)
    if status ≠ str "ON" ∧ status ≠ str "OFF" then .error "invalid+legal+hold"
    else .ok (metadata.insert lockLegalHoldKey status)

/-! ## Deleting -/

/-- `/app/actions/delete-object`. -/
def uiDeleteObject (a : S3API) (c : Ctx) (bucket key pre delimiter : Bytes) : Act UIReply := do
  let bucket := trimSpace bucket
  let key := trimSpace key
  let page := .browser bucket (normalizeUIPrefix pre) (normalizeUIDelimiter delimiter)
  if bucket = [] ∨ key = [] then return ⟨.buckets, "bucket+and+key+required"⟩
  else match ← ask (.getBucket bucket) with
  | .error _ => return ⟨.buckets, "bucket+not+found"⟩
  | .ok b =>
    if b.versioningStatus = str "Enabled" then
      let _ ← ask (.putObjectVersion
        (MemoryState.deleteMarker bucket key (newVersionID c 0) c.now))
      return ⟨page, "delete+marker+created"⟩
    else if ← versionLocked c bucket key [] then return ⟨.detail bucket key, "object+locked"⟩
    else
      let (removed, err) ← ask (.deleteAllObjectVersions bucket key)
      if err ≠ none ∧ err ≠ some .notFound then return ⟨page, "delete+failed"⟩
      else
        deleteBlobs a removed
        return ⟨page, "object+deleted"⟩

/-- `/app/actions/delete-folder-marker`.  There is no lock check. -/
def uiDeleteFolderMarker (a : S3API) (c : Ctx) (bucket key pre delimiter : Bytes) : Act UIReply := do
  let bucket := trimSpace bucket
  let key := trimSpace key
  let page := .browser bucket (normalizeUIPrefix pre) (normalizeUIDelimiter delimiter)
  if bucket = [] ∨ key = [] then return ⟨.buckets, "bucket+and+key+required"⟩
  else if !hasSuffix key (str "/") then return ⟨page, "folder+marker+key+must+end+with+slash"⟩
  else match ← ask (.getBucket bucket) with
  | .error _ => return ⟨.buckets, "bucket+not+found"⟩
  | .ok b =>
    if b.versioningStatus = str "Enabled" then
      let _ ← ask (.putObjectVersion
        (MemoryState.deleteMarker bucket key (newVersionID c 0) c.now))
      return ⟨page, "folder+delete+marker+created"⟩
    else
      let (removed, err) ← ask (.deleteAllObjectVersions bucket key)
      if err ≠ none ∧ err ≠ some .notFound then return ⟨page, "folder+marker+delete+failed"⟩
      else
        deleteBlobs a removed
        return ⟨page, "folder+marker+deleted"⟩

/-- The loop of `/app/actions/delete-folder` that adds markers, from the `i`-th on: whether all of them
could be added. -/
def uiMarkKeys (c : Ctx) (bucket : Bytes) : ℕ → List Bytes → Act Bool
  | _, [] => return true
  | i, key :: keys => do
    match ← ask (.putObjectVersion
      (MemoryState.deleteMarker bucket key (newVersionID c i) c.now)) with
    | .error _ => return false
    | .ok _ => uiMarkKeys c bucket (i + 1) keys

/-- The loop of `/app/actions/delete-folder` that deletes rows: the rows, or nothing where a deletion
fails. -/
def uiDeleteKeys (bucket : Bytes) : List Bytes → Act (Option (List ObjectVersion))
  | [] => return some []
  | key :: keys => do
    let (removed, err) ← ask (.deleteAllObjectVersions bucket key)
    if err ≠ none ∧ err ≠ some .notFound then return none
    else return (← uiDeleteKeys bucket keys).map (removed ++ ·)

/-- `/app/actions/delete-folder`.  There is no lock check, and the blobs are deleted after all rows. -/
def uiDeleteFolder (a : S3API) (c : Ctx) (bucket pre delimiter targetPre key : Bytes) :
    Act UIReply := do
  let bucket := trimSpace bucket
  let delimiter := normalizeUIDelimiter delimiter
  let page := .browser bucket (normalizeUIPrefix pre) delimiter
  let target := if normalizeUIPrefix targetPre = [] then normalizeUIPrefix key
    else normalizeUIPrefix targetPre
  if bucket = [] ∨ target = [] then return ⟨.buckets, "bucket+and+target+prefix+required"⟩
  else
    let target := if hasSuffix target delimiter then target else target ++ delimiter
    match ← ask (.getBucket bucket) with
    | .error _ => return ⟨.buckets, "bucket+not+found"⟩
    | .ok b => match ← ask (.listObjects bucket) with
      | .error _ => return ⟨page, "folder+delete+failed"⟩
      | .ok objects =>
        let keys := (objects.map ObjectVersion.key).filter fun k => hasPrefix k target
        if b.versioningStatus = str "Enabled" then
          if ← uiMarkKeys c bucket 0 keys then return ⟨page, "folder+delete+markers+created"⟩
          else return ⟨page, "folder+delete+failed"⟩
        else match ← uiDeleteKeys bucket keys with
        | none => return ⟨page, "folder+delete+failed"⟩
        | some removed =>
          deleteBlobs a removed
          return ⟨page, "folder+deleted"⟩

/-! ## Actions -/

/-- The actions, with the values of their forms. -/
inductive UIAction
  | createBucket (bucket : Bytes)
  | deleteBucket (bucket : Bytes)
  | updateBucketVersioning (bucket versioning : Bytes)
  | uploadObject (form : UploadForm)
  | createFolder (bucket pre delimiter folder : Bytes)
  | deleteObject (bucket key pre delimiter : Bytes)
  | updateObjectMimetype (bucket key contentType : Bytes)
  | updateObjectRetention (bucket key retentionMode retainUntil : Bytes)
  | updateObjectLegalHold (bucket key legalHold : Bytes)
  | deleteFolderMarker (bucket key pre delimiter : Bytes)
  | deleteFolder (bucket pre delimiter targetPre key : Bytes)

/-- **The program of an action.** -/
def uiHandle (a : S3API) (c : Ctx) : UIAction → Act UIReply
  | .createBucket bucket => uiCreateBucket c bucket
  | .deleteBucket bucket => uiDeleteBucket a bucket
  | .updateBucketVersioning bucket versioning => uiUpdateBucketVersioning bucket versioning
  | .uploadObject form => uiUploadObject a c form
  | .createFolder bucket pre delimiter folder => uiCreateFolder a c bucket pre delimiter folder
  | .deleteObject bucket key pre delimiter => uiDeleteObject a c bucket key pre delimiter
  | .updateObjectMimetype bucket key contentType => uiUpdateObjectMimetype c bucket key contentType
  | .updateObjectRetention bucket key mode until_ => uiUpdateObjectRetention a bucket key mode until_
  | .updateObjectLegalHold bucket key legalHold => uiUpdateObjectLegalHold a bucket key legalHold
  | .deleteFolderMarker bucket key pre delimiter => uiDeleteFolderMarker a c bucket key pre delimiter
  | .deleteFolder bucket pre delimiter targetPre key =>
    uiDeleteFolder a c bucket pre delimiter targetPre key

/-! ## The whole server -/

/-- A step of the server: a request of the S3 API, or an action of the web UI with its environment. -/
inductive ServerStep
  | s3 (s : Step)
  | ui (action : UIAction) (ctx : Ctx) (faults : List Fault)

def ServerStep.ctx : ServerStep → Ctx
  | s3 s => s.ctx
  | ui _ ctx _ => ctx

def ServerStep.run (a : S3API) (w : World) : ServerStep → Run calls Fault World
  | s3 s => (respond a w s).2
  | ui action ctx faults => (stores.exec (uiHandle a ctx action) faults ⟨w, []⟩).2

/-- **The worlds that steps lead to** from an empty server, where every step meets a condition in the
world it starts in. -/
inductive Reachable (a : S3API) (C : World → ServerStep → Prop) : World → Prop
  | empty : Reachable a C {}
  | step {w : World} {s : ServerStep} (hw : Reachable a C w) (hs : C w s) :
      Reachable a C (s.run a w).world

/-- The world that steps lead to. -/
def serverAfter (a : S3API) (w : World) (steps : List ServerStep) : World :=
  steps.foldl (fun w s => (s.run a w).world) w

/-- Steps that meet a condition, one by one. -/
theorem Reachable.steps {a : S3API} {C : World → ServerStep → Prop} :
    ∀ {steps : List ServerStep} {w : World}, Reachable a C w →
      (∀ i (h : i < steps.length), C (serverAfter a w (steps.take i)) steps[i]) →
        Reachable a C (serverAfter a w steps)
  | [], _, hw, _ => hw
  | s :: steps, w, hw, hs => by
    have hrest : Reachable a C (serverAfter a (s.run a w).world steps) :=
      .steps (hw.step (hs 0 (by simp))) fun i hi => hs (i + 1) (by simpa using hi)
    exact hrest

/-- **A rule for actions**, like the one for requests. -/
theorem ServerStep.run_of_only {a : S3API} {w : World} {action : UIAction} {c : Ctx}
    {faults : List Fault} {A : (o : Call) → o.Val → Prop} {G : Call → Prop} {Q : UIReply → Prop}
    (B : World → Event calls Fault → Prop) (K : Run calls Fault World → Prop)
    (hstep : ∀ x f o, K x → G o → B x.world ⟨o, f, (step x.world f o).1⟩ →
      A o (step x.world f o).1 ∧ K (stores.advance x f o))
    (h : (uiHandle a c action).Only A G Q) (hw : K ⟨w, []⟩)
    (hB : stores.Allowed B w ((ui action c faults).run a w).events) :
    K ((ui action c faults).run a w) :=
  (Machine.exec_of_only hstep h hw fun es hes => by
    obtain rfl : ((ui action c faults).run a w).events = es := hes
    exact hB).2

end S000
