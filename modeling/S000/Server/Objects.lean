import S000.Server.AwsChunked
import S000.Server.Sse

/-!
# Server/Objects — the object handlers

The handlers of `internal/server/s3_api.go` that write, read and delete objects, as programs over the
two stores.  The three handlers that write an object (the third is in `Server/Multipart`) have the same
end: a row is put, and the blob is deleted again if that fails (`insertVersion`); what goes before, the
`stage` of the handler, writes the blob and says what the row is to be.

Notifications and replication follow a reply and change neither store; they are left out.
-/

namespace S000

open Strings Metadata Blob

def blobRef (v : ObjectVersion) : ObjectRef := ⟨v.bucket, v.key, v.versionID⟩

/-! ## Locks -/

/-- The check before a version is overwritten or deleted: the version is there and locked.  A failed
read counts as a version that is not locked. -/
def versionLocked (c : Ctx) (bucket key versionID : Bytes) : Act Bool := do
  match ← ask (.getObjectVersion bucket key versionID) with
  | .error _ => return false
  | .ok existing => return objectLocked existing c.now

/-! ## Writing -/

def writtenVersionID (c : Ctx) (b : Bucket) : Bytes :=
  if b.versioningStatus = str "Enabled" then newVersionID c 0 else nullVersion

/-- The check before a write: the version it replaces is locked. -/
def overwriteLocked (c : Ctx) (bucket key versionID : Bytes) : Act Bool :=
  if versionID = nullVersion then versionLocked c bucket key nullVersion else pure false

def objectRow (m : ObjectMeta) (eTag : Bytes) (metadata : StrMap) : ObjectVersion where
  bucket := m.ref.bucket
  key := m.ref.key
  versionID := m.ref.versionID
  size := m.size
  eTag := eTag
  checksumSHA256 := m.sha256B64
  checksumSHA1 := m.sha1B64
  checksumCRC32 := m.crc32B64
  checksumCRC32C := m.crc32cB64
  storagePath := m.path
  metadata := metadata
  createdAt := m.createdAt

/-- The end of a write: the row is put, or the blob is deleted. -/
def insertVersion (a : S3API) (row : ObjectVersion) (failure : Reply) (success : Act Reply) :
    Act Reply := do
  match ← ask (.putObjectVersion row) with
  | .error _ =>
    let _ ← deleteObject a.platform a.blob (blobRef row)
    return failure
  | .ok _ => success

/-- The digests a `PUT` declares: the reply where one does not match. -/
def checkDigests (r : Request) (bucket key : Bytes) (m : ObjectMeta) : Option Reply :=
  let md5Header := r.header.get (str "Content-MD5")
  let failed (code message : String) := some (objectError bucket key 400 code message)
  match (if md5Header = [] then none else some (Base64.stdDecode md5Header)) with
  | some none => failed "InvalidDigest" "The Content-MD5 you specified is invalid."
  | some (some expected) =>
    if expected ≠ (Hex.decode m.md5Hex).getD [] then
      failed "BadDigest" "The Content-MD5 you specified did not match what we received."
    else validateChecksumHeaders r m.toDigests
  | none => validateChecksumHeaders r m.toDigests

/-- `handlePutObject` up to its row. -/
def stagePut (a : S3API) (c : Ctx) (r : Request) (bucket key : Bytes) (body : Stream) :
    Act (Except Reply ObjectVersion) := do
  match ← ask (.getBucket bucket) with
  | .error _ => return .error (noSuchBucket bucket)
  | .ok b =>
    let versionID := writtenVersionID c b
    if ← overwriteLocked c bucket key versionID then return .error (objectLockedError r)
    else match validateSSEHeaders a r bucket key with
    | .error e => return .error e
    | .ok encrypted =>
      let ref : ObjectRef := ⟨bucket, key, versionID⟩
      match ← writeMaybeEncryptedObject a c ref (requestObjectBody r body) encrypted with
      | none => return .error (internalError bucket key "Object write failed.")
      | some m => match checkDigests r bucket key m with
        | some e =>
          let _ ← deleteObject a.platform a.blob ref
          return .error e
        | none =>
          return .ok (objectRow m m.md5Hex
            (markSSEMetadata (collectUserMetadata a.platform r.header) encrypted))

/-- `handlePutObject`. -/
def handlePutObject (a : S3API) (c : Ctx) (r : Request) (bucket key : Bytes) (body : Stream) :
    Act Reply := runHeavy a bucket key do
  match ← stagePut a c r bucket key body with
  | .error e => return e
  | .ok row =>
    insertVersion a row (internalError bucket key "Metadata write failed.")
      (return .answer 200 ((str "ETag", quotedETag row.eTag) :: setSSEHeader row ++
        setObjectChecksumHeaders row))

/-- `handleCopyObject` up to its row.  The source is read into a pipe that is closed without its error,
so a source that breaks off is stored as far as it went before the error is looked at. -/
def stageCopy (a : S3API) (c : Ctx) (r : Request) (bucket key : Bytes) :
    Act (Except Reply ObjectVersion) := do
  match cut 0x2F (trimPrefix (r.header.get (str "X-Amz-Copy-Source")) (str "/")) with
  | none => return .error (objectError bucket key 400 "InvalidRequest" "Invalid copy source.")
  | some (srcBucket, srcKey) => match ← ask (.getLatestObjectVersion srcBucket srcKey) with
    | .error _ => return .error (noSuchKey srcBucket srcKey)
    | .ok srcObj =>
      if srcObj.deleteMarker then return .error (noSuchKey srcBucket srcKey)
      else match objectConditionsPass a.platform r srcObj (str "x-amz-copy-source-") with
      | some e => return .error e
      | none => match validateSSEHeaders a r bucket key with
        | .error e => return .error e
        | .ok encrypted =>
          let source ← readMaybeEncryptedObject a srcObj none
          match ← ask (.getBucket bucket) with
          | .error _ => return .error (noSuchBucket bucket)
          | .ok b =>
            let versionID := writtenVersionID c b
            if ← overwriteLocked c bucket key versionID then return .error (objectLockedError r)
            else
              let ref : ObjectRef := ⟨bucket, key, versionID⟩
              match ← writeMaybeEncryptedObject a c ref ⟨source.bytes, false⟩ encrypted with
              | none => return .error (internalError bucket key "Copy object failed.")
              | some m =>
                if source.fails then
                  let _ ← deleteObject a.platform a.blob ref
                  return .error (internalError bucket key "Copy source read failed.")
                else return .ok (objectRow m m.md5Hex (markSSEMetadata srcObj.metadata encrypted))

/-- `handleCopyObject`. -/
def handleCopyObject (a : S3API) (c : Ctx) (r : Request) (bucket key : Bytes) : Act Reply :=
  runHeavy a bucket key do
    match ← stageCopy a c r bucket key with
    | .error e => return e
    | .ok row =>
      insertVersion a row (internalError bucket key "Copy metadata write failed.")
        (return .answer 200 []
          (.copyResult (quotedETag row.eTag) (Date.formatRFC3339 row.createdAt)))

/-! ## Reading -/

/-- `parseRange`. -/
def parseRange (header : Bytes) (size : ℕ) : Option ByteRange :=
  if !hasPrefix header (str "bytes=") then none
  else match cut 0x2D (trimPrefix header (str "bytes=")) with
  | none => none
  | some (first, second) => match Strconv.parseInt 10 first, Strconv.parseInt 10 second with
    | some start, some last =>
      if start < 0 ∨ last < start ∨ last ≥ size then none else some ⟨start, last⟩
    | _, _ => none

/-- `retentionHeaders`. -/
def retentionHeaders (obj : ObjectVersion) : List (Bytes × Bytes) :=
  [(str "x-amz-object-lock-mode", trimSpace (obj.metadata.at lockRetentionModeKey)),
    (str "x-amz-object-lock-retain-until-date",
      trimSpace (obj.metadata.at lockRetentionRetainUntilKey)),
    (str "x-amz-object-lock-legal-hold", trimSpace (obj.metadata.at lockLegalHoldKey))].filter
      fun h => h.2 ≠ []

def objectHeaders (P : Platform) (obj : ObjectVersion) : List (Bytes × Bytes) :=
  (str "ETag", quotedETag obj.eTag) :: setObjectChecksumHeaders obj ++ setSSEHeader obj ++
    retentionHeaders obj ++ [(str "Last-Modified", P.formatHTTPTime obj.createdAt)] ++
    obj.metadata.entries.filterMap fun e =>
      if hasPrefix e.1 (str "__s000_") then none else some (str "x-amz-meta-" ++ e.1, e.2)

/-- `handleGetObject`.  The status is sent before the data is read: an error while reading cuts the
body short. -/
def handleGetObject (a : S3API) (r : Request) (bucket key : Bytes) (headOnly : Bool) :
    Act Reply := do
  match ← ask (.getObjectVersion bucket key (r.query.get (str "versionId"))) with
  | .error _ => return noSuchKey bucket key
  | .ok obj =>
    if obj.deleteMarker then return noSuchKey bucket key
    else match objectConditionsPass a.platform r obj [] with
    | some reply => return reply
    | none =>
      let header := objectHeaders a.platform obj
      let rangeHeader := r.header.get (str "Range")
      if headOnly then return .answer 200 header
      else if rangeHeader = [] then
        let s ← readMaybeEncryptedObject a obj none
        return .answer 200 header (.object s.bytes)
      else match parseRange rangeHeader obj.size with
      | none =>
        return objectError bucket key 416 "InvalidRange" "The requested range is not satisfiable."
      | some br =>
        let s ← readMaybeEncryptedObject a obj (some br)
        return .answer 206 header (.object s.bytes)

/-! ## Deleting -/

/-- The blobs of deleted rows are deleted, whether that succeeds or not. -/
def deleteBlobs (a : S3API) : List ObjectVersion → Act Unit
  | [] => pure ()
  | v :: vs => do
    let _ ← deleteObject a.platform a.blob (blobRef v)
    deleteBlobs a vs

/-- `handleDeleteObject`. -/
def handleDeleteObject (a : S3API) (c : Ctx) (r : Request) (bucket key : Bytes) : Act Reply := do
  let audit (outcome reason : String) := emitAudit a r "object.delete" outcome bucket key reason
  match ← ask (.getBucket bucket) with
  | .error _ =>
    audit "deny" "NoSuchBucket"
    return noSuchBucket bucket
  | .ok b =>
    let versionID := r.query.get (str "versionId")
    if versionID ≠ [] then
      if ← versionLocked c bucket key versionID then
        audit "deny" "ObjectLocked"
        return objectLockedError r
      else match ← ask (.deleteObjectVersion bucket key versionID) with
      | .error .notFound =>
        audit "allow" ""
        return .answer 204
      | .error _ =>
        audit "error" "InternalError"
        return internalError bucket key "Delete object version failed."
      | .ok removed =>
        if !removed.deleteMarker then
          let _ ← deleteObject a.platform a.blob (blobRef removed)
          audit "allow" ""
          return .answer 204
        else
          audit "allow" ""
          return .answer 204
    else if b.versioningStatus = str "Enabled" then
      let _ ← ask (.putObjectVersion
        (MemoryState.deleteMarker bucket key (newVersionID c 0) c.now))
      audit "allow" ""
      return .answer 204
    else if ← versionLocked c bucket key [] then
      audit "deny" "ObjectLocked"
      return objectLockedError r
    else
      let (removed, err) ← ask (.deleteAllObjectVersions bucket key)
      if err ≠ none ∧ err ≠ some .notFound then
        audit "error" "InternalError"
        return internalError bucket key "Delete object failed."
      else
        deleteBlobs a removed
        audit "allow" ""
        return .answer 204

structure DeleteEntry where
  key : Bytes
  versionID : Bytes := []
deriving DecidableEq

structure DeleteDocument where
  quiet : Bool := false
  objects : List DeleteEntry

/-- One round of the loop of `handleDeleteObjects`: the error it adds, if any. -/
def deleteEntry (a : S3API) (c : Ctx) (bucket : Bytes) (b : Bucket) (i : ℕ) (e : DeleteEntry) :
    Act (Option DeleteError) := do
  let key := trimSpace e.key
  let protected_ : DeleteError :=
    ⟨key, "AccessDenied", "Object is protected by object lock retention or legal hold."⟩
  let finish (err : Option Error) : Option DeleteError :=
    if err ≠ none ∧ err ≠ some .notFound then
      some ⟨key, "InternalError", "Delete object failed."⟩ else none
  let enabled := b.versioningStatus = str "Enabled"
  if key = [] then return some ⟨[], "InvalidRequest", "Object key is required."⟩
  else if enabled ∧ e.versionID = [] then
    match ← ask (.putObjectVersion (MemoryState.deleteMarker bucket key (newVersionID c i) c.now)) with
    | .error err => return finish (some err)
    | .ok _ => return finish none
  else if ← versionLocked c bucket key e.versionID then return some protected_
  else
    let (removed, err) ← ask (.deleteAllObjectVersions bucket key)
    deleteBlobs a removed
    return finish err

/-- The loop of `handleDeleteObjects` from round `i` on. -/
def deleteEntries (a : S3API) (c : Ctx) (bucket : Bytes) (b : Bucket) (quiet : Bool) :
    ℕ → List DeleteEntry → Act (List (Bytes × Bytes) × List DeleteError)
  | _, [] => return ([], [])
  | i, e :: es => do
    let err ← deleteEntry a c bucket b i e
    let (deleted, errors) ← deleteEntries a c bucket b quiet (i + 1) es
    match err with
    | some err => return (deleted, err :: errors)
    | none => return (if quiet then deleted else (trimSpace e.key, e.versionID) :: deleted, errors)

/-- `handleDeleteObjects`; the body is given as the XML decoder returns it. -/
def handleDeleteObjects (a : S3API) (c : Ctx) (bucket : Bytes) (body : Option DeleteDocument) :
    Act Reply := do
  match ← ask (.getBucket bucket) with
  | .error _ => return noSuchBucket bucket
  | .ok b => match body with
    | none => return bucketError bucket 400 "MalformedXML" "The XML you provided was not well-formed."
    | some doc =>
      let (deleted, errors) ← deleteEntries a c bucket b doc.quiet 0 doc.objects
      return .answer 200 [] (.deleteResult deleted errors)

/-! ## Retention and legal hold -/

/-- The end of `handleObjectRetention` and `handleObjectLegalHold` on `PUT`; `change` says what becomes
of the metadata, or which reply refuses the document. -/
def updateLock (r : Request) (bucket key : Bytes) (failure : String)
    (change : ObjectVersion → Except Reply StrMap) : Act Reply := do
  let versionID := r.query.get (str "versionId")
  match ← ask (.getObjectVersion bucket key versionID) with
  | .error _ => return noSuchKey bucket key
  | .ok obj =>
    if obj.deleteMarker then return noSuchKey bucket key
    else
      let versionID := if versionID = [] then obj.versionID else versionID
      match change obj with
      | .error e => return e
      | .ok metadata => match ← ask (.updateObjectMetadata bucket key versionID metadata) with
        | .error _ => return internalError bucket key failure
        | .ok _ => return .answer 200

/-- `handleObjectRetention` on `PUT`; the body, a mode and a date, is given as the XML decoder returns
it. -/
def handlePutRetention (a : S3API) (c : Ctx) (r : Request) (bucket key : Bytes)
    (body : Option (Bytes × Bytes)) : Act Reply :=
  updateLock r bucket key "Put object retention failed." fun obj =>
    match body with
    | none => .error (objectError bucket key 400 "MalformedXML"
        "The XML you provided was not well-formed.")
    | some (mode, retainUntilDate) =>
      let mode := a.platform.toUpper (trimSpace mode)
      if mode ≠ str "GOVERNANCE" ∧ mode ≠ str "COMPLIANCE" then
        .error (objectError bucket key 400 "InvalidRequest"
          "Retention mode must be GOVERNANCE or COMPLIANCE.")
      else match (Date.parseRFC3339 (trimSpace retainUntilDate)).filter (c.now < ·) with
      | none => .error (objectError bucket key 400 "InvalidRequest"
          "RetainUntilDate must be a future RFC3339 timestamp.")
      | some retainUntil => .ok (putRetentionMetadata obj mode retainUntil)

/-- `handleObjectLegalHold` on `PUT`; the body, a status, is given as the XML decoder returns it. -/
def handlePutLegalHold (a : S3API) (r : Request) (bucket key : Bytes) (body : Option Bytes) :
    Act Reply :=
  updateLock r bucket key "Put object legal hold failed." fun obj =>
    match body with
    | none => .error (objectError bucket key 400 "MalformedXML"
        "The XML you provided was not well-formed.")
    | some status =>
      let status := a.platform.toUpper (trimSpace status)
      if status ≠ str "ON" ∧ status ≠ str "OFF" then
        .error (objectError bucket key 400 "InvalidRequest"
          "Legal hold status must be ON or OFF.")
      else .ok (putLegalHoldMetadata obj status)

end S000
