import S000.Server.Objects

/-!
# Server/Multipart — multipart uploads

The multipart handlers of `internal/server/s3_api.go`.  Parts are staged on disk and recorded in the
metadata store; a completed upload becomes one object, by a rename of its only part or by a copy of all
parts in order.
-/

namespace S000

open Strings Metadata Blob

/-- `maxMultipartParts`. -/
def maxMultipartParts : ℕ := 10000

/-- `minMultipartPartSize`. -/
def minMultipartPartSize : ℕ := 5 * 1024 * 1024

/-- A request body that is read as a whole and then parsed as XML. -/
inductive XmlBody (α : Type)
  | unreadable
  | malformed
  | document (a : α)

def noSuchUpload (bucket key : Bytes) : Reply :=
  objectError bucket key 404 "NoSuchUpload" "The specified multipart upload does not exist."

/-- The upload of a request: it is there, and of this bucket and key. -/
def findUpload (bucket key uploadID : Bytes) :
    Act (Option (MultipartUpload × List MultipartPart)) := do
  match ← ask (.getMultipartUpload uploadID) with
  | .error _ => return none
  | .ok (u, parts) => return if u.bucket ≠ bucket ∨ u.key ≠ key then none else some (u, parts)

/-! ## Uploading -/

/-- `handleCreateMultipartUpload`. -/
def handleCreateMultipartUpload (a : S3API) (c : Ctx) (r : Request) (bucket key : Bytes) :
    Act Reply := do
  let uploadID := newVersionID c 0
  match validateSSEHeaders a r bucket key with
  | .error e => return e
  | .ok encrypted =>
    let sseAlgorithm := if encrypted then sseAlgorithmAES256 else []
    match ← ask (.createMultipartUpload ⟨uploadID, bucket, key, sseAlgorithm, c.now⟩) with
    | .error _ => return internalError bucket key "Create multipart upload failed."
    | .ok _ =>
      if !(← createMultipartUpload uploadID) then
        let _ ← ask (.deleteMultipartUpload uploadID)
        return internalError bucket key "Create multipart upload staging failed."
      else
        let header := if encrypted then
          [(str "x-amz-server-side-encryption", sseAlgorithmAES256)] else []
        return .answer 200 header (.initiateMultipartUploadResult bucket key uploadID)

def partRow (m : MultipartPartMeta) : MultipartPart where
  uploadID := m.uploadID
  partNumber := m.partNumber
  eTag := m.md5Hex
  size := m.size
  checksumSHA256 := m.sha256B64
  checksumSHA1 := m.sha1B64
  checksumCRC32 := m.crc32B64
  checksumCRC32C := m.crc32cB64
  storagePath := m.path
  createdAt := m.createdAt

/-- The `partNumber` parameter. -/
def partNumberOf (r : Request) : Option ℤ :=
  (Strconv.parseInt 10 (r.query.get (str "partNumber"))).filter
    fun n => 0 < n ∧ n ≤ maxMultipartParts

/-- `handleUploadPart`. -/
def handleUploadPart (a : S3API) (c : Ctx) (r : Request) (bucket key uploadID : Bytes)
    (body : Stream) : Act Reply := runHeavy a bucket key do
  match partNumberOf r with
  | none =>
    return objectError bucket key 400 "InvalidArgument" "partNumber must be between 1 and 10000."
  | some partNumber => match ← findUpload bucket key uploadID with
    | none => return noSuchUpload bucket key
    | some _ =>
      let data := requestObjectBody r body
      match ← writeMultipartPart a.platform a.blob c.now uploadID partNumber data with
      | none => return internalError bucket key "Upload part failed."
      | some m => match validateChecksumHeaders r m.toDigests with
        | some e =>
          let _ ← ask (.removeUpload uploadID)
          return e
        | none => match ← ask (.upsertMultipartPart (partRow m)) with
          | .error _ =>
            let _ ← ask (.removeUpload uploadID)
            return internalError bucket key "Upload part metadata failed."
          | .ok _ =>
            return .answer 200 ((str "ETag", quotedETag m.md5Hex) ::
              (checksumHeaders m.toDigests).filter fun h => h.2 ≠ [])

/-- `handleAbortMultipartUpload`. -/
def handleAbortMultipartUpload (a : S3API) (r : Request) (bucket key uploadID : Bytes) :
    Act Reply := do
  match ← findUpload bucket key uploadID with
  | none =>
    emitAudit a r "multipart.abort" "allow" bucket key ""
    return .answer 204
  | some _ =>
    let _ ← ask (.removeUpload uploadID)
    let _ ← ask (.deleteMultipartUpload uploadID)
    emitAudit a r "multipart.abort" "allow" bucket key ""
    return .answer 204

/-! ## Completing -/

structure CompletedPart where
  partNumber : ℤ
  eTag : Bytes
deriving DecidableEq

/-- `storedByNumber[n]`. -/
def storedByNumber (parts : List MultipartPart) (n : ℤ) : Option MultipartPart :=
  parts.reverse.find? fun p => p.partNumber = n

/-- The checks of the listed parts: the reply where one fails.  `previous` is the number of the part
before. -/
def checkParts (bucket key : Bytes) (stored : ℤ → Option MultipartPart) :
    Option ℤ → List CompletedPart → Option Reply
  | _, [] => none
  | previous, p :: rest =>
    let failed (code message : String) := some (objectError bucket key 400 code message)
    if previous.any (p.partNumber ≤ ·) then
      failed "InvalidPartOrder" "The list of parts was not in ascending order."
    else match stored p.partNumber with
    | none => failed "InvalidPart" "One or more of the specified parts could not be found."
    | some s =>
      if trim p.eTag (str "\"") ≠ s.eTag then
        failed "InvalidPart" "One or more of the specified part ETags did not match."
      else if rest ≠ [] ∧ s.size < minMultipartPartSize then
        failed "EntityTooSmall"
          "Your proposed upload is smaller than the minimum allowed object size."
      else checkParts bucket key stored (some p.partNumber) rest

/-- The body of a completion: the parts it lists, or the reply that refuses it. -/
def listedParts (bucket key : Bytes) (stored : ℤ → Option MultipartPart)
    (body : XmlBody (List CompletedPart)) : Except Reply (List CompletedPart) :=
  let failed (code message : String) := .error (objectError bucket key 400 code message)
  match body with
  | .unreadable => failed "MalformedXML" "Could not read request body."
  | .malformed => failed "MalformedXML" "The XML you provided was not well-formed."
  | .document parts =>
    if parts = [] then failed "MalformedXML" "The XML you provided was not well-formed."
    else if parts.length > maxMultipartParts then
      failed "TooManyParts" "Multipart uploads cannot contain more than 10000 parts."
    else match checkParts bucket key stored none parts with
    | some e => .error e
    | none => .ok parts

/-- The digests of a stored part, as `PromoteMultipartPart` takes them. -/
def partDigests (p : MultipartPart) : Digests :=
  ⟨p.size, p.eTag, [], p.checksumSHA256, p.checksumSHA1, p.checksumCRC32, p.checksumCRC32C⟩

def assemble (a : S3API) (c : Ctx) (u : MultipartUpload) (stored : ℤ → Option MultipartPart)
    (uploadID : Bytes) (numbers : List ℤ) (ref : ObjectRef) : Act (Option ObjectMeta) :=
  if u.sseAlgorithm = sseAlgorithmAES256 then
    completeMultipartUploadWithWriter uploadID numbers fun src =>
      writeMaybeEncryptedObject a c ref src true
  else match numbers with
  | [n] => match stored n with
    | some s =>
      promoteMultipartPart a.platform a.blob uploadID s.partNumber ref (partDigests s) s.createdAt
    | none => return none
  | _ => completeMultipartUpload a.platform a.blob c.now uploadID numbers ref

/-- `handleCompleteMultipartUpload` up to its row. -/
def stageComplete (a : S3API) (c : Ctx) (r : Request) (bucket key uploadID : Bytes)
    (body : XmlBody (List CompletedPart)) : Act (Except Reply ObjectVersion) := do
  match ← findUpload bucket key uploadID with
  | none => return .error (noSuchUpload bucket key)
  | some (u, storedParts) =>
    let stored := storedByNumber storedParts
    match listedParts bucket key stored body with
    | .error e => return .error e
    | .ok parts => match ← ask (.getBucket bucket) with
      | .error _ => return .error (noSuchBucket bucket)
      | .ok b =>
        let versionID := writtenVersionID c b
        if ← overwriteLocked c bucket key versionID then return .error (objectLockedError r)
        else
          let numbers := parts.map CompletedPart.partNumber
          match ← assemble a c u stored uploadID numbers ⟨bucket, key, versionID⟩ with
          | none => return .error (internalError bucket key "Complete multipart upload failed.")
          | some m =>
            let partETags := parts.map fun p => trim p.eTag (str "\"")
            return .ok (objectRow m (calculateMultipartETag a.platform partETags)
              (markSSEMetadata ∅ (u.sseAlgorithm = sseAlgorithmAES256)))

/-- `handleCompleteMultipartUpload`. -/
def handleCompleteMultipartUpload (a : S3API) (c : Ctx) (r : Request) (bucket key uploadID : Bytes)
    (body : XmlBody (List CompletedPart)) : Act Reply := runHeavy a bucket key do
  match ← stageComplete a c r bucket key uploadID body with
  | .error e => return e
  | .ok row =>
    insertVersion a row (internalError bucket key "Complete multipart metadata write failed.") do
      let _ ← ask (.deleteMultipartUpload uploadID)
      return .answer 200 (setObjectChecksumHeaders row ++ setSSEHeader row)
        (.completeMultipartUploadResult (str "/" ++ bucket ++ str "/" ++ key) bucket key
          (quotedETag row.eTag)
          [row.checksumCRC32, row.checksumCRC32C, row.checksumSHA1, row.checksumSHA256])

end S000
