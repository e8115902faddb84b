import S000.Blob.Store
import S000.Server.ObjectLock

/-!
# Server/Api — what the object handlers have in common

The configuration of `s3API`, the replies, and the functions of `internal/server/s3_api.go` that the
object handlers share: conditions, checksums, user metadata, ids and entity tags.  A reply is an error
document or an answer with headers; the XML documents of answers are kept as the values they are
rendered from.
-/

namespace S000

open Strings Metadata

/-- The fields of `s3API` the object handlers read. -/
structure S3API where
  platform : Platform
  blob : Blob.Store
  sseKey : Bytes := []
  region : Bytes := []
  /-- There is a limiter for heavy operations. -/
  heavy : Bool := false
  auditEnabled : Bool := false

theorem length_zeroIV : (.replicate 16 0 : Bytes).length = 16 := rfl

/-- What a request takes from its environment: the time, and random bytes for ids and for the
initialisation vector. -/
structure Ctx where
  now : Time
  random : ℕ → Bytes := fun _ => []
  iv : Bytes := .replicate 16 0
  iv_length : iv.length = 16 := by exact length_zeroIV

/-! ## Replies -/

/-- `s3ErrorSpec`. -/
structure S3Error where
  statusCode : ℕ
  code : String
  message : String
  resource : Bytes
deriving DecidableEq

/-- An entry of the `Error` list of a multi-object deletion. -/
structure DeleteError where
  key : Bytes := []
  code : String
  message : String
deriving DecidableEq

/-- The body of an answer. -/
inductive Document
  | empty
  | object (content : Bytes)
  | copyResult (eTag : Bytes) (lastModified : Bytes)
  | initiateMultipartUploadResult (bucket key uploadID : Bytes)
  | completeMultipartUploadResult (location bucket key eTag : Bytes) (checksums : List Bytes)
  | deleteResult (deleted : List (Bytes × Bytes)) (errors : List DeleteError)
deriving DecidableEq

inductive Reply
  | error (e : S3Error)
  | answer (status : ℕ) (header : List (Bytes × Bytes) := []) (body : Document := .empty)
deriving DecidableEq

def Reply.accepted : Reply → Bool
  | answer status .. => status = 200
  | error _ => false

def bucketError (bucket : Bytes) (statusCode : ℕ) (code message : String) : Reply :=
  .error ⟨statusCode, code, message, str "/" ++ bucket⟩

def objectError (bucket key : Bytes) (statusCode : ℕ) (code message : String) : Reply :=
  .error ⟨statusCode, code, message, str "/" ++ bucket ++ str "/" ++ key⟩

def noSuchBucket (bucket : Bytes) : Reply :=
  bucketError bucket 404 "NoSuchBucket" "The specified bucket does not exist."

def noSuchKey (bucket key : Bytes) : Reply :=
  objectError bucket key 404 "NoSuchKey" "The specified key does not exist."

/-- `writeObjectLockedError`. -/
def objectLockedError (r : Request) : Reply :=
  .error ⟨403, "AccessDenied", "Object is protected by object lock retention or legal hold.",
    r.url.path⟩

def internalError (bucket key : Bytes) (message : String) : Reply :=
  objectError bucket key 500 "InternalError" message

/-! ## Ids and tags -/

/-- `newVersionID`: the `i`-th id that a request draws. -/
def newVersionID (c : Ctx) (i : ℕ) : Bytes :=
  Strconv.itoa c.now ++ str "-" ++ Hex.encode (c.random i)

theorem newVersionID_ne_null (c : Ctx) (i : ℕ) : newVersionID c i ≠ nullVersion := by
  intro h
  have hmem : 0x2D ∈ newVersionID c i := by
    simp [newVersionID, show str "-" = [0x2D] by decide]
  rw [h] at hmem
  exact absurd hmem (by decide)

theorem newVersionID_ne_nil (c : Ctx) (i : ℕ) : newVersionID c i ≠ [] := by
  simp [newVersionID, show str "-" = [0x2D] by decide]

/-- `quotedETag`. -/
def quotedETag (etag : Bytes) : Bytes :=
  if hasPrefix etag (str "\"") ∧ hasSuffix etag (str "\"") then etag
  else str "\"" ++ etag ++ str "\""

/-- `calculateMultipartETag`. -/
def calculateMultipartETag (P : Platform) (partETags : List Bytes) : Bytes :=
  let decoded := partETags.filterMap fun etag => Hex.decode (trim etag (str "\""))
  Hex.encode (P.md5 decoded.flatten) ++ str "-" ++ Strconv.itoa partETags.length

/-- `etagListMatches`. -/
def etagListMatches (value etag : Bytes) : Bool :=
  let value := trimSpace value
  value = str "*" || (split value 0x2C).any fun part => trim (trimSpace part) (str "\"") = etag

/-! ## Conditions and checksums -/

/-- `objectConditionsPass`: the reply where a condition fails. -/
def objectConditionsPass (P : Platform) (r : Request) (obj : ObjectVersion) (pre : Bytes) :
    Option Reply :=
  let failed : Reply := .error ⟨412, "PreconditionFailed",
    "At least one of the pre-conditions you specified did not hold.", r.url.path⟩
  let notModified := if pre = [] ∧ r.isRead then .answer 304 else failed
  let match_ := r.header.get (pre ++ str "if-match")
  let noneMatch := r.header.get (pre ++ str "if-none-match")
  let since := r.header.get (pre ++ str "if-modified-since")
  let unmodifiedSince := r.header.get (pre ++ str "if-unmodified-since")
  if match_ ≠ [] ∧ !etagListMatches match_ obj.eTag then some failed
  else if noneMatch ≠ [] ∧ etagListMatches noneMatch obj.eTag then some notModified
  else if since ≠ [] ∧ (P.parseHTTPTime since).any fun when_ => obj.createdAt ≤ when_ then
    some notModified
  else if unmodifiedSince ≠ [] ∧
      (P.parseHTTPTime unmodifiedSince).any fun when_ => when_ < obj.createdAt then
    some failed
  else none

/-- The checksum headers, and the digests they are compared with. -/
def checksumHeaders (d : Blob.Digests) : List (Bytes × Bytes) :=
  [(str "x-amz-checksum-crc32", d.crc32B64), (str "x-amz-checksum-crc32c", d.crc32cB64),
    (str "x-amz-checksum-sha1", d.sha1B64), (str "x-amz-checksum-sha256", d.sha256B64)]

/-- `validateChecksumHeaders`: the reply where a declared checksum does not match. -/
def validateChecksumHeaders (r : Request) (d : Blob.Digests) : Option Reply :=
  if (checksumHeaders d).any fun c =>
      let expected := trimSpace (r.header.get c.1)
      expected ≠ [] && expected ≠ c.2 then
    some (.error ⟨400, "BadDigest", "The checksum you specified did not match what we received.",
      r.url.path⟩)
  else none

/-- `setObjectChecksumHeaders`. -/
def setObjectChecksumHeaders (obj : ObjectVersion) : List (Bytes × Bytes) :=
  [(str "x-amz-checksum-crc32", obj.checksumCRC32), (str "x-amz-checksum-crc32c", obj.checksumCRC32C),
    (str "x-amz-checksum-sha1", obj.checksumSHA1),
    (str "x-amz-checksum-sha256", obj.checksumSHA256)].filter fun c => c.2 ≠ []

/-! ## Metadata -/

/-- `collectUserMetadata`. -/
def collectUserMetadata (P : Platform) (h : Header) : StrMap :=
  h.entries.foldl (fun out e =>
    let low := P.toLower e.1
    if hasPrefix low (str "x-amz-meta-") then
      out.insert (trimPrefix low (str "x-amz-meta-")) (join e.2 (str ","))
    else out) ∅

/-! ## Calls -/

/-- `runHeavy`. -/
def runHeavy (a : S3API) (bucket key : Bytes) (fn : Act Reply) : Act Reply := do
  if !a.heavy then fn
  else if !(← ask .acquire) then
    return objectError bucket key 503 "SlowDown" "Server is overloaded. Please retry shortly."
  else fn

/-- `emitAudit`. -/
def emitAudit (a : S3API) (r : Request) (action outcome : String) (bucket key : Bytes)
    (reason : String) : Act Unit :=
  if a.auditEnabled then
    ask (.audit { action, outcome, requestID := r.requestID, principal := r.principal, bucket, key
                  reason })
  else pure ()

end S000
