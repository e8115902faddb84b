import S000.Foundations.Digest
import S000.Server.Multipart

/-!
# Server/S3 — requests, runs and histories

The requests of the S3 API that create, change or read buckets and objects, and what the server does
with each: `handle` is the program of a request, `respond` runs it in a world, and `afterAll` runs a
whole history.  A step of a history is a request together with what its environment gives it: the time,
the random bytes and the faults of the two stores.
-/

namespace S000

open Strings Metadata Blob Machine

/-! ## Buckets -/

/-- `handleCreateBucket`. -/
def handleCreateBucket (a : S3API) (c : Ctx) (bucket : Bytes) : Act Reply := do
  match ← ask (.createBucket ⟨bucket, a.region, str "Suspended", c.now⟩) with
  | .error .conflict =>
    return bucketError bucket 409 "BucketAlreadyOwnedByYou"
      "Your previous request to create the named bucket succeeded and you already own it."
  | .error _ => return bucketError bucket 500 "InternalError" "Create bucket failed."
  | .ok _ => return .answer 200

/-- `handlePutBucketVersioning`. -/
def handlePutBucketVersioning (bucket : Bytes) (body : XmlBody Bytes) : Act Reply := do
  match body with
  | .unreadable => return bucketError bucket 400 "MalformedXML" "Could not read request body."
  | .malformed =>
    return bucketError bucket 400 "MalformedXML" "The XML you provided was not well-formed."
  | .document status =>
    if status ≠ str "Enabled" ∧ status ≠ str "Suspended" then
      return bucketError bucket 400 "InvalidRequest" "Unsupported versioning status."
    else match ← ask (.updateBucketVersioning bucket status) with
    | .error _ => return noSuchBucket bucket
    | .ok _ => return .answer 200

/-- `handleDeleteBucket`. -/
def handleDeleteBucket (a : S3API) (r : Request) (bucket : Bytes) : Act Reply := do
  let audit (outcome reason : String) := emitAudit a r "bucket.delete" outcome bucket [] reason
  match ← ask (.listObjects bucket) with
  | .error _ =>
    audit "deny" "NoSuchBucket"
    return noSuchBucket bucket
  | .ok objects =>
    if objects ≠ [] then
      audit "deny" "BucketNotEmpty"
      return bucketError bucket 409 "BucketNotEmpty"
        "The bucket you tried to delete is not empty."
    else match ← ask (.deleteBucket bucket) with
    | .error _ =>
      audit "error" "InternalError"
      return bucketError bucket 500 "InternalError" "Delete bucket failed."
    | .ok _ =>
      audit "allow" ""
      return .answer 204

/-! ## Requests -/

inductive S3Request
  | createBucket (bucket : Bytes)
  | putBucketVersioning (bucket : Bytes) (body : XmlBody Bytes)
  | deleteBucket (r : Request) (bucket : Bytes)
  | deleteObjects (bucket : Bytes) (body : Option DeleteDocument)
  | putObject (r : Request) (bucket key : Bytes) (body : Stream)
  | copyObject (r : Request) (bucket key : Bytes)
  | getObject (r : Request) (bucket key : Bytes)
  | headObject (r : Request) (bucket key : Bytes)
  | deleteObject (r : Request) (bucket key : Bytes)
  | putRetention (r : Request) (bucket key : Bytes) (body : Option (Bytes × Bytes))
  | putLegalHold (r : Request) (bucket key : Bytes) (body : Option Bytes)
  | createMultipartUpload (r : Request) (bucket key : Bytes)
  | uploadPart (r : Request) (bucket key uploadID : Bytes) (body : Stream)
  | completeMultipartUpload (r : Request) (bucket key uploadID : Bytes)
      (body : XmlBody (List CompletedPart))
  | abortMultipartUpload (r : Request) (bucket key uploadID : Bytes)

def S3Request.bucket : S3Request → Bytes
  | createBucket bucket | putBucketVersioning bucket _ | deleteBucket _ bucket
  | deleteObjects bucket _ | putObject _ bucket .. | copyObject _ bucket _ | getObject _ bucket _
  | headObject _ bucket _ | deleteObject _ bucket _ | putRetention _ bucket ..
  | putLegalHold _ bucket .. | createMultipartUpload _ bucket _ | uploadPart _ bucket ..
  | completeMultipartUpload _ bucket .. | abortMultipartUpload _ bucket .. => bucket

def S3Request.keys : S3Request → List Bytes
  | createBucket _ | putBucketVersioning .. | deleteBucket .. | deleteObjects _ none => []
  | deleteObjects _ (some doc) => doc.objects.map fun e => trimSpace e.key
  | putObject _ _ key _ | copyObject _ _ key | getObject _ _ key | headObject _ _ key
  | deleteObject _ _ key | putRetention _ _ key _ | putLegalHold _ _ key _
  | createMultipartUpload _ _ key | uploadPart _ _ key .. | completeMultipartUpload _ _ key ..
  | abortMultipartUpload _ _ key _ => [key]

def S3Request.uploadsPart : S3Request → Bool
  | uploadPart .. => true
  | _ => false

/-- A request encrypts what it writes: it asks for that, or the upload that it completes was created
so. -/
def S3Request.encrypts (w : World) : S3Request → Bool
  | putObject r .. | copyObject r .. => sseRequested r
  | completeMultipartUpload _ _ _ uploadID _ =>
    (w.metadata.multipart.lookup uploadID).any fun u => u.sseAlgorithm = sseAlgorithmAES256
  | _ => false

/-- The first lines of `handleObjectRequest`: there is no object without its bucket. -/
def inBucket (bucket : Bytes) (fn : Act Reply) : Act Reply := do
  match ← ask (.getBucket bucket) with
  | .error _ => return noSuchBucket bucket
  | .ok _ => fn

/-- **The program of a request.** -/
def handle (a : S3API) (c : Ctx) : S3Request → Act Reply
  | .createBucket bucket => handleCreateBucket a c bucket
  | .putBucketVersioning bucket body => handlePutBucketVersioning bucket body
  | .deleteBucket r bucket => handleDeleteBucket a r bucket
  | .deleteObjects bucket body => handleDeleteObjects a c bucket body
  | .putObject r bucket key body => inBucket bucket (handlePutObject a c r bucket key body)
  | .copyObject r bucket key => inBucket bucket (handleCopyObject a c r bucket key)
  | .getObject r bucket key => inBucket bucket (handleGetObject a r bucket key false)
  | .headObject r bucket key => inBucket bucket (handleGetObject a r bucket key true)
  | .deleteObject r bucket key => inBucket bucket (handleDeleteObject a c r bucket key)
  | .putRetention r bucket key body => inBucket bucket (handlePutRetention a c r bucket key body)
  | .putLegalHold r bucket key body => inBucket bucket (handlePutLegalHold a r bucket key body)
  | .createMultipartUpload r bucket key =>
    inBucket bucket (handleCreateMultipartUpload a c r bucket key)
  | .uploadPart r bucket key uploadID body =>
    inBucket bucket (handleUploadPart a c r bucket key uploadID body)
  | .completeMultipartUpload r bucket key uploadID body =>
    inBucket bucket (handleCompleteMultipartUpload a c r bucket key uploadID body)
  | .abortMultipartUpload r bucket key uploadID =>
    inBucket bucket (handleAbortMultipartUpload a r bucket key uploadID)

/-! ## Histories -/

/-- A request and its environment. -/
structure Step where
  request : S3Request
  ctx : Ctx
  /-- The faults of the calls, in order. -/
  faults : List Fault := []

/-- The reply to a request and the run that leads to it. -/
def respond (a : S3API) (w : World) (s : Step) : Reply × Run calls Fault World :=
  stores.exec (handle a s.ctx s.request) s.faults ⟨w, []⟩

/-- Requests that take turns on the two stores, call by call. -/
def requestPool (a : S3API) (w : World) (requests : List (Ctx × S3Request)) :
    Pool calls Fault World Reply where
  threads := requests.map fun q => handle a q.1 q.2
  world := w

def after (a : S3API) (w : World) (s : Step) : World := (respond a w s).2.world

def afterAll (a : S3API) (w : World) (history : List Step) : World := history.foldl (after a) w

variable {a : S3API} {w : World} {s : Step}

theorem fault_eq_ok (hs : s.faults = []) : ∀ e ∈ (respond a w s).2.events, e.fault = .ok := by
  intro e he
  rw [respond, hs, exec_nil] at he
  exact fault_of_mem_trace stores e (by simpa using he)

theorem reads_of_faultless (hs : s.faults = []) : ∀ e ∈ (respond a w s).2.events, ∀ b k versionID,
    e.op = .getObjectVersion b k versionID → e.fault = .ok :=
  fun e he _ _ _ _ => fault_eq_ok hs e he

/-- **A rule for requests**: an invariant `K` that the calls of a request preserve, as long as `B` allows
the events, holds at the end. -/
theorem respond_of_only {A : (o : Call) → o.Val → Prop}
    {G : Call → Prop} {Q : Reply → Prop} (B : World → Event calls Fault → Prop)
    (K : Run calls Fault World → Prop)
    (hstep : ∀ x f o, K x → G o → B x.world ⟨o, f, (step x.world f o).1⟩ →
      A o (step x.world f o).1 ∧ K (stores.advance x f o))
    (h : (handle a s.ctx s.request).Only A G Q) (hw : K ⟨w, []⟩)
    (hB : stores.Allowed B w (respond a w s).2.events) :
    Q (respond a w s).1 ∧ K (respond a w s).2 :=
  exec_of_only hstep h hw fun es hes => by
    obtain rfl : (respond a w s).2.events = es := hes
    exact hB

variable {Q : Reply → World → Prop}

/-- …and what every run of its program ensures. -/
theorem respond_of_ensures
    (h : stores.Ensures Q (handle a s.ctx s.request) w) : Q (respond a w s).1 (after a w s) :=
  exec_of_ensures h

/-- …or what the allowed ones ensure. -/
theorem respond_of_ensuresWhen {B : World → Event calls Fault → Prop}
    (h : stores.EnsuresWhen B Q (handle a s.ctx s.request) w)
    (hB : stores.Allowed B w (respond a w s).2.events) : Q (respond a w s).1 (after a w s) :=
  exec_of_ensuresWhen h fun es hes => by
    obtain rfl : (respond a w s).2.events = es := hes
    exact hB

/-- …or what all of them ensure, for a request that is known. -/
theorem respond_of_request {request : S3Request} (hs : s.request = request)
    (h : stores.EnsuresWhen (fun _ _ => True) Q (handle a s.ctx request) w) :
    Q (respond a w s).1 (after a w s) :=
  respond_of_ensuresWhen (hs ▸ h) (allowed_of_mem fun _ _ => trivial)

/-- Every step of a history has a property, in the world it starts in. -/
def Throughout (a : S3API) (C : World → Step → Prop) : World → List Step → Prop
  | _, [] => True
  | w, s :: history => C w s ∧ Throughout a C (after a w s) history

theorem Throughout.mono {C C' : World → Step → Prop} (h : ∀ w s, C w s → C' w s) :
    ∀ {history : List Step} {w : World}, Throughout a C w history → Throughout a C' w history
  | [], _, _ => trivial
  | _ :: _, _, hC => ⟨h _ _ hC.1, hC.2.mono h⟩

/-- **A rule for histories**: where every step that meets `C` keeps an invariant, and with it has the
property `P`, a history whose steps all meet `C` has `P` throughout. -/
theorem Throughout.of_step {C P : World → Step → Prop} {Inv : World → Prop}
    (hstep : ∀ w s, Inv w → C w s → P w s ∧ Inv (after a w s)) :
    ∀ {history : List Step} {w : World}, Inv w → Throughout a C w history →
      Throughout a P w history ∧ Inv (afterAll a w history)
  | [], _, hw, _ => ⟨trivial, hw⟩
  | s :: history, w, hw, hC => by
    obtain ⟨hP, hw'⟩ := hstep w s hw hC.1
    obtain ⟨hrest, hlast⟩ := of_step hstep hw' hC.2
    exact ⟨⟨hP, hrest⟩, hlast⟩

/-! ## A sample server -/

def sampleAPI : S3API where
  platform := digestPlatform
  blob := { objectsRoot := str "/data/objects", multipartRoot := str "/data/multipart" }

/-- A request as the object handlers see it; they read its query and its header. -/
def objectRequest (rawQuery : String := "") (header : List (String × String) := []) : Request where
  method := []
  url := { path := str "/b/k", rawQuery := str rawQuery }
  header := .ofList (header.map fun h => (str h.1, str h.2))

def sampleCtx (now : Time) : Ctx := { now }

end S000
