import S000.Server.Routes

/-!
# Server/Dispatch — the operation a request asks for

`ServeHTTP` and the two switches behind it decide by method and query flags which operation a
request is.  The gate decides by method, key and `list-type` alone what the bucket policy is asked
about.  `executed_permitted_iff` says when the two agree: exactly when the query of the request
names none of the sub-resources the switches look for first.
-/

namespace S000

open Strings Mux

/-! ## Operations -/

/-- The sub-resources of a bucket that are read and written by flag. -/
inductive SubResource
  | website | cors | policy | publicAccessBlock | lifecycle | notification | replication | acl
  | versioning
deriving DecidableEq

inductive BucketOp
  | put (s : SubResource) | get (s : SubResource) | delete (s : SubResource)
  | deleteObjects | listObjectVersions | getLocation | listMultipartUploads | listObjectsV2
  | createBucket | deleteBucket
deriving DecidableEq

inductive ObjectOp
  | copyObject
  | getACL | putACL
  | getTagging | putTagging | deleteTagging
  | getRetention | putRetention
  | getLegalHold | putLegalHold
  | uploadPart | listParts | completeMultipartUpload | abortMultipartUpload
  | createMultipartUpload
  | putObject | getObject | headObject | deleteObject
deriving DecidableEq

inductive Operation
  | listBuckets
  | bucket (op : BucketOp) (bucket : Bytes)
  | object (op : ObjectOp) (bucket key : Bytes)
deriving DecidableEq

/-! ## The switches -/

/-- The cases of `handleBucketRequest` that a method and a query flag select, in order. -/
def bucketCases : List (Bytes × Bytes × BucketOp) :=
  let three (flag : String) (s : SubResource) : List (Bytes × Bytes × BucketOp) :=
    [(str "PUT", str flag, .put s), (str "GET", str flag, .get s), (str "DELETE", str flag, .delete s)]
  three "website" .website ++ [(str "POST", str "delete", .deleteObjects)] ++ three "cors" .cors ++
    three "policy" .policy ++ three "publicAccessBlock" .publicAccessBlock ++
    three "lifecycle" .lifecycle ++ three "notification" .notification ++
    three "replication" .replication ++
    [(str "GET", str "acl", .get .acl), (str "PUT", str "acl", .put .acl),
      (str "PUT", str "versioning", .put .versioning), (str "GET", str "versioning", .get .versioning),
      (str "GET", str "versions", .listObjectVersions), (str "GET", str "location", .getLocation),
      (str "GET", str "uploads", .listMultipartUploads)]

/-- `handleBucketRequest`; no operation where it answers that the method is not allowed. -/
def handleBucketRequest (r : Request) : Option BucketOp :=
  match bucketCases.find? fun c => r.method = c.1 && r.query.has c.2.1 with
  | some c => some c.2.2
  | none =>
    if r.method = str "GET" ∧ r.query.get (str "list-type") = str "2" then some .listObjectsV2
    else if r.method = str "PUT" then some .createBucket
    else if r.method = str "DELETE" then some .deleteBucket
    else none

/-- An operation by method, for the handlers of one sub-resource. -/
def byMethod (r : Request) (cases : List (String × ObjectOp)) : Option ObjectOp :=
  (cases.find? fun c => r.method = str c.1).map Prod.snd

/-- `handleMultipartWithUploadID`; no operation where it answers with an error. -/
def handleMultipartWithUploadID (r : Request) : Option ObjectOp :=
  if r.query.get (str "uploadId") = [] then none
  else if r.method = str "PUT" ∧ r.query.get (str "partNumber") ≠ [] then some .uploadPart
  else byMethod r [("GET", .listParts), ("POST", .completeMultipartUpload),
    ("DELETE", .abortMultipartUpload)]

/-- `handleObjectRequest`, the bucket being there; no operation where it answers that the method is
not allowed. -/
def handleObjectRequest (r : Request) : Option ObjectOp :=
  if r.method = str "PUT" ∧ r.header.get (str "X-Amz-Copy-Source") ≠ [] then some .copyObject
  else if r.query.has (str "acl") then byMethod r [("GET", .getACL), ("PUT", .putACL)]
  else if r.query.has (str "tagging") then
    byMethod r [("PUT", .putTagging), ("GET", .getTagging), ("DELETE", .deleteTagging)]
  else if r.query.has (str "retention") then
    byMethod r [("PUT", .putRetention), ("GET", .getRetention)]
  else if r.query.has (str "legal-hold") then
    byMethod r [("PUT", .putLegalHold), ("GET", .getLegalHold)]
  else if r.query.has (str "uploadId") then handleMultipartWithUploadID r
  else if r.method = str "POST" ∧ r.query.has (str "uploads") then some .createMultipartUpload
  else byMethod r [("PUT", .putObject), ("GET", .getObject), ("HEAD", .headObject),
    ("DELETE", .deleteObject)]

/-- `(*s3API).ServeHTTP`; no operation where it answers with an error before there is one. -/
def serveHTTP (opts : Options) (r : Request) : Option Operation :=
  match opts.metadata with
  | none => none
  | some store =>
    if !opts.blob then none
    else if r.url.path = str "/" ∧ r.method = str "GET" then some .listBuckets
    else match bucketAndKey r opts.domain with
      | none => none
      | some (bucket, key) =>
        if key = [] then (handleBucketRequest r).map (.bucket · bucket)
        else match store.getBucket bucket with
          | .error _ => none
          | .ok _ => (handleObjectRequest r).map (.object · bucket key)

/-- `websiteOrS3Handler`, its S3 half. -/
def websiteOrS3Handler (opts : Options) (r : Request) : Option Operation :=
  if isPublicWebsiteRequest r opts then none else serveHTTP opts r

/-- **The S3 operation a request ends in**, from the gate to the switches. -/
def executed (P : Platform) (opts : Options) (mux : List (Pattern × Route)) (now : Time)
    (inFlight : ℤ) (r : Request) : Option Operation :=
  match serve P opts mux now inFlight r with
  | .routed (.handler .root) r' => websiteOrS3Handler opts r'
  | _ => none

/-! ## The operation and the policy -/

/-- The operations a policy decides about when it is asked for an action: a read of exactly the
object, or a listing of the bucket. -/
def PolicyAction.Permits (bucket key : Bytes) : PolicyAction → Operation → Prop
  | .getObject, op => op = .object .getObject bucket key ∨ op = .object .headObject bucket key
  | .listBucket, op => op = .bucket .listObjectsV2 bucket

/-- The query flags that turn a `GET` of a bucket into another operation than a listing. -/
def bucketFlags : List Bytes :=
  [str "website", str "cors", str "policy", str "publicAccessBlock", str "lifecycle",
    str "notification", str "replication", str "acl", str "versioning", str "versions",
    str "location", str "uploads"]

/-- The query flags that turn a `GET` of an object into another operation than a read. -/
def objectFlags : List Bytes :=
  [str "acl", str "tagging", str "retention", str "legal-hold", str "uploadId"]

/-- **The switches see the request as the policy does**: for an object no flag turns its `GET` into
something else; for a bucket none does, and the path is not the one of the list of buckets. -/
def PolicyAction.Agrees (r : Request) : PolicyAction → Prop
  | .getObject => r.method = str "GET" → ∀ f ∈ objectFlags, r.query.has f = false
  | .listBucket => r.url.path ≠ str "/" ∧ ∀ f ∈ bucketFlags, r.query.has f = false

variable {P : Platform} {opts : Options} {mux : List (Pattern × Route)} {now : Time} {inFlight : ℤ}
  {r : Request} {bucket key resource : Bytes} {action : PolicyAction}

/-! ### What the policy was asked -/

/-- A request the policy admits addresses a bucket, and the policy was asked about an action. -/
theorem target_of_allows (h : anonymousPolicyAllows r opts = true) :
    ∃ bucket key action resource, bucketAndKey r opts.domain = some (bucket, key) ∧
      anonymousPolicyTarget r bucket key = some (action, resource) := by
  cases hm : opts.metadata with
  | none => simp [anonymousPolicyAllows, hm] at h
  | some store =>
    cases hbk : bucketAndKey r opts.domain with
    | none => simp [anonymousPolicyAllows, hm, hbk] at h
    | some bk =>
      cases ht : anonymousPolicyTarget r bk.1 bk.2 with
      | none => simp [anonymousPolicyAllows, hm, hbk, ht] at h
      | some t => exact ⟨bk.1, bk.2, t.1, t.2, rfl, ht⟩

theorem getObject_of_target (h : anonymousPolicyTarget r bucket key = some (.getObject, resource)) :
    key ≠ [] ∧ (r.method = str "GET" ∨ r.method = str "HEAD") := by
  unfold anonymousPolicyTarget at h
  split_ifs at h with hkey hlist hread
  · cases h
  · exact ⟨hkey, or_iff_not_imp_left.2 (by simpa [Request.isRead] using hread)⟩

/-- Asked for a listing: there is no key, and the request is a `GET` of the second list type. -/
theorem listBucket_of_target (h : anonymousPolicyTarget r bucket key = some (.listBucket, resource)) :
    key = [] ∧ r.method = str "GET" ∧ r.query.get (str "list-type") = str "2" := by
  unfold anonymousPolicyTarget at h
  split_ifs at h with hkey hlist hread
  · exact ⟨hkey, hlist⟩
  · cases h

theorem key_eq_nil_of_root_path (hpath : r.url.path = str "/")
    (h : bucketAndKey r opts.domain = some (bucket, key)) : key = [] := by
  cases hv : parseVirtualHostStyle r opts.domain with
  | none =>
    rw [bucketAndKey, hv, hpath] at h
    cases h
  | some bk =>
    rw [bucketAndKey, hv] at h
    cases h
    simp only [parseVirtualHostStyle, hpath] at hv
    split_ifs at hv
    cases hv
    rfl

/-! ### What the switches make of it -/

/-- A `GET` of an object is a read of it unless a flag says otherwise. -/
theorem handleObjectRequest_get (h : r.method = str "GET") :
    (handleObjectRequest r = some .getObject ∨ handleObjectRequest r = some .headObject) ↔
      ∀ f ∈ objectFlags, r.query.has f = false := by
  simp only [objectFlags, List.forall_mem_cons, List.not_mem_nil, false_implies, implies_true, and_true]
  cases hacl : r.query.has (str "acl") <;> cases htag : r.query.has (str "tagging") <;>
    cases hret : r.query.has (str "retention") <;>
    cases hhold : r.query.has (str "legal-hold") <;> cases hup : r.query.has (str "uploadId") <;>
    simp +decide [handleObjectRequest, handleMultipartWithUploadID, byMethod, *]

/-- A `HEAD` of an object is a read of its headers or no operation at all. -/
theorem handleObjectRequest_head (h : r.method = str "HEAD") {op : ObjectOp}
    (hop : handleObjectRequest r = some op) : op = .headObject := by
  have hput : ¬ (str "HEAD" = str "PUT") := by decide
  have hpost : ¬ (str "HEAD" = str "POST") := by decide
  simp only [handleObjectRequest, handleMultipartWithUploadID, h, hput, hpost, false_and,
    if_false] at hop
  split_ifs at hop <;> simp +decide [byMethod, h] at hop
  exact hop.symm

/-- A `GET` of a bucket that asks for a listing is one unless a flag says otherwise. -/
theorem handleBucketRequest_list (h : r.method = str "GET")
    (hlist : r.query.get (str "list-type") = str "2") :
    handleBucketRequest r = some .listObjectsV2 ↔ ∀ f ∈ bucketFlags, r.query.has f = false := by
  have hflags : (bucketCases.find? fun c => r.method = c.1 && r.query.has c.2.1) = none ↔
      ∀ f ∈ bucketFlags, r.query.has f = false := by
    rw [List.find?_eq_none]
    have hget : ∀ c ∈ bucketCases, str "GET" = c.1 → c.2.1 ∈ bucketFlags := by decide
    have hall : ∀ f ∈ bucketFlags, ∃ c ∈ bucketCases, str "GET" = c.1 ∧ c.2.1 = f := by decide
    constructor
    · intro hno f hf
      obtain ⟨c, hc, hm, rfl⟩ := hall f hf
      simpa [h, hm] using hno c hc
    · intro hno c hc hcase
      simp only [h, Bool.and_eq_true, decide_eq_true_eq] at hcase
      exact Bool.noConfusion (hcase.2.symm.trans (hno _ (hget c hc hcase.1)))
  rw [← hflags]
  cases hf : bucketCases.find? fun c => r.method = c.1 && r.query.has c.2.1 with
  | none =>
    rw [handleBucketRequest, hf]
    simp [h, hlist]
  | some c =>
    have hne : ∀ c ∈ bucketCases, c.2.2 ≠ .listObjectsV2 := by decide
    simp [handleBucketRequest, hf, hne c (List.mem_of_find?_eq_some hf)]

/-- The operation of a request the policy admitted is the one `ServeHTTP` finds. -/
theorem serveHTTP_of_executed {r' : Request} {op : Operation}
    (hadm : (withAuthGate P opts now r).outcome = .admitted .anonymousPolicy r')
    (hop : executed P opts mux now inFlight r = some op) :
    anonymousPolicyAllows r opts = true ∧ serveHTTP opts r = some op := by
  have hby : shouldBypassAuth r.url.path opts.metricsPath = false := by
    by_contra hby
    simp [withAuthGate, (Bool.not_eq_false _).mp hby] at hadm
  unfold executed at hop
  split at hop
  · rename_i r'' hserve
    obtain ⟨-, how, hadm', hgr⟩ := granted_of_serve hby hserve
    rw [hadm] at hadm'
    obtain ⟨rfl, rfl⟩ := Outcome.admitted.inj hadm'
    cases hgr with
    | anonymousPolicy hno hallows =>
      unfold websiteOrS3Handler at hop
      split_ifs at hop
      exact ⟨hallows, hop⟩
  · cases hop

/-- **The policy was asked about the operation that is executed** exactly when no flag of the query
turns the request into another one (and, for a listing, the path is not `/`). -/
theorem executed_permitted_iff {r' : Request} {op : Operation}
    (hadm : (withAuthGate P opts now r).outcome = .admitted .anonymousPolicy r')
    (hop : executed P opts mux now inFlight r = some op) :
    ∃ bucket key action resource, bucketAndKey r opts.domain = some (bucket, key) ∧
      anonymousPolicyTarget r bucket key = some (action, resource) ∧
      (action.Permits bucket key op ↔ action.Agrees r) := by
  obtain ⟨hallows, hserve⟩ := serveHTTP_of_executed hadm hop
  obtain ⟨bucket, key, action, resource, hbk, ht⟩ := target_of_allows hallows
  refine ⟨bucket, key, action, resource, hbk, ht, ?_⟩
  cases hm : opts.metadata with
  | none => simp [serveHTTP, hm] at hserve
  | some store =>
  simp only [serveHTTP, hm, hbk] at hserve
  split_ifs at hserve with hblob hroot hkey
  · -- the list of buckets: the policy was asked for a listing of one bucket
    cases hserve
    cases action with
    | getObject => exact absurd (key_eq_nil_of_root_path hroot.1 hbk) (getObject_of_target ht).1
    | listBucket => simp [PolicyAction.Permits, PolicyAction.Agrees, hroot.1]
  · obtain ⟨bop, hbop, rfl⟩ := Option.map_eq_some_iff.1 hserve
    cases action with
    | getObject => exact absurd hkey (getObject_of_target ht).1
    | listBucket =>
      obtain ⟨-, hget, hlist⟩ := listBucket_of_target ht
      have hpath : r.url.path ≠ str "/" := fun hp => hroot ⟨hp, hget⟩
      simp only [PolicyAction.Permits, PolicyAction.Agrees, Operation.bucket.injEq, and_true,
        ← handleBucketRequest_list hget hlist, hbop, Option.some.injEq, hpath, ne_eq,
        not_false_eq_true, true_and]
  · cases action with
    | listBucket => exact absurd (listBucket_of_target ht).1 hkey
    | getObject =>
      cases hb : store.getBucket bucket with
      | error e => simp [hb] at hserve
      | ok b =>
        simp only [hb] at hserve
        obtain ⟨oop, hoop, rfl⟩ := Option.map_eq_some_iff.1 hserve
        rcases (getObject_of_target ht).2 with hget | hhead
        · simp only [PolicyAction.Permits, PolicyAction.Agrees, Operation.object.injEq, and_true,
            ← handleObjectRequest_get hget, hoop, Option.some.injEq, hget, true_implies]
        · have hne : r.method ≠ str "GET" := by rw [hhead]; decide
          simp [PolicyAction.Permits, PolicyAction.Agrees, hne, handleObjectRequest_head hhead hoop]

/-! ### A public bucket -/

/-- The theorem at a plain read: the policy is asked about the read that is made. -/
theorem plainRead_permitted :
    (withAuthGate Sha256.platform { metadata := some publicStore, blob := true } 0
      (anonymousGet "")).outcome =
        .admitted .anonymousPolicy ((anonymousGet "").withPrincipal (str "anonymous")) ∧
    executed Sha256.platform { metadata := some publicStore, blob := true }
      (registered (exactly [str "metrics"])) 0 0 (anonymousGet "") =
        some (.object .getObject (str "b") (str "k")) ∧
    ∃ bucket key action resource, bucketAndKey (anonymousGet "") [] = some (bucket, key) ∧
      anonymousPolicyTarget (anonymousGet "") bucket key = some (action, resource) ∧
      (action.Permits bucket key (.object .getObject (str "b") (str "k")) ↔
        action.Agrees (anonymousGet "")) :=
  have hadm : (withAuthGate Sha256.platform { metadata := some publicStore, blob := true } 0
      (anonymousGet "")).outcome =
        .admitted .anonymousPolicy ((anonymousGet "").withPrincipal (str "anonymous")) := rfl
  have hop : executed Sha256.platform { metadata := some publicStore, blob := true }
      (registered (exactly [str "metrics"])) 0 0 (anonymousGet "") =
        some (.object .getObject (str "b") (str "k")) := by decide +kernel
  ⟨hadm, hop, executed_permitted_iff hadm hop⟩

/-- **A policy that lets everyone read objects lets everyone read their tags.**  The policy is asked
for `s3:GetObject`; the query makes the request a read of the tags. -/
theorem tagging_read_under_getObject :
    (withAuthGate Sha256.platform { metadata := some publicStore, blob := true } 0
      (anonymousGet "tagging")).outcome =
        .admitted .anonymousPolicy ((anonymousGet "tagging").withPrincipal (str "anonymous")) ∧
    anonymousPolicyTarget (anonymousGet "tagging") (str "b") (str "k") =
      some (.getObject, str "arn:aws:s3:::b/k") ∧
    executed Sha256.platform { metadata := some publicStore, blob := true }
      (registered (exactly [str "metrics"])) 0 0 (anonymousGet "tagging") =
        some (.object .getTagging (str "b") (str "k")) ∧
    ¬ PolicyAction.getObject.Permits (str "b") (str "k") (.object .getTagging (str "b") (str "k")) := by
  refine ⟨rfl, by decide, by decide +kernel, ?_⟩
  simp [PolicyAction.Permits]

end S000
