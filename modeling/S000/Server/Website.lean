import S000.Server.UploadPaths

/-!
# Server/Website — a public website, and authenticated reads of its bucket

`websiteOrS3Handler` hands a request to the website handler where `isPublicWebsiteRequest` holds.  The
gate uses the same test to let anonymous requests in, and the test does not ask whether a request is
anonymous: an authenticated read of a bucket with a public website is answered by the website handler.

What the website handler writes is never what the S3 API writes (`serveHTTP_marked`,
`s3Response_unmarked`): it redirects, says that the page is not there, or writes an object with its
entity tag and without the time of its last modification.  Hence `website_keeps_response_iff`: a public
website leaves the response to an authenticated read as it was if and only if the read is not one of its
bucket.
-/

namespace S000

open Strings Url Mux Metadata List Prog

/-- What a handler writes: the status, the headers it sets, and the body. -/
structure Response where
  status : ℕ
  header : List (Bytes × Bytes) := []
  body : Bytes := []
deriving DecidableEq

def Response.names (x : Response) : List Bytes := x.header.map Prod.fst

/-! ## The website handler -/

/-- `WebsiteHandler`, with what its stores and the libraries answer. -/
structure WebsiteHandler where
  platform : Platform
  /-- Whether both stores are there. -/
  stores : Bool
  domain : Bytes
  getBucketWebsite : Bytes → Except Error BucketWebsiteConfig
  getLatestObjectVersion : Bytes → Bytes → Except Error ObjectVersion
  /-- What `readMaybeEncryptedObject` delivers without a range. -/
  readObject : ObjectVersion → Bytes
  /-- `mime.TypeByExtension`. -/
  typeByExtension : Bytes → Bytes
  /-- The `Location` header that `http.Redirect` makes of a target. -/
  location : Bytes → Bytes
  /-- The note that `http.Redirect` writes for a `GET`. -/
  redirectNote : Bytes → ℕ → Bytes
  /-- Whether the request came over TLS. -/
  tls : Bool

/-- `decodePath`. -/
def decodePath (s : Bytes) : Bytes := (pathUnescape s).getD s

/-- `http.Error`. -/
def httpError (text : String) (code : ℕ) : Response where
  status := code
  header := [(str "Content-Type", str "text/plain; charset=utf-8"),
    (str "X-Content-Type-Options", str "nosniff")]
  body := str text ++ [0x0A]

/-- `http.NotFound`. -/
def httpNotFound : Response := httpError "404 page not found" 404

/-- `websiteIndexDocument`. -/
def websiteIndexDocument (index : Bytes) : Bytes :=
  let index := trimSpace index
  if index = [] then str "index.html" else index

/-- `resolveWebsiteKey`. -/
def resolveWebsiteKey (key index : Bytes) : Bytes :=
  let index := websiteIndexDocument index
  if key = [] then index
  else if hasSuffix key (str "/") then key ++ index
  else key

/-- `matchesRoutingRule`. -/
def matchesRoutingRule (rule : BucketWebsiteRoutingRule) (key : Bytes) (status : ℤ) : Bool :=
  if rule.keyPrefixEquals ≠ [] ∧ !hasPrefix key rule.keyPrefixEquals then false
  else if rule.httpErrorCodeReturnedEquals ≠ [] then
    !(status ≤ 0 || rule.httpErrorCodeReturnedEquals ≠ Strconv.itoa status)
  else true

/-- The query of a request, as it is put after a target. -/
def withQuery (r : Request) (target : Bytes) : Bytes :=
  if r.url.rawQuery ≠ [] then target ++ str "?" ++ r.url.rawQuery else target

/-- `path.Ext`: what follows the last dot of the last element, with the dot. -/
def pathExt (path : Bytes) : Bytes :=
  let last := (path.reverse.takeWhile (· ≠ 0x2F)).reverse
  if last.contains 0x2E then 0x2E :: (last.reverse.takeWhile (· ≠ 0x2E)).reverse else []

namespace WebsiteHandler

variable (h : WebsiteHandler)

/-- `http.Redirect`. -/
def redirect (r : Request) (target : Bytes) (code : ℕ) : Response where
  status := code
  header := [(str "Location", h.location target), (str "Content-Type", str "text/html; charset=utf-8")]
  body := if r.method = str "GET" then h.redirectNote target code else []

/-- `resolveBucketAndKey`. -/
def resolveBucketAndKey (r : Request) : Option (Bytes × Bytes) :=
  let host := trimSpace (h.platform.toLower ((splitHost r.host).getD r.host))
  let suffix := str "." ++ h.platform.toLower h.domain
  let path := trimPrefix r.url.escapedPath (str "/")
  if h.domain ≠ [] ∧ hasSuffix host suffix ∧ trimSuffix host suffix ≠ [] then
    some (trimSuffix host suffix, decodePath path)
  else if path = [] then none
  else
    let (bucket, key) := (cut 0x2F path).getD (path, [])
    if decodePath bucket = [] then none else some (decodePath bucket, decodePath key)

def protocol (configured : Bytes) : Bytes :=
  let protocol := trimSpace configured
  if protocol = [] then if h.tls then str "https" else str "http" else protocol

/-- `redirectURL`. -/
def redirectURL (r : Request) (cfg : BucketWebsiteConfig) : Bytes :=
  let path := if r.url.escapedPath = [] then str "/" else r.url.escapedPath
  withQuery r (h.protocol cfg.redirectAllProtocol ++ str "://" ++ cfg.redirectAllHost ++ path)

/-- `redirectURLFromRule`. -/
def redirectURLFromRule (r : Request) (key : Bytes) (rule : BucketWebsiteRoutingRule) :
    Option Bytes :=
  let named := trimSpace rule.hostName
  let host := if named = [] then (splitHost r.host).getD r.host else named
  if host = [] then none
  else
    let nextKey :=
      if rule.replaceKeyWith ≠ [] then rule.replaceKeyWith
      else if rule.replaceKeyPrefixWith ≠ [] then
        rule.replaceKeyPrefixWith ++ trimPrefix key rule.keyPrefixEquals
      else key
    some (withQuery r (h.protocol rule.protocol ++ str "://" ++ host ++ str "/" ++
      trimPrefix nextKey (str "/")))

/-- The status of a rule's redirect. -/
def redirectCode (rule : BucketWebsiteRoutingRule) : ℕ :=
  match Strconv.parseInt 10 rule.httpRedirectCode with
  | some n => if 300 ≤ n ∧ n ≤ 399 then n.toNat else 301
  | none => 301

/-- `applyRoutingRule`. -/
def applyRoutingRule (r : Request) (cfg : BucketWebsiteConfig) (key : Bytes) (status : ℤ) :
    Option (Bytes × ℕ) :=
  cfg.routingRules.findSome? fun rule =>
    if !matchesRoutingRule rule key status then none
    else (h.redirectURLFromRule r key rule).map fun target => (target, redirectCode rule)

/-- `lookupObject`. -/
def lookupObject (bucket key : Bytes) : Except Error ObjectVersion :=
  if key = [] then .error .notFound else h.getLatestObjectVersion bucket key

/-- `writeObject`. -/
def writeObject (r : Request) (key : Bytes) (obj : ObjectVersion) (status : ℕ) : Response :=
  let stored := trimSpace (obj.metadata.at (str "content-type"))
  let ctype := if stored ≠ [] then stored else str "application/octet-stream"
  let ext := h.platform.toLower (pathExt key)
  let inferred := if ext ≠ [] then h.typeByExtension ext else []
  let ctype := if ctype = str "application/octet-stream" ∧ inferred ≠ [] then inferred else ctype
  { status
    header := [(str "Content-Type", ctype), (str "Content-Length", Strconv.itoa obj.size),
      (str "ETag", quotedETag obj.eTag)]
    body := if r.method = str "HEAD" then [] else h.readObject obj }

/-- What is written where no object answers to the key. -/
def writeMissing (r : Request) (cfg : BucketWebsiteConfig) (bucket key : Bytes) : Response :=
  match h.applyRoutingRule r cfg key 404 with
  | some (target, code) => h.redirect r target code
  | none =>
    if cfg.errorDocument = [] then httpNotFound
    else match h.lookupObject bucket cfg.errorDocument with
      | .ok obj => h.writeObject r cfg.errorDocument obj 404
      | .error _ => httpNotFound

def writeKey (r : Request) (cfg : BucketWebsiteConfig) (bucket key : Bytes) : Response :=
  let resolved := resolveWebsiteKey key cfg.indexDocument
  match h.lookupObject bucket resolved with
  | .ok obj => h.writeObject r resolved obj 200
  | .error _ =>
    let directory := h.lookupObject bucket (key ++ str "/" ++ websiteIndexDocument cfg.indexDocument)
    if key ≠ [] ∧ !hasSuffix key (str "/") ∧ directory.isOk then
      h.redirect r (withQuery r (r.url.escapedPath ++ str "/")) 302
    else if resolved = key then h.writeMissing r cfg bucket key
    else match h.lookupObject bucket key with
      | .ok obj => h.writeObject r resolved obj 200
      | .error _ => h.writeMissing r cfg bucket key

/-- `(*WebsiteHandler).ServeHTTP`. -/
def serveHTTP (r : Request) : Response :=
  if !r.isRead then { status := 405 }
  else if !h.stores then httpError "website service unavailable" 503
  else match h.resolveBucketAndKey r with
    | none => httpNotFound
    | some (bucket, key) => match h.getBucketWebsite bucket with
      | .error _ => httpNotFound
      | .ok cfg =>
        if !cfg.enabled || !cfg.publicRead then httpNotFound
        else if cfg.redirectAllHost ≠ [] then h.redirect r (h.redirectURL r cfg) 301
        else match h.applyRoutingRule r cfg key 0 with
          | some (target, code) => h.redirect r target code
          | none => h.writeKey r cfg bucket key

end WebsiteHandler

/-! ## The S3 API -/

/-- A page that the S3 API writes: a document with its type, or a status alone. -/
structure Page where
  status : ℕ
  contentType : Option Bytes
  body : Bytes

def Page.response (x : Page) : Response where
  status := x.status
  header := x.contentType.toList.map (str "Content-Type", ·)
  body := x.body

/-- **The server behind the `/` route**: the reads of objects are those of the model, and the page that
answers another operation, or a request without one, is any one. -/
structure Site where
  api : S3API
  world : World
  ctx : Ctx
  /-- What goes wrong in a read. -/
  faults : List Fault := []
  page : Option Operation → Request → Page
  errorXML : S3Error → Bytes
  typeByExtension : Bytes → Bytes
  location : Bytes → Bytes
  redirectNote : Bytes → ℕ → Bytes
  tls : Bool

namespace Site

variable (site : Site)

def ofReply : Reply → Response
  | .error e => ⟨e.statusCode, [(str "Content-Type", str "application/xml")], site.errorXML e⟩
  | .answer status header (.object content) => ⟨status, header, content⟩
  | .answer status header _ => ⟨status, header, []⟩

/-- **What the S3 API writes.** -/
def s3Response (opts : Options) (r : Request) : Response :=
  match serveHTTP opts r with
  | some (.object .getObject bucket key) =>
    site.ofReply (respond site.api site.world ⟨.getObject r bucket key, site.ctx, site.faults⟩).1
  | some (.object .headObject bucket key) =>
    site.ofReply (respond site.api site.world ⟨.headObject r bucket key, site.ctx, site.faults⟩).1
  | op => (site.page op r).response

/-- The website handler of `websiteOrS3Handler`. -/
def website (opts : Options) : WebsiteHandler where
  platform := site.api.platform
  stores := opts.metadata.isSome && opts.blob
  domain := trimSpace opts.domain
  getBucketWebsite bucket := match opts.metadata with
    | none => .error .notFound
    | some store => store.getBucketWebsite bucket
  getLatestObjectVersion := site.world.metadata.getLatestObjectVersion
  readObject obj := (readVersion site.api site.world obj).bytes
  typeByExtension := site.typeByExtension
  location := site.location
  redirectNote := site.redirectNote
  tls := site.tls

/-- `websiteOrS3Handler`. -/
def rootResponse (opts : Options) (r : Request) : Response :=
  if isPublicWebsiteRequest r opts then (site.website opts).serveHTTP r else site.s3Response opts r

/-- **The response to a request that reaches the `/` route**; none where it does not. -/
def response (P : Platform) (opts : Options) (mux : List (Pattern × Route)) (now : Time)
    (inFlight : ℤ) (r : Request) : Option Response :=
  match serve P opts mux now inFlight r with
  | .routed (.handler .root) r' => some (site.rootResponse opts r')
  | _ => none

end Site

/-! ## The two handlers never write the same -/

/-- **The mark of the website handler**: a redirect, a plain error, or an object without the time of its
last modification. -/
def Response.Marked (x : Response) : Prop :=
  str "Location" ∈ x.names ∨ str "X-Content-Type-Options" ∈ x.names ∨
    (str "ETag" ∈ x.names ∧ str "Last-Modified" ∉ x.names)

theorem httpError_marked (text : String) (code : ℕ) : (httpError text code).Marked :=
  .inr (.inl (mem_cons_of_mem _ mem_cons_self))

namespace WebsiteHandler

variable {h : WebsiteHandler} {r : Request} {bucket key target : Bytes} {code : ℕ}
  {cfg : BucketWebsiteConfig} {obj : ObjectVersion}

theorem redirect_marked : (h.redirect r target code).Marked := .inl mem_cons_self

theorem writeObject_marked : (h.writeObject r key obj code).Marked := by
  refine .inr (.inr ⟨?_, ?_⟩)
  · change str "ETag" ∈ [str "Content-Type", str "Content-Length", str "ETag"]
    decide
  · change str "Last-Modified" ∉ [str "Content-Type", str "Content-Length", str "ETag"]
    decide

theorem writeMissing_marked : (h.writeMissing r cfg bucket key).Marked := by
  unfold writeMissing
  split
  · exact redirect_marked
  split_ifs
  · exact httpError_marked _ _
  split
  · exact writeObject_marked
  · exact httpError_marked _ _

theorem writeKey_marked : (h.writeKey r cfg bucket key).Marked := by
  unfold writeKey
  dsimp only
  split
  · exact writeObject_marked
  split_ifs
  · exact redirect_marked
  · exact writeMissing_marked
  split
  · exact writeObject_marked
  · exact writeMissing_marked

/-- What the website handler writes in answer to a read is marked, -/
theorem serveHTTP_marked (hread : r.isRead = true) : (h.serveHTTP r).Marked := by
  unfold serveHTTP
  rw [hread, Bool.not_true, if_neg Bool.false_ne_true]
  split_ifs
  · exact httpError_marked _ _
  split
  · exact httpError_marked _ _
  split
  · exact httpError_marked _ _
  split_ifs
  · exact httpError_marked _ _
  · exact redirect_marked
  split
  · exact redirect_marked
  · exact writeKey_marked

end WebsiteHandler

theorem Page.not_marked (x : Page) : ¬ x.response.Marked := by
  have hnames : x.response.names ⊆ [str "Content-Type"] := by
    unfold response Response.names
    cases x.contentType <;> simp
  rintro (h | h | ⟨h, -⟩)
  all_goals exact absurd (hnames h) (by decide)

variable {P : Platform}

theorem names_objectHeaders {row : ObjectVersion} {n : Bytes}
    (h : n ∈ (objectHeaders P row).map Prod.fst) :
    n ∈ str "x-amz-server-side-encryption" :: otherNames ∨ hasPrefix n (str "x-amz-meta-") = true := by
  obtain ⟨e, he, rfl⟩ := mem_map.1 h
  by_cases hother : e.1 ∈ otherNames
  · exact .inl (mem_cons_of_mem _ hother)
  have hmem : e ∈ (objectHeaders P row).filter fun h => decide (h.1 ∉ otherNames) :=
    mem_filter.2 ⟨he, decide_eq_true hother⟩
  rw [filter_objectHeaders (p := fun n => decide (n ∉ otherNames)) (by decide), mem_append] at hmem
  rcases hmem with hmem | hmem
  · left
    have hsse := (mem_filter.1 hmem).1
    unfold setSSEHeader at hsse
    split_ifs at hsse
    · rw [mem_singleton.1 hsse]
      exact mem_cons_self
    · cases hsse
  · exact .inr (hasPrefix_of_shown (mem_filter.1 hmem).1)

/-- The headers of a reply to a read: none, or those of a version. -/
def Reply.ReadHeaders (P : Platform) (reply : Reply) : Prop :=
  reply.header = [] ∨ ∃ row, reply.header = objectHeaders P row

theorem handleGetObject_header {a : S3API} {r : Request} {bucket key : Bytes} {headOnly : Bool} :
    Returns (handleGetObject a r bucket key headOnly) (Reply.ReadHeaders a.platform) := by
  have hread (obj : ObjectVersion) (br : Option Blob.ByteRange) (status : ℕ) :
      Returns (readMaybeEncryptedObject a obj br) fun s => Reply.ReadHeaders a.platform
        (.answer status (objectHeaders a.platform obj) (.object s.bytes)) :=
    (readMaybeEncryptedObject_only (fun _ _ => trivial) obj br).mono fun _ _ => .inr ⟨obj, rfl⟩
  refine ⟨trivial, fun v _ => ?_⟩
  rcases v with _ | obj
  · exact .inl rfl
  refine only_ite (fun _ => .inl rfl) fun _ => ?_
  split
  next reply hreply =>
    refine .inl ?_
    simp only [objectConditionsPass] at hreply
    split_ifs at hreply <;> cases hreply <;> rfl
  next =>
    refine only_ite (fun _ => .inr ⟨obj, rfl⟩) fun _ => only_ite (fun _ => ?_) fun _ => ?_
    · rw [only_bind]
      exact hread obj none 200
    split
    · exact .inl rfl
    · rw [only_bind]
      exact hread obj _ 206

theorem not_marked_of_objectHeaders {row : ObjectVersion} {x : Response}
    (h : x.header = objectHeaders P row) : ¬ x.Marked := by
  rw [Response.Marked, Response.names, h]
  rintro (h | h | ⟨-, h⟩)
  · exact (names_objectHeaders h).elim (by decide) (by decide)
  · exact (names_objectHeaders h).elim (by decide) (by decide)
  · exact h (by simp [objectHeaders])

theorem Site.ofReply_not_marked {site : Site} {reply : Reply} (h : reply.ReadHeaders P) :
    ¬ (site.ofReply reply).Marked := by
  cases reply with
  | error e =>
    rintro (h | h | ⟨h, -⟩)
    all_goals exact absurd h (by decide : _ ∉ [str "Content-Type"])
  | answer status header d =>
    have hheader : (site.ofReply (.answer status header d)).header = header := by cases d <;> rfl
    rcases h with h | ⟨row, h⟩
    · rw [Response.Marked, Response.names, hheader, show header = [] from h]
      rintro (h | h | ⟨h, -⟩) <;> cases h
    · exact not_marked_of_objectHeaders (hheader.trans h)

/-- …and what the S3 API writes is not. -/
theorem Site.s3Response_unmarked {site : Site} {opts : Options} {r : Request} :
    ¬ (site.s3Response opts r).Marked := by
  unfold s3Response
  split
  · exact ofReply_not_marked (respond_of_ensures (ensures_of_returns
      (inBucket_returns (.inl rfl) handleGetObject_header)))
  · exact ofReply_not_marked (respond_of_ensures (ensures_of_returns
      (inBucket_returns (.inl rfl) handleGetObject_header)))
  · exact Page.not_marked _

/-! ## Two servers -/

/-- The server with a website configuration for a bucket. -/
def Options.withWebsite (opts : Options) (store : StoreReads) (bucket : Bytes)
    (cfg : BucketWebsiteConfig) : Options :=
  { opts with metadata := some { store with
      getBucketWebsite := Function.update store.getBucketWebsite bucket (.ok cfg) } }

variable {P : Platform} {opts : Options} {mux : List (Pattern × Route)} {now : Time} {inFlight : ℤ}
  {r r' : Request} {store : StoreReads} {bucket : Bytes} {cfg : BucketWebsiteConfig} {site : Site}

/-- The gate decides about an authenticated request without the website configurations. -/
theorem withAuthGate_withWebsite (hmaterial : hasAuthMaterial r = true) :
    withAuthGate P (opts.withWebsite store bucket cfg) now r = withAuthGate P opts now r := by
  simp only [withAuthGate, hmaterial]
  rfl

/-- …and the S3 API answers without them. -/
theorem Site.s3Response_withWebsite (hstore : opts.metadata = some store) :
    site.s3Response (opts.withWebsite store bucket cfg) r = site.s3Response opts r := by
  have hserve : serveHTTP (opts.withWebsite store bucket cfg) r = serveHTTP opts r := by
    simp only [serveHTTP, Options.withWebsite, hstore]
  rw [s3Response, s3Response, hserve]

/-- A read of a bucket is one of its website, where it was one of no website before. -/
theorem isPublicWebsiteRequest_withWebsite (hstore : opts.metadata = some store)
    (hcfg : cfg.enabled = true ∧ cfg.publicRead = true) (hbucket : bucket ≠ [])
    (hread : r.isRead = true) (hflag : r.query.has (str "website") = false)
    (hbefore : isPublicWebsiteRequest r opts = false) :
    isPublicWebsiteRequest r (opts.withWebsite store bucket cfg) = true ↔
      ∃ key, bucketAndKey r opts.domain = some (bucket, key) := by
  simp only [isPublicWebsiteRequest, hstore, hread, hflag, Bool.not_false, Bool.true_and] at hbefore
  simp only [isPublicWebsiteRequest, Options.withWebsite, hread, hflag]
  rcases hbk : bucketAndKey r opts.domain with _ | ⟨b, key⟩
  · simp
  rw [hbk] at hbefore
  dsimp only at hbefore ⊢
  rcases eq_or_ne b bucket with rfl | hne
  · simp [hcfg, hbucket]
  · rw [Function.update_of_ne hne, hbefore]
    simp [hne]

/-- **A read is one of a bucket**: it reaches the `/` route, and addresses the bucket. -/
def ReadOf (opts : Options) (mux : List (Pattern × Route)) (inFlight : ℤ) (bucket : Bytes)
    (r : Request) : Prop :=
  limited opts mux inFlight r = .routed (.handler .root) r ∧
    ∃ key, bucketAndKey r opts.domain = some (bucket, key)

/-- **A public website and authenticated reads.**  For every server, every bucket that has no public
website, and every `GET` or `HEAD` that the verifier has accepted and that does not ask for the website
configuration: the response with a public website on a bucket is the one without it if and only if the
request is no read of that bucket. -/
theorem website_keeps_response_iff (hstore : opts.metadata = some store)
    (hcfg : cfg.enabled = true ∧ cfg.publicRead = true) (hbucket : bucket ≠ [])
    (hmaterial : hasAuthMaterial r = true)
    (hverified : (withAuthGate P opts now r).outcome = .admitted .verifier r')
    (hread : r'.isRead = true) (hflag : r'.query.has (str "website") = false)
    (hbefore : isPublicWebsiteRequest r' opts = false) :
    site.response P (opts.withWebsite store bucket cfg) mux now inFlight r =
        site.response P opts mux now inFlight r ↔
      ¬ ReadOf opts mux inFlight bucket r' := by
  have hserve : serve P opts mux now inFlight r = limited opts mux inFlight r' := by
    rw [serve, hverified]
  have hserve' : serve P (opts.withWebsite store bucket cfg) mux now inFlight r =
      limited opts mux inFlight r' := by
    rw [serve, withAuthGate_withWebsite hmaterial, hverified]
    rfl
  rw [Site.response, Site.response, hserve, hserve']
  by_cases hroot : limited opts mux inFlight r' = .routed (.handler .root) r'
  · have hwebsite := isPublicWebsiteRequest_withWebsite hstore hcfg hbucket hread hflag hbefore
    simp only [hroot, Option.some.injEq, ReadOf, true_and, ← hwebsite, Site.rootResponse, hbefore,
      Bool.false_eq_true, if_false]
    split_ifs with htaken
    · -- the website handler answers, and what it writes is marked
      refine iff_of_false (fun heq => ?_) (not_not.2 htaken)
      exact Site.s3Response_unmarked (heq ▸ WebsiteHandler.serveHTTP_marked hread)
    · exact iff_of_true (Site.s3Response_withWebsite hstore) htaken
  · refine iff_of_true ?_ fun h => hroot h.1
    rcases limited_cases opts mux inFlight r' with hlimited | ⟨spec, hlimited⟩
    · rw [hlimited] at hroot ⊢
      split
      next r'' heq =>
        obtain ⟨hroute, rfl⟩ := Delivery.routed.inj heq
        exact absurd (by rw [hroute]) hroot
      next => rfl
    · rw [hlimited]

/-! ## A read with a range -/

/-- A server whose bucket `b` holds the object `k`. -/
def sampleSite : Site where
  api := sampleAPI
  world := writtenWith []
  ctx := sampleCtx 9
  page _ _ := ⟨405, some (str "application/xml"), []⟩
  errorXML _ := []
  typeByExtension _ := []
  location target := target
  redirectNote _ _ := []
  tls := false

/-- Its options: the verifier accepts every request. -/
def siteOptions : Options :=
  { metadata := some publicStore, blob := true, verifier := some fun r => (none, r) }

def rangeGet : Request where
  method := str "GET"
  url := { path := str "/b/k" }
  header := .ofList [(str "Authorization", str "AWS4-HMAC-SHA256 Credential=AK"),
    (str "Range", str "bytes=0-0")]

def publicWebsite (bucket : String) : BucketWebsiteConfig :=
  { bucket := str bucket, enabled := true, publicRead := true }

/-- A website on another bucket changes nothing. -/
theorem website_keeps_response_elsewhere :
    sampleSite.response Sha256.platform
        (siteOptions.withWebsite publicStore (str "www") (publicWebsite "www"))
        (registered (exactly [str "metrics"])) 0 0 rangeGet =
      sampleSite.response Sha256.platform siteOptions (registered (exactly [str "metrics"])) 0 0
        rangeGet := by
  refine (website_keeps_response_iff rfl ⟨rfl, rfl⟩ (by decide) (by decide +kernel) rfl (by decide)
    (by decide +kernel) (by decide +kernel)).2 fun h => ?_
  obtain ⟨-, key, hkey⟩ := h
  have hb : bucketAndKey rangeGet [] = some (str "b", str "k") := by decide
  exact absurd (Prod.mk.inj (Option.some.inj (hb.symm.trans hkey))).1 (by decide)

/-- **An authenticated read with a range** delivers one byte, and with a website on the bucket the whole
object. -/
theorem website_changes_rangeGet :
    (withAuthGate Sha256.platform siteOptions 0 rangeGet).outcome.admission =
        some (.verifier, str "AK") ∧
      (sampleSite.response Sha256.platform siteOptions (registered (exactly [str "metrics"])) 0 0
        rangeGet).map (fun x => (x.status, x.body)) = some (206, str "h") ∧
      (sampleSite.response Sha256.platform
        (siteOptions.withWebsite publicStore (str "b") (publicWebsite "b"))
        (registered (exactly [str "metrics"])) 0 0 rangeGet).map (fun x => (x.status, x.body)) =
          some (200, str "hi") := by
  refine ⟨by decide +kernel, by decide +kernel, by decide +kernel⟩

end S000
