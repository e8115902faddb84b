import S000.Auth.Pat
import S000.Http.Request
import S000.Metadata.Model
import S000.Server.Policy

/-!
# Server/Gate — who a request is, and whether it may pass

`withAuthGate` and what it is made of: the bucket and key a request addresses, the principal it
names, the bucket policy and the public website as two ways in without credentials.  The parts of
`Options` that are Go interfaces (the verifier, the metadata store, the failure protector) are
records of functions, standing for any implementation.
-/

namespace S000

open Strings Url

/-! ## Addressing -/

/-- `parseVirtualHostStyle`: the bucket is the one label in front of the domain. -/
def parseVirtualHostStyle (r : Request) (domain : Bytes) : Option (Bytes × Bytes) :=
  if r.host = [] then none
  else
    let host := (splitHost r.host).getD r.host
    if domain = [] then none
    else if !hasSuffix host (str "." ++ domain) then none
    else
      let bucket := trimSuffix host (str "." ++ domain)
      if bucket = [] ∨ bucket.contains 0x2E then none
      else some (bucket, trimPrefix r.url.path (str "/"))

/-- `bucketAndKey`: virtual-host style first, then the first path element and the rest. -/
def bucketAndKey (r : Request) (domain : Bytes) : Option (Bytes × Bytes) :=
  match parseVirtualHostStyle r domain with
  | some bk => some bk
  | none =>
    match split (trimPrefix r.url.path (str "/")) 0x2F with
    | [] => none
    | bucket :: rest => if bucket = [] then none else some (bucket, join rest (str "/"))

/-! ## Errors, audit events, options -/

/-- `s3ErrorSpec`. -/
structure S3ErrorSpec where
  statusCode : ℕ
  code : String
  message : String
  resource : Bytes
deriving DecidableEq

/-- The errors of `internal/auth`. -/
inductive AuthError
  | missingAuthenticationToken
  | invalidAccessKeyID
  | signatureDoesNotMatch
  | requestTimeTooSkewed
  | invalidRequest
  | accessDenied
deriving DecidableEq

/-- What the metadata store answers to the reads made before a handler runs. -/
structure StoreReads where
  getBucket : Bytes → Except Metadata.Error Metadata.Bucket
  getBucketWebsite : Bytes → Except Metadata.Error Metadata.BucketWebsiteConfig
  getBucketPolicy : Bytes → Except Metadata.Error Metadata.BucketPolicy
  getBucketPublicAccessBlock : Bytes → Except Metadata.Error Metadata.BucketPublicAccessBlock

/-- `RequestVerifier`: the error it returns, and the request as it leaves it. -/
abbrev RequestVerifier := Request → Option AuthError × Request

/-- The fields of `Options` that decide what happens to a request before a handler runs. -/
structure Options where
  domain : Bytes := []
  maxInFlight : ℤ := 0
  verifier : Option RequestVerifier := none
  metadata : Option StoreReads := none
  /-- Whether a blob store is configured. -/
  blob : Bool := false
  metricsPath : Bytes := []
  auditEnabled : Bool := false
  patSigningKey : Bytes := []
  patManager : Option Pat.Manager := none
  /-- `authFailureProtector.IsBlocked`, as it answers during the request. -/
  isBlocked : Bytes → Time → Bool := fun _ _ => false

/-! ## Principals -/

/-- `bearerToken`. -/
def bearerToken (value : Bytes) : Option Bytes :=
  let value := trimSpace value
  if value.length < 7 ∨ !equalFold (value.take 7) (str "Bearer ") then none
  else
    let token := trimSpace (value.drop 7)
    if token = [] then none else some token

/-- The principal a credential names: what stands before its first slash, if anything. -/
def credentialPrincipal (credential : Bytes) : Option Bytes :=
  let id := before 0x2F credential
  if id = [] then none else some (trimSpace id)

/-- What follows the first occurrence of `Credential=` in a header, up to the next comma. -/
def headerCredential (authz : Bytes) : Option Bytes :=
  (index authz (str "Credential=")).map fun i =>
    before 0x2C (authz.drop (i + (str "Credential=").length))

/-- The principal the credential of a request names: the header's, else the query's. -/
def requestPrincipal (r : Request) : Bytes :=
  (((headerCredential (r.header.get (str "Authorization"))).bind credentialPrincipal).or
    (credentialPrincipal (r.query.get (str "X-Amz-Credential")))).getD []

/-- `extractPrincipalID`. -/
def extractPrincipalID (r : Request) : Bytes :=
  if r.principal ≠ [] then r.principal
  else match bearerToken (r.header.get (str "Authorization")) with
    | some token =>
      let subject := Pat.personalAccessTokenSubject token
      if subject ≠ [] then subject else str "pat"
    | none => requestPrincipal r

def clientHost (r : Request) : Bytes :=
  let host := trimSpace ((splitHost r.remoteAddr).getD r.remoteAddr)
  if host = [] then str "unknown" else host

/-- `clientIdentityKey`: the identity failed attempts are counted under. -/
def clientIdentityKey (r : Request) : Bytes :=
  let principal := extractPrincipalID r
  (if principal = [] then str "anon" else principal) ++ str "@" ++ clientHost r

/-! ## The ways in -/

/-- `shouldBypassGuards`, which `shouldBypassAuth` returns. -/
def shouldBypassGuards (path metricsPath : Bytes) : Bool :=
  let metricsPath := if metricsPath = [] then str "/metrics" else metricsPath
  path = str "/healthz" || path = str "/readyz" || path = metricsPath ||
    hasPrefix path (str "/app") || hasPrefix path (str "/assets/")

/-- `shouldBypassAuth`. -/
def shouldBypassAuth (path metricsPath : Bytes) : Bool := shouldBypassGuards path metricsPath

/-- `isPublicWebsiteRequest`. -/
def isPublicWebsiteRequest (r : Request) (opts : Options) : Bool :=
  match opts.metadata with
  | none => false
  | some store =>
    r.isRead && !r.query.has (str "website") &&
      match bucketAndKey r opts.domain with
      | none => false
      | some (bucket, _) => bucket ≠ [] &&
        match store.getBucketWebsite bucket with
        | .ok cfg => cfg.enabled && cfg.publicRead
        | .error _ => false

/-- `hasAuthMaterial`. -/
def hasAuthMaterial (r : Request) : Bool :=
  trimSpace (r.header.get (str "Authorization")) ≠ [] ||
    r.query.get (str "X-Amz-Signature") ≠ [] || r.query.get (str "X-Amz-Credential") ≠ [] ||
    r.query.get (str "X-Amz-Algorithm") ≠ []

/-- The actions an anonymous request is tested for. -/
inductive PolicyAction
  | listBucket
  | getObject
deriving DecidableEq

def PolicyAction.name : PolicyAction → Bytes
  | .listBucket => str "s3:ListBucket"
  | .getObject => str "s3:GetObject"

/-- `anonymousPolicyTarget`: the action and the resource a policy is asked about. -/
def anonymousPolicyTarget (r : Request) (bucket key : Bytes) : Option (PolicyAction × Bytes) :=
  if key = [] then
    if r.method = str "GET" ∧ r.query.get (str "list-type") = str "2" then
      some (.listBucket, str "arn:aws:s3:::" ++ bucket)
    else none
  else if !r.isRead then none
  else some (.getObject, str "arn:aws:s3:::" ++ bucket ++ str "/" ++ key)

/-- The public access block of a bucket leaves its policy in force; an error other than a missing
record does not. -/
def publicPolicyInForce (store : StoreReads) (bucket : Bytes) : Bool :=
  match store.getBucketPublicAccessBlock bucket with
  | .ok block => !(block.blockPublicPolicy || block.restrictPublicBuckets)
  | .error e => e = .notFound

/-- `anonymousPolicyAllows`. -/
def anonymousPolicyAllows (r : Request) (opts : Options) : Bool :=
  match opts.metadata with
  | none => false
  | some store =>
    match bucketAndKey r opts.domain with
    | none => false
    | some (bucket, key) => bucket ≠ [] &&
      match anonymousPolicyTarget r bucket key with
      | none => false
      | some (action, resource) => publicPolicyInForce store bucket &&
        match store.getBucketPolicy bucket with
        | .ok policy => policy.enabled && trimSpace policy.document ≠ [] &&
            Policy.bucketPolicyAllowsAnonymous policy.document action.name resource
        | .error _ => false

/-- `mapAuthErrorToS3`. -/
def mapAuthErrorToS3 (r : Request) (err : AuthError) : S3ErrorSpec :=
  let spec := fun code message => (⟨403, code, message, r.url.path⟩)
  match err with
  | .missingAuthenticationToken =>
    spec "MissingAuthenticationToken" "Request is missing Authentication Token"
  | .invalidAccessKeyID =>
    spec "InvalidAccessKeyId" "The AWS Access Key Id you provided does not exist in our records."
  | .signatureDoesNotMatch =>
    spec "SignatureDoesNotMatch"
      "The request signature we calculated does not match the signature you provided."
  | .requestTimeTooSkewed =>
    spec "RequestTimeTooSkewed"
      "The difference between the request time and the current time is too large."
  | .invalidRequest => spec "InvalidRequest" "The request is invalid."
  | .accessDenied => spec "AccessDenied" "Access Denied"

/-! ## The gate -/

/-- How a request was let in. -/
inductive Admission
  /-- Its bearer token was verified. -/
  | bearer
  /-- The verifier accepted it. -/
  | verifier
  /-- It is anonymous, and the bucket policy allows it. -/
  | anonymousPolicy
  /-- It is anonymous, and reads a public website. -/
  | publicWebsite
deriving DecidableEq

/-- What the gate does with a request. -/
inductive Outcome
  /-- Handed on without any check. -/
  | bypassed
  | rejected (spec : S3ErrorSpec)
  /-- Handed on, with the principal in its context. -/
  | admitted (how : Admission) (r : Request)

/-- How a request was let in, and its principal. -/
def Outcome.admission : Outcome → Option (Admission × Bytes)
  | .admitted how r => some (how, r.principal)
  | _ => none

theorem Outcome.exists_of_admission {o : Outcome} {how : Admission} {principal : Bytes}
    (h : o.admission = some (how, principal)) : ∃ r, o = .admitted how r ∧ r.principal = principal := by
  cases o with
  | admitted how' r =>
    cases h
    exact ⟨r, rfl, rfl⟩
  | _ => cases h

inductive ProtectorCall
  | recordFailure (identity : Bytes)
  | recordSuccess (identity : Bytes)
deriving DecidableEq

/-- What the gate does, and the traces it leaves. -/
structure GateResult where
  outcome : Outcome
  protector : Option ProtectorCall := none
  audit : Option AuditEvent := none

/-- The audit event of a refusal; `r` is the request as it is by then. -/
def authAudit (opts : Options) (r : Request) (action reason : String) : Option AuditEvent :=
  if opts.auditEnabled then
    some { action, outcome := "deny", requestID := r.requestID, principal := extractPrincipalID r
           reason }
  else none

def Request.withPrincipal (r : Request) (principal : Bytes) : Request := { r with principal }

variable (P : Platform)

/-- The bearer token is verified by the manager, where there is one, else under the signing key. -/
def verifyBearer (opts : Options) (token : Bytes) (now : Time) : Except Pat.Error Bytes :=
  match opts.patManager with
  | some m => m.verify P token
  | none => Pat.verifyPersonalAccessToken P token opts.patSigningKey now

/-- `withAuthGate`, up to the call of the next handler. -/
def withAuthGate (opts : Options) (now : Time) (r : Request) : GateResult :=
  let accessDenied : S3ErrorSpec := ⟨403, "AccessDenied", "Access Denied", r.url.path⟩
  if shouldBypassAuth r.url.path opts.metricsPath then { outcome := .bypassed }
  else
    let identity := clientIdentityKey r
    if opts.isBlocked identity now then
      { outcome := .rejected
          ⟨503, "SlowDown", "Too many authentication failures. Retry later.", r.url.path⟩
        audit := authAudit opts r "auth.blocked" "too_many_auth_failures" }
    else match bearerToken (r.header.get (str "Authorization")) with
      | some token =>
        match verifyBearer P opts token now with
        | .error _ =>
          { outcome := .rejected accessDenied
            protector := some (.recordFailure identity)
            audit := authAudit opts r "auth.failure" "AccessDenied" }
        | .ok subject =>
          { outcome := .admitted .bearer (r.withPrincipal subject)
            protector := some (.recordSuccess identity) }
      | none =>
        if !hasAuthMaterial r && anonymousPolicyAllows r opts then
          { outcome := .admitted .anonymousPolicy (r.withPrincipal (str "anonymous")) }
        else if !hasAuthMaterial r && isPublicWebsiteRequest r opts then
          { outcome := .admitted .publicWebsite (r.withPrincipal (str "anonymous")) }
        else match opts.verifier with
          | none => { outcome := .rejected accessDenied }
          | some verify =>
            match verify r with
            | (some err, r) =>
              let spec := mapAuthErrorToS3 r err
              { outcome := .rejected spec
                protector := some (.recordFailure identity)
                audit := authAudit opts r "auth.failure" spec.code }
            | (none, r) =>
              { outcome := .admitted .verifier (r.withPrincipal (extractPrincipalID r))
                protector := some (.recordSuccess identity) }

/-! ### What the gate guarantees -/

/-- **What an admission rests on**, for each way in, and the request that is handed on. -/
inductive Grants (opts : Options) (now : Time) (r : Request) : Admission → Request → Prop
  | bearer {token subject : Bytes}
      (token_eq : bearerToken (r.header.get (str "Authorization")) = some token)
      (verified : verifyBearer P opts token now = .ok subject) :
      Grants opts now r .bearer (r.withPrincipal subject)
  | anonymousPolicy (no_material : hasAuthMaterial r = false)
      (allows : anonymousPolicyAllows r opts = true) :
      Grants opts now r .anonymousPolicy (r.withPrincipal (str "anonymous"))
  | publicWebsite (no_material : hasAuthMaterial r = false)
      (website : isPublicWebsiteRequest r opts = true) :
      Grants opts now r .publicWebsite (r.withPrincipal (str "anonymous"))
  | verifier {verify : RequestVerifier} {r' : Request}
      (no_token : bearerToken (r.header.get (str "Authorization")) = none)
      (verifier_eq : opts.verifier = some verify) (verified : verify r = (none, r')) :
      Grants opts now r .verifier (r'.withPrincipal (extractPrincipalID r'))

variable {P} {opts : Options} {now : Time} {r : Request}

/-- **The gate hands on a request unchecked on a bypassed path, and otherwise only with a reason.**
-/
theorem withAuthGate_cases :
    (shouldBypassAuth r.url.path opts.metricsPath = true ∧
      (withAuthGate P opts now r).outcome = .bypassed) ∨
    (shouldBypassAuth r.url.path opts.metricsPath = false ∧
      ((∃ spec, (withAuthGate P opts now r).outcome = .rejected spec) ∨
        ∃ how r', (withAuthGate P opts now r).outcome = .admitted how r' ∧
          Grants P opts now r how r')) := by
  cases hby : shouldBypassAuth r.url.path opts.metricsPath with
  | true => exact .inl ⟨rfl, by simp [withAuthGate, hby]⟩
  | false =>
    refine .inr ⟨rfl, ?_⟩
    cases hblocked : opts.isBlocked (clientIdentityKey r) now with
    | true => exact .inl ⟨_, by simp only [withAuthGate, hby, hblocked]; rfl⟩
    | false =>
      cases htoken : bearerToken (r.header.get (str "Authorization")) with
      | some token =>
        cases hver : verifyBearer P opts token now with
        | error e => exact .inl ⟨_, by simp only [withAuthGate, hby, hblocked, htoken, hver]; rfl⟩
        | ok subject =>
          exact .inr ⟨_, _, by simp only [withAuthGate, hby, hblocked, htoken, hver]; rfl,
            .bearer htoken hver⟩
      | none =>
        by_cases hpol : (!hasAuthMaterial r && anonymousPolicyAllows r opts) = true
        · have ⟨hm, ha⟩ := (Bool.and_eq_true _ _).mp hpol
          exact .inr ⟨_, _, by simp only [withAuthGate, hby, hblocked, htoken, hpol]; rfl,
            .anonymousPolicy (by simpa using hm) ha⟩
        by_cases hweb : (!hasAuthMaterial r && isPublicWebsiteRequest r opts) = true
        · have ⟨hm, ha⟩ := (Bool.and_eq_true _ _).mp hweb
          exact .inr ⟨_, _, by simp only [withAuthGate, hby, hblocked, htoken, hpol, hweb]; rfl,
            .publicWebsite (by simpa using hm) ha⟩
        cases hv : opts.verifier with
        | none =>
          exact .inl ⟨_, by simp only [withAuthGate, hby, hblocked, htoken, hpol, hweb, hv]; rfl⟩
        | some verify =>
          rcases hres : verify r with ⟨_ | err, r'⟩
          · exact .inr ⟨_, _,
              by simp only [withAuthGate, hby, hblocked, htoken, hpol, hweb, hv, hres]; rfl,
              .verifier htoken hv hres⟩
          · exact .inl ⟨_,
              by simp only [withAuthGate, hby, hblocked, htoken, hpol, hweb, hv, hres]; rfl⟩

/-- A request admitted through the verifier was accepted by it, and its principal is read from what
the verifier left. -/
theorem accepted_of_admitted {r' : Request}
    (h : (withAuthGate P opts now r).outcome = .admitted .verifier r') :
    ∃ verify r₁, opts.verifier = some verify ∧ verify r = (none, r₁) ∧
      r' = r₁.withPrincipal (extractPrincipalID r₁) := by
  have hcases := @withAuthGate_cases P opts now r
  rcases hcases with ⟨-, h'⟩ | ⟨-, ⟨spec, h'⟩ | ⟨how, r'', h', hgrant⟩⟩
  all_goals
    rw [h] at h'
    cases h'
  cases hgrant with
  | verifier _ verifier_eq verified => exact ⟨_, _, verifier_eq, verified, rfl⟩

end S000
