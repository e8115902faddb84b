import S000.Foundations.Time
import S000.Server.Gate

/-!
# Auth/SigV4 — verification of signed requests

`Verifier.VerifyRequest`: a request is signed by its `Authorization` header or by its query.  The
verifier rebuilds the canonical request from the method, the path, the query and the headers the
requester lists as signed, and compares the signature with the one each secret of the named
credential gives.

Rebuilding the canonical request writes to the request: `Header.Values` returns the live slice, and
the white space of every listed header is normalised in it.  So each function that looks at a listed
header returns the request as it leaves it.
-/

namespace S000.SigV4

open Strings Url

/-! ## Credentials -/

/-- `credentialRecord`, of which verification reads the secrets. -/
structure Credential where
  secret : Bytes
  previousSecret : Bytes := []
  previousSecretUntil : Time := 0
  active : Bool := true

/-- `CredentialStore`. -/
abbrev CredentialStore := AList fun _ : Bytes => Credential

def Credential.secrets (c : Credential) (now : Time) : List Bytes :=
  c.secret ::
    if c.previousSecret ≠ [] ∧ now < c.previousSecretUntil then [c.previousSecret] else []

/-- `resolveSecrets`: the secrets of an active credential. -/
def resolveSecrets (store : CredentialStore) (id : Bytes) (now : Time) :
    Except AuthError (List Bytes) :=
  match store.lookup id with
  | none => .error .invalidAccessKeyID
  | some c => if c.active then .ok (c.secrets now) else .error .accessDenied

/-! ## What the requester states -/

/-- `credentialScope`. -/
structure CredentialScope where
  raw : Bytes
  accessKeyID : Bytes
  date : Bytes
  region : Bytes
  service : Bytes
  terminal : Bytes
deriving DecidableEq

/-- `parseCredentialScope`: five parts, none of them empty. -/
def parseCredentialScope (credential : Bytes) : Option CredentialScope :=
  match split credential 0x2F with
  | [id, date, region, service, terminal] =>
    if id = [] ∨ date = [] ∨ region = [] ∨ service = [] ∨ terminal = [] then none
    else some ⟨join [date, region, service, terminal] (str "/"), id, date, region, service, terminal⟩
  | _ => none

/-- `authHeader`. -/
structure AuthHeader where
  scope : CredentialScope
  signedHeaders : List Bytes
  signature : Bytes
deriving DecidableEq

/-- The fields of an `Authorization` header, in order. -/
def authFields (header : Bytes) : Option (List (Bytes × Bytes)) :=
  if !hasPrefix header (str "AWS4-HMAC-SHA256 ") then none
  else (split (trimPrefix header (str "AWS4-HMAC-SHA256 ")) 0x2C).mapM fun part =>
    cut 0x3D (trimSpace part)

/-- The value of a field: of repeated fields the last one counts, a missing one is empty. -/
def fieldValue (fields : List (Bytes × Bytes)) (name : String) : Bytes :=
  fields.foldl (fun v f => if f.1 = str name then f.2 else v) []

/-- A list of signed headers, which must not start with an empty name. -/
def parseSignedHeaders (s : Bytes) : Option (List Bytes) :=
  let names := split s 0x3B
  if names.headD [] = [] then none else some names

/-- `parseAuthorizationHeader`. -/
def parseAuthorizationHeader (header : Bytes) : Option AuthHeader := do
  let fields ← authFields header
  let scope ← parseCredentialScope (fieldValue fields "Credential")
  let signedHeaders ← parseSignedHeaders (fieldValue fields "SignedHeaders")
  let signature := fieldValue fields "Signature"
  if signature = [] then none else some ⟨scope, signedHeaders, signature⟩

/-! ## The canonical request -/

variable (P : Platform)

/-- `awsEncode`: percent-encoding with the replacements SigV4 asks for. -/
def awsEncode (s : Bytes) : Bytes :=
  replaceAll (replaceAll (replaceAll (queryEscape s) (str "+") (str "%20")) (str "*") (str "%2A"))
    (str "%7E") (str "~")

/-- Pairs are sorted by name, then by value. -/
def pairLE (p q : Bytes × Bytes) : Prop := p.1 < q.1 ∨ p.1 = q.1 ∧ ¬ q.2 < p.2

instance (p q : Bytes × Bytes) : Decidable (pairLE p q) :=
  inferInstanceAs (Decidable (_ ∨ _ ∧ _))

/-- `canonicalQuery`. -/
def canonicalQuery (q : Values) (presigned : Bool) : Bytes :=
  let pairs := q.filter fun p => !(presigned && equalFold p.1 (str "X-Amz-Signature"))
  join ((pairs.insertionSort pairLE).map fun p => awsEncode p.1 ++ str "=" ++ awsEncode p.2) (str "&")

/-- `canonicalURI`. -/
def canonicalURI (u : URL) : Bytes := if u.escapedPath = [] then str "/" else u.escapedPath

def normalizeValue (v : Bytes) : Bytes := join (fields v) (str " ")

def normalizeHeader (r : Request) (name : Bytes) : Request :=
  { r with
    header := r.header.insert (canonicalMIMEHeaderKey name)
      ((r.header.values name).map normalizeValue) }

/-- The value of the `host` header: the host of the request, or of its target. -/
def signedHost (r : Request) : Bytes := trimSpace (if r.host = [] then r.url.host else r.host)

/-- `canonicalHeaderValue`: the value of a signed header, and the request as the call leaves it. -/
def canonicalHeaderValue (r : Request) (name : Bytes) : Option (Bytes × Request) :=
  if name = str "host" then if signedHost r = [] then none else some (signedHost r, r)
  else if r.header.values name = [] then none
  else some (join ((r.header.values name).map normalizeValue) (str ","), normalizeHeader r name)

/-- The canonical header lines, one for each listed name. -/
def canonicalHeaders (r : Request) : List Bytes → Except AuthError (List Bytes) × Request
  | [] => (.ok [], r)
  | name :: names =>
    if name = [] then (.error .invalidRequest, r)
    else match canonicalHeaderValue r name with
      | none => (.error .signatureDoesNotMatch, r)
      | some (value, r) =>
        let (lines, r) := canonicalHeaders r names
        (lines.map ((name ++ str ":" ++ value) :: ·), r)

/-- The listed names as they are signed: trimmed, in lower case, sorted. -/
def normalizedHeaders (signedHeaders : List Bytes) : List Bytes :=
  (signedHeaders.map fun h => P.toLower (trimSpace h)).insertionSort (· ≤ ·)

/-- `buildCanonicalRequest`, and the request as the call leaves it. -/
def buildCanonicalRequest (r : Request) (signedHeaders : List Bytes) (presigned : Bool) :
    Except AuthError Bytes × Request :=
  let names := normalizedHeaders P signedHeaders
  let (lines, r) := canonicalHeaders r names
  (lines.map fun lines =>
    let payloadHash := r.header.get (str "X-Amz-Content-Sha256")
    join [r.method, canonicalURI r.url, canonicalQuery r.query presigned,
      join lines (str "\n") ++ str "\n", join names (str ";"),
      if payloadHash = [] then str "UNSIGNED-PAYLOAD" else payloadHash] (str "\n"), r)

/-- `buildStringToSign`. -/
def buildStringToSign (requestTime : Time) (scope canonicalRequest : Bytes) : Bytes :=
  join [str "AWS4-HMAC-SHA256", Date.formatAmz requestTime, scope,
    Hex.encode (P.sha256 canonicalRequest)] (str "\n")

/-- `signString`. -/
def signString (secret : Bytes) (scope : CredentialScope) (stringToSign : Bytes) : Bytes :=
  let kDate := P.hmacSHA256 (str "AWS4" ++ secret) scope.date
  let kRegion := P.hmacSHA256 kDate scope.region
  let kService := P.hmacSHA256 kRegion scope.service
  let kSigning := P.hmacSHA256 kService scope.terminal
  Hex.encode (P.hmacSHA256 kSigning stringToSign)

/-! ## Verification -/

/-- `Verifier`; `now i` is what the clock shows when it is read for the `i`-th time in a call. -/
structure Verifier where
  store : CredentialStore
  now : ℕ → Time
  maxSkew : ℤ
  service : Bytes
  terminal : Bytes

/-- `NewVerifier`, with its defaults. -/
def newVerifier (store : CredentialStore) (now : ℕ → Time) (maxSkew : ℤ) (service terminal : Bytes) :
    Verifier where
  store
  now
  maxSkew := if maxSkew ≤ 0 then 15 * 60 * 1000000000 else maxSkew
  service := if service = [] then str "s3" else service
  terminal := if terminal = [] then str "aws4_request" else terminal

/-- `skewExceeded`. -/
def Verifier.skewExceeded (v : Verifier) (requestTime : Time) : Bool :=
  let delta := (v.now 0).sub requestTime
  let delta := if delta < 0 then negDuration delta else delta
  v.maxSkew < delta

/-- `strconv.Atoi`. -/
def atoi (s : Bytes) : Option ℤ :=
  let neg := s.head? = some 0x2D
  let ds := if neg ∨ s.head? = some 0x2B then s.drop 1 else s
  if ds = [] ∨ !ds.all fun b => 0x30 ≤ b && b ≤ 0x39 then none
  else
    let n : ℤ := ds.foldl (fun n b => n * 10 + (b.toNat - 0x30)) 0
    let n := if neg then -n else n
    if -2 ^ 63 ≤ n ∧ n < 2 ^ 63 then some n else none

/-- What both forms of a signed request state, and the part they share: the secrets of the named
credential, the canonical request, and the comparison. -/
structure SignatureData where
  requestTime : Time
  scope : CredentialScope
  signedHeaders : List Bytes
  signature : Bytes
  presigned : Bool

/-- The end of `verifyHeaderAuth` and of `verifyPresignedURL`; `reading` is the number of the clock
reading the secrets are resolved at. -/
def Verifier.checkSignature (v : Verifier) (r : Request) (reading : ℕ) (c : SignatureData) :
    Option AuthError × Request :=
  match resolveSecrets v.store c.scope.accessKeyID (v.now reading) with
  | .error e => (some e, r)
  | .ok secrets =>
    match buildCanonicalRequest P r c.signedHeaders c.presigned with
    | (.error e, r) => (some e, r)
    | (.ok canonicalRequest, r) =>
      let toSign := buildStringToSign P c.requestTime c.scope.raw canonicalRequest
      if secrets.any fun secret => signString P secret c.scope toSign = c.signature then (none, r)
      else (some .signatureDoesNotMatch, r)

/-- What `verifyHeaderAuth` reads before it looks for secrets. -/
def Verifier.headerData (v : Verifier) (r : Request) : Except AuthError SignatureData := do
  let authz ← orThrow (parseAuthorizationHeader (r.header.get (str "Authorization"))) .invalidRequest
  let requestTime ← orThrow (Date.parseAmz (r.header.get (str "X-Amz-Date"))) .invalidRequest
  failIf (v.skewExceeded requestTime) .requestTimeTooSkewed
  failIf (authz.scope.service ≠ v.service ∨ authz.scope.terminal ≠ v.terminal) .invalidRequest
  return ⟨requestTime, authz.scope, authz.signedHeaders, authz.signature, false⟩

/-- What `verifyPresignedURL` reads before it looks for secrets. -/
def Verifier.presignedData (v : Verifier) (r : Request) : Except AuthError SignatureData := do
  let q := r.query
  failIf (q.get (str "X-Amz-Algorithm") ≠ str "AWS4-HMAC-SHA256") .invalidRequest
  let requestTime ← orThrow (Date.parseAmz (q.get (str "X-Amz-Date"))) .invalidRequest
  failIf (v.skewExceeded requestTime) .requestTimeTooSkewed
  let expires ← orThrow (atoi (q.get (str "X-Amz-Expires"))) .invalidRequest
  failIf (expires ≤ 0 ∨ 604800 < expires) .invalidRequest
  failIf (requestTime + expires * 1000000000 < v.now 1) .accessDenied
  let scope ← orThrow (parseCredentialScope (q.get (str "X-Amz-Credential"))) .invalidRequest
  failIf (scope.service ≠ v.service ∨ scope.terminal ≠ v.terminal) .invalidRequest
  let signedHeaders ← orThrow (parseSignedHeaders (q.get (str "X-Amz-SignedHeaders"))) .invalidRequest
  let signature := q.get (str "X-Amz-Signature")
  failIf (signature = []) .invalidRequest
  return ⟨requestTime, scope, signedHeaders, signature, true⟩

/-- What a request states about its signature: by its header if it has one, else by its query. -/
def Verifier.signatureData (v : Verifier) (r : Request) : Except AuthError SignatureData :=
  if r.header.get (str "Authorization") ≠ [] then v.headerData r
  else if r.query.get (str "X-Amz-Algorithm") ≠ [] then v.presignedData r
  else .error .missingAuthenticationToken

/-- `(*Verifier).VerifyRequest`: the error, and the request as the call leaves it. -/
def Verifier.verifyRequest (v : Verifier) : RequestVerifier := fun r =>
  match v.signatureData r with
  | .error e => (some e, r)
  | .ok c => v.checkSignature P r (if c.presigned then 2 else 1) c

/-! ### What an accepted request went through -/

variable {P} {v : Verifier} {r r' : Request} {c : SignatureData}

theorem headerData_ok (h : v.headerData r = .ok c) : ∃ authz requestTime,
    parseAuthorizationHeader (r.header.get (str "Authorization")) = some authz ∧
    Date.parseAmz (r.header.get (str "X-Amz-Date")) = some requestTime ∧
    c = ⟨requestTime, authz.scope, authz.signedHeaders, authz.signature, false⟩ := by
  simp only [Verifier.headerData, orThrow_bind_eq_ok, failIf_bind_eq_ok, pure_eq_ok] at h
  obtain ⟨authz, ha, requestTime, ht, -, -, rfl⟩ := h
  exact ⟨authz, requestTime, ha, ht, rfl⟩

theorem presignedData_ok (h : v.presignedData r = .ok c) : ∃ scope signedHeaders requestTime,
    parseCredentialScope (r.query.get (str "X-Amz-Credential")) = some scope ∧
    parseSignedHeaders (r.query.get (str "X-Amz-SignedHeaders")) = some signedHeaders ∧
    c = ⟨requestTime, scope, signedHeaders, r.query.get (str "X-Amz-Signature"), true⟩ := by
  simp only [Verifier.presignedData, orThrow_bind_eq_ok, failIf_bind_eq_ok, pure_eq_ok] at h
  obtain ⟨-, requestTime, -, -, expires, -, -, -, scope, hs, -, signedHeaders, hh, -, rfl⟩ := h
  exact ⟨scope, signedHeaders, requestTime, hs, hh, rfl⟩

/-- **A secret of the named credential signed an accepted request**: what the request states, the
canonical request rebuilt from it, and the secret that gives its signature. -/
structure SignedBy (P : Platform) (v : Verifier) (r r' : Request) (c : SignatureData)
    (secrets : List Bytes) (secret canonicalRequest : Bytes) : Prop where
  data : v.signatureData r = .ok c
  resolved : resolveSecrets v.store c.scope.accessKeyID
    (v.now (if c.presigned then 2 else 1)) = .ok secrets
  built : buildCanonicalRequest P r c.signedHeaders c.presigned = (.ok canonicalRequest, r')
  mem : secret ∈ secrets
  signed : signString P secret c.scope
    (buildStringToSign P c.requestTime c.scope.raw canonicalRequest) = c.signature

theorem signedBy_of_accepted (h : v.verifyRequest P r = (none, r')) :
    ∃ c secrets secret canonicalRequest, SignedBy P v r r' c secrets secret canonicalRequest := by
  unfold Verifier.verifyRequest at h
  cases hc : v.signatureData r with
  | error e => simp [hc] at h
  | ok c =>
    simp only [hc, Verifier.checkSignature] at h
    cases hs : resolveSecrets v.store c.scope.accessKeyID (v.now (if c.presigned then 2 else 1)) with
    | error e => simp [hs] at h
    | ok secrets =>
      rcases hb : buildCanonicalRequest P r c.signedHeaders c.presigned with ⟨_ | canonical, r₁⟩
      · simp [hs, hb] at h
      simp only [hs, hb] at h
      split_ifs at h with hany
      · obtain rfl := (Prod.mk.inj h).2
        obtain ⟨secret, hmem, hsig⟩ := List.any_eq_true.1 hany
        exact ⟨c, secrets, secret, canonical, hc, hs, hb, hmem, by simpa using hsig⟩
      · simp at h

end S000.SigV4
