import S000.Auth.SigV4
import S000.Foundations.Calendar
import S000.Foundations.Lex
import S000.Foundations.Query
import S000.Foundations.Sha256

/-!
# Auth/Presign — URLs that carry their signature

`PresignRequest` writes into the query of a request who signs it, when, and for how long, and then
the signature of what it has written.  The verifier reads all of this back (`Presigned`): it finds
the canonical request the signer signed, since the signature itself is not part of it.

What is left are the checks of time.  A URL is good until its expiry, and not a moment longer; but
the verifier also holds the time of signing against its clock, as it does with a header.  So **a URL
is accepted until it expires exactly when its lifetime is within the clock skew**
(`acceptedUntil_iff`): with the default skew of fifteen minutes a URL for an hour is refused from
the sixteenth minute on.
-/

namespace S000.SigV4

open Strings Url List Strconv Date Values Verifier

/-! ## The signer -/

/-- `PresignOptions`; `now` is what the clock shows. -/
structure PresignOptions where
  now : Time
  region : Bytes := []
  service : Bytes := []
  terminal : Bytes := []
  /-- A duration, in nanoseconds. -/
  expires : ℤ := 0

/-- An error of `PresignRequest`: one of its own, or one of the canonical request. -/
inductive PresignError where
  | message (text : String)
  | auth (e : AuthError)
deriving DecidableEq

/-- `maxPresignExpiry`, seven days. -/
def maxPresignExpiry : ℤ := 7 * 24 * 3600 * 1000000000

/-- An option without the white space around it, or its default. -/
def optionOr (option : Bytes) (default : String) : Bytes :=
  if trimSpace option = [] then str default else trimSpace option

namespace PresignOptions

variable (opts : PresignOptions)

def regionName : Bytes := optionOr opts.region "us-east-1"

def serviceName : Bytes := optionOr opts.service "s3"

def terminalName : Bytes := optionOr opts.terminal "aws4_request"

/-- How long the signature is to last: fifteen minutes when nothing is said. -/
def lifetime : ℤ := if opts.expires = 0 then 15 * 60 * 1000000000 else opts.expires

def scope (accessKeyID : Bytes) : CredentialScope where
  raw := join [formatDay opts.now, opts.regionName, opts.serviceName, opts.terminalName]
    (str "/")
  accessKeyID
  date := formatDay opts.now
  region := opts.regionName
  service := opts.serviceName
  terminal := opts.terminalName

def signedQuery (accessKeyID : Bytes) (q : Values) : Values :=
  let q := q.set (str "X-Amz-Algorithm") (str "AWS4-HMAC-SHA256")
  let q := q.set (str "X-Amz-Credential") (accessKeyID ++ str "/" ++ (opts.scope accessKeyID).raw)
  let q := q.set (str "X-Amz-Date") (formatAmz opts.now)
  let q := q.set (str "X-Amz-Expires") (itoa (opts.lifetime / 1000000000))
  let q := q.set (str "X-Amz-SignedHeaders") (str "host")
  q.del (str "X-Amz-Signature")

end PresignOptions

def withQuery (r : Request) (q : Values) : Request :=
  { r with url := { r.url with rawQuery := q.encode } }

theorem header_withQuery (r : Request) (q : Values) : (withQuery r q).header = r.header := rfl

theorem withQuery_withQuery (r : Request) (q q' : Values) :
    withQuery (withQuery r q) q' = withQuery r q' := rfl

/-- `PresignRequest`: the request it leaves when it succeeds. -/
def presignRequest (P : Platform) (r : Request) (accessKeyID secretAccessKey : Bytes)
    (opts : PresignOptions) : Except PresignError Request := do
  failIf (trimSpace r.method = []) (.message "request method is required")
  failIf (trimSpace accessKeyID = []) (.message "access key id is required")
  failIf (trimSpace secretAccessKey = []) (.message "secret access key is required")
  failIf (opts.lifetime ≤ 0 ∨ maxPresignExpiry < opts.lifetime)
    (.message "expires must be between 1s and 168h0m0s")
  let r := withQuery r (opts.signedQuery accessKeyID r.query)
  match buildCanonicalRequest P r [str "host"] true with
  | (.error e, _) => .error (.auth e)
  | (.ok canonicalRequest, r) =>
    let scope := opts.scope accessKeyID
    let toSign := buildStringToSign P opts.now scope.raw canonicalRequest
    let signature := signString P secretAccessKey scope toSign
    return withQuery r (r.query.set (str "X-Amz-Signature") signature)

/-! ## What the verifier reads back -/

section Canonical

variable {P : Platform} {r : Request}

theorem pairLE_iff {p q : Bytes × Bytes} : pairLE p q ↔ p.1 < q.1 ∨ p.1 = q.1 ∧ ¬ q.2 < p.2 := .rfl

instance : Std.Antisymm pairLE where
  antisymm p q h h' := by
    rcases pairLE_iff.1 h with h | ⟨h, hle⟩ <;> rcases pairLE_iff.1 h' with h' | ⟨h', hle'⟩
    · exact absurd h' (lt_asymm h)
    · exact absurd h (by simp [h'])
    · exact absurd h' (by simp [h])
    · exact Prod.ext h (le_antisymm (not_lt.1 hle) (not_lt.1 hle'))

instance : Std.Total pairLE where
  total p q := by
    rcases lt_trichotomy p.1 q.1 with h | h | h
    · exact .inl (.inl h)
    · rcases lt_or_ge q.2 p.2 with hlt | hge
      · exact .inr (pairLE_iff.2 (.inr ⟨h.symm, lt_asymm hlt⟩))
      · exact .inl (pairLE_iff.2 (.inr ⟨h, not_lt.2 hge⟩))
    · exact .inr (.inl h)

instance : IsTrans (Bytes × Bytes) pairLE where
  trans p q s h h' := by
    rcases pairLE_iff.1 h with h | ⟨h, hle⟩ <;> rcases pairLE_iff.1 h' with h' | ⟨h', hle'⟩
    · exact .inl (h.trans h')
    · exact .inl (h' ▸ h)
    · exact .inl (h ▸ h')
    · refine pairLE_iff.2 (.inr ⟨h.trans h', not_lt.2 ?_⟩)
      exact (not_lt.1 hle).trans (not_lt.1 hle')

variable {q q' : Values}

/-- **The canonical query does not depend on the order of a query, nor on its signature.** -/
theorem canonicalQuery_congr {presigned : Bool}
    (h : (q.filter fun p => !(presigned && equalFold p.1 (str "X-Amz-Signature"))).Perm
      (q'.filter fun p => !(presigned && equalFold p.1 (str "X-Amz-Signature")))) :
    canonicalQuery q presigned = canonicalQuery q' presigned := by
  have hsorted := ((perm_insertionSort pairLE _).trans
    (h.trans (perm_insertionSort pairLE _).symm)).eq_of_pairwise'
    (pairwise_insertionSort pairLE _) (pairwise_insertionSort pairLE _)
  simp only [canonicalQuery, hsorted]

theorem query_withQuery (hq : q ≠ []) : (withQuery r q).query = q.sorted := query_encode hq rfl

/-- **The signature is not signed**: with it, a query has the canonical query it has without. -/
theorem canonicalQuery_signature (q : Values) (signature : Bytes) :
    canonicalQuery (withQuery r (q.set (str "X-Amz-Signature") signature)).query true =
      canonicalQuery q true := by
  refine canonicalQuery_congr ?_
  rw [query_withQuery (set_ne_nil _ _ _)]
  refine ((sorted_perm _).filter _).trans ?_
  have hself : equalFold (str "X-Amz-Signature") (str "X-Amz-Signature") = true := by decide
  rw [Values.set, filter_append, filter_filter]
  simp only [Bool.true_and, filter_cons, hself, Bool.not_true, filter_nil,
    append_nil, Bool.false_eq_true, if_false]
  refine .of_eq (filter_congr fun p _ => ?_)
  by_cases hp : p.1 = str "X-Amz-Signature"
  · simp [hp, hself]
  · simp [hp]

/-- The canonical request over the host alone, which leaves the request as it is. -/
theorem buildCanonicalRequest_host (P : Platform) (r : Request) (presigned : Bool) :
    buildCanonicalRequest P r [str "host"] presigned =
      (if signedHost r = [] then .error .signatureDoesNotMatch
       else .ok (join [r.method, canonicalURI r.url, canonicalQuery r.query presigned,
        str "host:" ++ signedHost r ++ str "\n", str "host",
        if r.header.get (str "X-Amz-Content-Sha256") = [] then str "UNSIGNED-PAYLOAD"
        else r.header.get (str "X-Amz-Content-Sha256")] (str "\n")), r) := by
  have hnames : normalizedHeaders P [str "host"] = [str "host"] := rfl
  have hlines : canonicalHeaders r [str "host"] =
      (if signedHost r = [] then .error .signatureDoesNotMatch
       else .ok [str "host:" ++ signedHost r], r) := by
    rw [canonicalHeaders, if_neg (by decide), canonicalHeaderValue, if_pos rfl]
    split_ifs <;> rfl
  have hone (x sep : Bytes) : join [x] sep = x := by simp [join]
  unfold buildCanonicalRequest
  rw [hnames]
  simp only [hlines]
  by_cases hhost : signedHost r = []
  · rw [if_pos hhost, if_pos hhost]
    rfl
  · rw [if_neg hhost, if_neg hhost]
    simp only [Except.map, hone]

/-- Of a query the canonical request has the canonical query. -/
theorem buildCanonicalRequest_congr {presigned : Bool}
    (h : canonicalQuery (withQuery r q).query presigned =
      canonicalQuery (withQuery r q').query presigned) :
    (buildCanonicalRequest P (withQuery r q) [str "host"] presigned).1 =
      (buildCanonicalRequest P (withQuery r q') [str "host"] presigned).1 := by
  rw [buildCanonicalRequest_host, buildCanonicalRequest_host, h]
  rfl

end Canonical

section SignedQuery

variable (opts : PresignOptions) (id : Bytes) (q : Values)

theorem signedQuery_ne_nil : opts.signedQuery id q ≠ [] := by
  intro h
  have halgorithm : (opts.signedQuery id q).Has (str "X-Amz-SignedHeaders") (str "host") :=
    (Has.set_self _ _ _).del (by decide)
  rw [h] at halgorithm
  cases halgorithm

/-- Each parameter has the one value the signer gives it. -/
theorem signedQuery_has : (opts.signedQuery id q).Has (str "X-Amz-Algorithm") (str "AWS4-HMAC-SHA256") ∧
    (opts.signedQuery id q).Has (str "X-Amz-Credential") (id ++ str "/" ++ (opts.scope id).raw) ∧
    (opts.signedQuery id q).Has (str "X-Amz-Date") (formatAmz opts.now) ∧
    (opts.signedQuery id q).Has (str "X-Amz-Expires") (itoa (opts.lifetime / 1000000000)) ∧
    (opts.signedQuery id q).Has (str "X-Amz-SignedHeaders") (str "host") := by
  refine ⟨?_, ?_, ?_, ?_, ?_⟩
  · exact ((((Has.set_self _ _ _).set (by decide)).set (by decide)).set (by decide)).set
      (by decide) |>.del (by decide)
  · exact (((Has.set_self _ _ _).set (by decide)).set (by decide)).set (by decide)
      |>.del (by decide)
  · exact ((Has.set_self _ _ _).set (by decide)).set (by decide) |>.del (by decide)
  · exact (Has.set_self _ _ _).set (by decide) |>.del (by decide)
  · exact (Has.set_self _ _ _).del (by decide)

end SignedQuery

theorem get_withSignature (r : Request) {q : Values} {name value : Bytes} (signature : Bytes)
    (hne : name ≠ str "X-Amz-Signature") (hvalue : q.Has name value) (hq : q ≠ []) :
    (withQuery r ((withQuery r q).query.set (str "X-Amz-Signature") signature)).query.get name
      = value := by
  rw [query_withQuery (set_ne_nil _ _ _), query_withQuery hq]
  exact (((hvalue.perm (sorted_perm _).symm).set hne).perm (sorted_perm _).symm).get

/-- **What the verifier reads in a presigned request**: what the signer wrote, and a signature of
the canonical request the verifier builds. -/
structure Presigned (P : Platform) (r r' : Request) (id secret : Bytes) (opts : PresignOptions) :
    Prop where
  id_ne_nil : id ≠ []
  lifetime_le : opts.lifetime ≤ maxPresignExpiry
  header : r'.header = r.header
  algorithm : r'.query.get (str "X-Amz-Algorithm") = str "AWS4-HMAC-SHA256"
  credential : r'.query.get (str "X-Amz-Credential") = id ++ str "/" ++ (opts.scope id).raw
  date : r'.query.get (str "X-Amz-Date") = formatAmz opts.now
  expires : r'.query.get (str "X-Amz-Expires") = itoa (opts.lifetime / 1000000000)
  signedHeaders : r'.query.get (str "X-Amz-SignedHeaders") = str "host"
  signature : ∃ canonicalRequest,
    buildCanonicalRequest P r' [str "host"] true = (.ok canonicalRequest, r') ∧
    r'.query.get (str "X-Amz-Signature") = signString P secret (opts.scope id)
      (buildStringToSign P opts.now (opts.scope id).raw canonicalRequest)

variable {P : Platform} {r : Request}

theorem presigned_of_presignRequest {r' : Request} {id secret : Bytes} {opts : PresignOptions}
    (h : presignRequest P r id secret opts = .ok r') :
    Presigned P r r' id secret opts := by
  simp only [presignRequest, failIf_bind_eq_ok] at h
  obtain ⟨-, hid, -, hlife, h⟩ := h
  split at h
  · cases h
  next canonicalRequest r₁ heq =>
  have hsame := congrArg Prod.snd (buildCanonicalRequest_host P
    (withQuery r (opts.signedQuery id r.query)) true)
  rw [heq] at hsame
  dsimp only at hsame
  rw [pure_eq_ok, hsame, withQuery_withQuery] at h
  obtain ⟨halgorithm, hcredential, hdate, hexpires, hheaders⟩ := signedQuery_has opts id r.query
  have hread {name value : Bytes} (hne : name ≠ str "X-Amz-Signature")
      (hvalue : (opts.signedQuery id r.query).Has name value) : r'.query.get name = value := by
    rw [← h]
    exact get_withSignature r _ hne hvalue (signedQuery_ne_nil opts id r.query)
  refine
    { id_ne_nil := fun hnil => hid (by rw [hnil]; rfl)
      lifetime_le := not_lt.1 (not_or.1 hlife).2
      header := by rw [← h, header_withQuery]
      algorithm := hread (by decide) halgorithm
      credential := hread (by decide) hcredential
      date := hread (by decide) hdate
      expires := hread (by decide) hexpires
      signedHeaders := hread (by decide) hheaders
      signature := ⟨canonicalRequest, ?_, ?_⟩ }
  · have hcanonical := buildCanonicalRequest_congr (P := P) (canonicalQuery_signature (r := r)
      (withQuery r (opts.signedQuery id r.query)).query (signString P secret (opts.scope id)
        (buildStringToSign P opts.now (opts.scope id).raw canonicalRequest)))
    rw [h, heq] at hcanonical
    refine Prod.ext hcanonical ?_
    rw [buildCanonicalRequest_host]
  · rw [← h, query_withQuery (set_ne_nil _ _ _)]
    exact ((Has.set_self _ _ _).perm (sorted_perm _).symm).get

/-! ### The scope -/

theorem optionOr_ne_nil {option : Bytes} {default : String} (h : str default ≠ []) :
    optionOr option default ≠ [] := by
  unfold optionOr
  split_ifs with hempty
  · exact h
  · exact hempty

theorem slash_not_mem_optionOr {option : Bytes} {default : String} (ho : 0x2F ∉ option)
    (hd : 0x2F ∉ str default) : 0x2F ∉ optionOr option default := by
  unfold optionOr
  split_ifs
  · exact hd
  · exact fun h => ho ((trimSpace_isInfix option).subset h)

theorem slash_not_mem_formatDay (t : Time) : 0x2F ∉ formatDay t := by
  have hslash : (digit 0x2F).isSome = false := rfl
  have hpad (w n : ℕ) : 0x2F ∉ pad w n := fun h => by simpa [hslash] using digit_pad w n _ h
  have hitoa (n : ℕ) : 0x2F ∉ itoa n := fun h => by simpa [hslash] using digit_itoa n _ h
  simp only [formatDay, printYear, mem_append, not_or]
  refine ⟨⟨⟨?_, ?_⟩, hpad _ _⟩, hpad _ _⟩
  · split_ifs <;> decide
  split_ifs
  · exact hpad _ _
  · exact hitoa _

theorem formatDay_ne_nil (t : Time) : formatDay t ≠ [] := by simp [formatDay, pad]

section Scope

variable {opts : PresignOptions} {id : Bytes}

theorem credential_eq_join : id ++ str "/" ++ (opts.scope id).raw =
    join [id, formatDay opts.now, opts.regionName, opts.serviceName, opts.terminalName] (str "/") := by
  simp [PresignOptions.scope, join]

/-- **The scope is read back** when none of its parts has a slash … -/
theorem parseCredentialScope_scope (hne : id ≠ []) (hid : 0x2F ∉ id)
    (hregion : 0x2F ∉ opts.regionName) (hservice : 0x2F ∉ opts.serviceName)
    (hterminal : 0x2F ∉ opts.terminalName) :
    parseCredentialScope (id ++ str "/" ++ (opts.scope id).raw) = some (opts.scope id) := by
  have hsplit : split (id ++ str "/" ++ (opts.scope id).raw) 0x2F =
      [id, formatDay opts.now, opts.regionName, opts.serviceName, opts.terminalName] := by
    rw [credential_eq_join]
    refine splitOn_intercalate 0x2F ?_ (by simp)
    simp only [mem_cons, not_mem_nil, or_false, forall_eq_or_imp, forall_eq]
    exact ⟨hid, slash_not_mem_formatDay _, hregion, hservice, hterminal⟩
  have hparts : ¬ (id = [] ∨ formatDay opts.now = [] ∨ opts.regionName = [] ∨
      opts.serviceName = [] ∨ opts.terminalName = []) := by
    simp only [not_or]
    exact ⟨hne, formatDay_ne_nil _, optionOr_ne_nil (by decide), optionOr_ne_nil (by decide),
      optionOr_ne_nil (by decide)⟩
  simp only [parseCredentialScope, hsplit, if_neg hparts]
  rfl

theorem count_join_five (a b c d e : Bytes) : (join [a, b, c, d, e] (str "/")).count 0x2F =
    a.count 0x2F + b.count 0x2F + c.count 0x2F + d.count 0x2F + e.count 0x2F + 4 := by
  have hsep : (str "/").count 0x2F = 1 := rfl
  simp only [join, intercalate, intersperse, flatten_cons, flatten_nil, count_append, count_nil]
  omega

variable {scope : CredentialScope}

/-- **… and only then**: a slash in a part makes one part more. -/
theorem slash_of_parseCredentialScope
    (h : parseCredentialScope (id ++ str "/" ++ (opts.scope id).raw) = some scope) :
    0x2F ∉ opts.serviceName ∧ 0x2F ∉ opts.terminalName := by
  unfold parseCredentialScope at h
  split at h
  · next a b c d e hsplit =>
    -- both ways of writing the credential have four slashes between the parts
    have hpieces (p : Bytes) (hp : p ∈ [a, b, c, d, e]) : p.count 0x2F = 0 :=
      count_eq_zero.2 (mem_split (hsplit ▸ hp)).1
    have hwritten : join [a, b, c, d, e] (str "/") = id ++ str "/" ++ (opts.scope id).raw := by
      rw [← hsplit]
      exact intercalate_splitOn 0x2F
    rw [credential_eq_join] at hwritten
    have hcount := congrArg (count 0x2F) hwritten
    rw [count_join_five, count_join_five, hpieces a (by simp), hpieces b (by simp),
      hpieces c (by simp), hpieces d (by simp), hpieces e (by simp)] at hcount
    exact ⟨count_eq_zero.1 (by omega), count_eq_zero.1 (by omega)⟩
  · cases h

end Scope

/-! ## Time -/

theorem atoi_itoa {n : ℕ} (h : n < 2 ^ 63) : atoi (itoa n) = some n := by
  have hdigits : (itoa n).all (fun b => 0x30 ≤ b && b ≤ 0x39) = true := by
    rw [all_eq_true]
    intro b hb
    simpa using mem_itoa hb
  have hhead (c : UInt8) (hc : c < 0x30) : (itoa n).head? ≠ some c := by
    intro e
    have := (mem_itoa (mem_of_head? e)).1
    exact absurd hc (not_lt.2 this)
  have hminus := hhead 0x2D (by decide)
  have hplus := hhead 0x2B (by decide)
  have hne := itoa_ne_nil n
  unfold atoi
  simp only [hminus, hplus, or_false, if_false, hne, hdigits, foldl_itoa]
  simp
  omega

theorem unix_trunc (t : Time) : Time.unix (t.unix * 1000000000) = t.unix :=
  Int.mul_ediv_cancel _ (by decide)

theorem formatAmz_trunc (t : Time) : formatAmz (t.unix * 1000000000) = formatAmz t := by
  simp only [formatAmz, unix_trunc]

theorem sub_of_le {t u : ℤ} (h : u ≤ t) (h' : t - u < 2 ^ 63) : Time.sub t u = t - u := by
  unfold Time.sub minDuration
  omega

namespace PresignOptions

variable (opts : PresignOptions)

/-- The time of signing in whole seconds, which is what the URL states. -/
def signedAt : Time := opts.now.unix * 1000000000

/-- When the URL expires: after the whole seconds of its lifetime. -/
def deadline : Time := opts.signedAt + opts.lifetime / 1000000000 * 1000000000

/-- A verifier for the service and the terminal of the URL, at a time. -/
def verifier (store : CredentialStore) (maxSkew : ℤ) (t : Time) : Verifier :=
  newVerifier store (fun _ => t) maxSkew opts.serviceName opts.terminalName

theorem verifier_service (store : CredentialStore) (maxSkew : ℤ) (t : Time) :
    (opts.verifier store maxSkew t).service = opts.serviceName :=
  if_neg (optionOr_ne_nil (by decide))

theorem verifier_terminal (store : CredentialStore) (maxSkew : ℤ) (t : Time) :
    (opts.verifier store maxSkew t).terminal = opts.terminalName :=
  if_neg (optionOr_ne_nil (by decide))

end PresignOptions

def Verifier.Accepts (P : Platform) (v : Verifier) (r : Request) : Prop :=
  (v.verifyRequest P r).1 = none

theorem presignedData_eq_ok_iff {v : Verifier} {c : SignatureData} :
    v.presignedData r = .ok c ↔ r.query.get (str "X-Amz-Algorithm") = str "AWS4-HMAC-SHA256" ∧
      ∃ requestTime, parseAmz (r.query.get (str "X-Amz-Date")) = some requestTime ∧
      v.skewExceeded requestTime = false ∧
      ∃ expires, atoi (r.query.get (str "X-Amz-Expires")) = some expires ∧
      (0 < expires ∧ expires ≤ 604800) ∧ v.now 1 ≤ requestTime + expires * 1000000000 ∧
      ∃ scope, parseCredentialScope (r.query.get (str "X-Amz-Credential")) = some scope ∧
      (scope.service = v.service ∧ scope.terminal = v.terminal) ∧
      ∃ signedHeaders,
        parseSignedHeaders (r.query.get (str "X-Amz-SignedHeaders")) = some signedHeaders ∧
      r.query.get (str "X-Amz-Signature") ≠ [] ∧
      c = ⟨requestTime, scope, signedHeaders, r.query.get (str "X-Amz-Signature"), true⟩ := by
  simp only [presignedData, orThrow_bind_eq_ok, failIf_bind_eq_ok, pure_eq_ok, not_or,
    not_not, not_le, not_lt, Bool.not_eq_true, eq_comm (b := c)]

theorem signString_ne_nil (hsha : ∀ x, P.sha256 x ≠ []) {secret : Bytes}
    {toSign : Bytes} : signString P secret scope toSign ≠ [] := by
  unfold signString Platform.hmacSHA256
  dsimp only
  generalize hx : P.sha256 _ = x
  rcases x with _ | ⟨b, x⟩
  · exact absurd hx (hsha _)
  · rw [Hex.encode_cons]
    simp

section Accepted

variable {P : Platform} {r r' : Request} {id : Bytes} {c : Credential} {opts : PresignOptions}
  {store : CredentialStore} {maxSkew : ℤ} {t : Time}

/-- **What a verifier asks of a presigned request that is not signed by its header.** -/
theorem Presigned.accepts_iff (maxSkew : ℤ) (t : Time) (hsha : ∀ x, P.sha256 x ≠ [])
    (h : Presigned P r r' id c.secret opts) (hauth : r.header.get (str "Authorization") = [])
    (hstored : store.lookup id = some c) (hactive : c.active = true) (hid : 0x2F ∉ id)
    (hregion : 0x2F ∉ opts.regionName) (hmin : 1000000000 ≤ opts.lifetime) :
    (opts.verifier store maxSkew t).Accepts P r' ↔
      (0 ≤ (ofDays (opts.now.unix / 86400)).1 ∧ (ofDays (opts.now.unix / 86400)).1 ≤ 9999) ∧
      (opts.verifier store maxSkew t).skewExceeded opts.signedAt = false ∧ t ≤ opts.deadline ∧
      0x2F ∉ opts.serviceName ∧ 0x2F ∉ opts.terminalName := by
  obtain ⟨canonicalRequest, hbuilt, hsignature⟩ := h.signature
  obtain ⟨n, hn⟩ := Int.eq_ofNat_of_zero_le (by omega : 0 ≤ opts.lifetime / 1000000000)
  have hmax : opts.lifetime ≤ 604800000000000 := h.lifetime_le
  have hexpires : atoi (r'.query.get (str "X-Amz-Expires")) = some (n : ℤ) := by
    rw [h.expires, hn]
    exact atoi_itoa (by omega)
  have hne : r'.query.get (str "X-Amz-Signature") ≠ [] := by
    rw [hsignature]
    exact signString_ne_nil hsha
  have hheaders : parseSignedHeaders (r'.query.get (str "X-Amz-SignedHeaders"))
      = some [str "host"] := by
    rw [h.signedHeaders]
    rfl
  have hdeadline : opts.deadline = opts.signedAt + n * 1000000000 := by rw [PresignOptions.deadline, hn]
  have hpath : (opts.verifier store maxSkew t).signatureData r' =
      (opts.verifier store maxSkew t).presignedData r' := by
    rw [signatureData, h.header, hauth, if_neg (by simp), h.algorithm, if_pos (by decide)]
  constructor
  · intro haccepted
    have hverified : (opts.verifier store maxSkew t).verifyRequest P r' =
        (none, ((opts.verifier store maxSkew t).verifyRequest P r').2) := Prod.ext haccepted rfl
    obtain ⟨c', secrets, secret, canonical, hsigned⟩ := signedBy_of_accepted hverified
    have hdata := hsigned.data
    rw [hpath] at hdata
    obtain ⟨-, requestTime, hdate, hskew, expires, hexpires', -, hle, scope, hscope, -⟩ :=
      presignedData_eq_ok_iff.1 hdata
    rw [h.date] at hdate
    rw [h.credential] at hscope
    have hyear : 0 ≤ (ofDays (opts.now.unix / 86400)).1 ∧
        (ofDays (opts.now.unix / 86400)).1 ≤ 9999 := by
      by_contra hyear
      rw [parseAmz_formatAmz_eq_none hyear] at hdate
      cases hdate
    rw [parseAmz_formatAmz hyear.1 hyear.2] at hdate
    cases hdate
    obtain rfl := Option.some.inj (hexpires.symm.trans hexpires')
    exact ⟨hyear, hskew, hdeadline ▸ hle, slash_of_parseCredentialScope hscope⟩
  · rintro ⟨hyear, hskew, hle, hservice, hterminal⟩
    have hdata : (opts.verifier store maxSkew t).presignedData r' =
        .ok ⟨opts.signedAt, opts.scope id, [str "host"],
          r'.query.get (str "X-Amz-Signature"), true⟩ := by
      refine presignedData_eq_ok_iff.2 ⟨h.algorithm, opts.signedAt, ?_, hskew, n, hexpires,
        ⟨by omega, by omega⟩, ?_, opts.scope id, ?_, ⟨?_, ?_⟩, [str "host"], hheaders, hne, rfl⟩
      · rw [h.date]
        exact parseAmz_formatAmz hyear.1 hyear.2
      · exact hdeadline ▸ hle
      · rw [h.credential]
        exact parseCredentialScope_scope h.id_ne_nil hid hregion hservice hterminal
      · exact (opts.verifier_service store maxSkew t).symm
      · exact (opts.verifier_terminal store maxSkew t).symm
    have hsecrets : resolveSecrets (opts.verifier store maxSkew t).store id t = .ok (c.secrets t) := by
      have hstore : (opts.verifier store maxSkew t).store = store := rfl
      rw [resolveSecrets, hstore, hstored]
      exact if_pos hactive
    have hmatch : (c.secrets t).any (fun secret => decide (signString P secret (opts.scope id)
        (buildStringToSign P opts.signedAt (opts.scope id).raw canonicalRequest) =
          r'.query.get (str "X-Amz-Signature"))) = true := by
      refine any_eq_true.2 ⟨c.secret, mem_cons_self, ?_⟩
      rw [hsignature]
      simp only [buildStringToSign, PresignOptions.signedAt, formatAmz_trunc, decide_true]
    have hnow : (opts.verifier store maxSkew t).now 2 = t := rfl
    have hkey : (opts.scope id).accessKeyID = id := rfl
    simp only [Verifier.Accepts, verifyRequest, hpath, hdata, checkSignature,
      if_true, hnow, hkey, hsecrets, hbuilt, hmatch]

theorem skewExceeded_iff (hskew : 0 < maxSkew) (hlife : opts.lifetime ≤ maxPresignExpiry)
    (hle : opts.signedAt ≤ t) (hle' : t ≤ opts.deadline) :
    (opts.verifier store maxSkew t).skewExceeded opts.signedAt = false ↔
      t - opts.signedAt ≤ maxSkew := by
  have hmax : opts.lifetime ≤ 604800000000000 := hlife
  have hdelta : @LE.le ℤ _ (t - opts.signedAt) (opts.lifetime / 1000000000 * 1000000000) :=
    sub_left_le_of_le_add hle'
  have hpos : ¬ @LT.lt ℤ _ (t - opts.signedAt) 0 := not_lt.2 (sub_nonneg_of_le hle)
  have hbound : (opts.verifier store maxSkew t).maxSkew = maxSkew := if_neg (by omega)
  have hsub : .sub t opts.signedAt = t - opts.signedAt := sub_of_le hle (by omega)
  have hnow : (opts.verifier store maxSkew t).now 0 = t := rfl
  simp only [skewExceeded, hbound, hnow, hsub, if_neg hpos, decide_eq_false_iff_not, not_lt]

end Accepted

/-! ## Until the URL expires -/

/-- A signature that can be checked, and lasts no longer than the skew the verifier allows. -/
structure PresignOptions.Lasting (opts : PresignOptions) (maxSkew : ℤ) : Prop where
  lifetime : opts.lifetime / 1000000000 * 1000000000 ≤ maxSkew
  year : 0 ≤ (ofDays (opts.now.unix / 86400)).1 ∧
    (ofDays (opts.now.unix / 86400)).1 ≤ 9999
  service : 0x2F ∉ opts.serviceName
  terminal : 0x2F ∉ opts.terminalName

/-- The verifier accepts the signature in the `Authorization` header. -/
def Verifier.AcceptsHeader (P : Platform) (v : Verifier) (r : Request) : Prop :=
  ∃ d, v.headerData r = .ok d ∧ (v.checkSignature P r 1 d).1 = none

/-- A request with an `Authorization` header is judged by its header, presigned or not. -/
theorem accepts_iff_acceptsHeader {v : Verifier} (h : r.header.get (str "Authorization") ≠ []) :
    v.Accepts P r ↔ v.AcceptsHeader P r := by
  have hpath : v.signatureData r = v.headerData r := if_pos h
  unfold Verifier.Accepts verifyRequest AcceptsHeader
  rw [hpath]
  cases hdata : v.headerData r with
  | error e => simp
  | ok d =>
    obtain ⟨authz, requestTime, -, -, rfl⟩ := headerData_ok hdata
    simp

variable {P : Platform} {r r' : Request} {id : Bytes} {c : Credential} {opts : PresignOptions}
  {store : CredentialStore} {maxSkew : ℤ}

/-- **A presigned URL is accepted until it expires, and rejected from then on, exactly when its
lifetime is within the clock skew.**  A request that also has an `Authorization` header is judged by
that header. -/
theorem acceptedUntil_iff (hsha : ∀ x, P.sha256 x ≠ []) (hstored : store.lookup id = some c)
    (hactive : c.active = true) (hid : 0x2F ∉ id) (hregion : 0x2F ∉ opts.region)
    (hmin : 1000000000 ≤ opts.lifetime) (hskew : 0 < maxSkew)
    (h : presignRequest P r id c.secret opts = .ok r') :
    (∀ t, opts.now ≤ t → ((opts.verifier store maxSkew t).Accepts P r' ↔ t ≤ opts.deadline)) ↔
      r.header.get (str "Authorization") = [] ∧ opts.Lasting maxSkew ∨
      r.header.get (str "Authorization") ≠ [] ∧ ∀ t, opts.now ≤ t →
        ((opts.verifier store maxSkew t).AcceptsHeader P r' ↔ t ≤ opts.deadline) := by
  have hsigned := presigned_of_presignRequest h
  have hstart : opts.signedAt ≤ opts.now := Int.ediv_mul_le _ (by decide)
  have hnow : opts.now ≤ opts.deadline := by
    have hrest : @LT.lt ℤ _ opts.now (opts.signedAt + 1000000000) := by
      unfold PresignOptions.signedAt Time.unix
      omega
    have hsecond : @LE.le ℤ _ 1000000000 (opts.lifetime / 1000000000 * 1000000000) := by omega
    exact hrest.le.trans (Int.add_le_add_left hsecond _)
  by_cases hauth : r.header.get (str "Authorization") = []
  · have haccepts (t : Time) := hsigned.accepts_iff maxSkew t hsha hauth hstored
      hactive hid (slash_not_mem_optionOr hregion (by decide)) hmin
    simp only [hauth, haccepts, ne_eq, not_true_eq_false, true_and, false_and, or_false]
    constructor
    · intro hall
      -- the last moment is the one the skew is hardest on
      obtain ⟨hyear, hbound, -, hservice, hterminal⟩ := (hall _ hnow).2 le_rfl
      rw [skewExceeded_iff hskew hsigned.lifetime_le (hstart.trans hnow) le_rfl,
        PresignOptions.deadline, add_sub_cancel_left] at hbound
      exact ⟨hbound, hyear, hservice, hterminal⟩
    · intro hlasting t ht
      refine ⟨fun haccepted => haccepted.2.2.1, fun hle => ⟨hlasting.year, ?_, hle,
        hlasting.service, hlasting.terminal⟩⟩
      rw [skewExceeded_iff hskew hsigned.lifetime_le (hstart.trans ht) hle]
      exact (sub_left_le_of_le_add hle).trans hlasting.lifetime
  · have hauth' : r'.header.get (str "Authorization") ≠ [] := by rwa [hsigned.header]
    simp only [hauth, accepts_iff_acceptsHeader hauth', ne_eq, not_false_eq_true, true_and,
      false_and, false_or]

/-! ### Two URLs

Signed at noon on the first of January 2026, for a client that waits. -/

def oneCredential : CredentialStore := .singleton (str "AKID") { secret := str "secret" }

/-- `GET /b/k`. -/
def getObjectURL : Request :=
  { method := str "GET", host := str "s3.example", url := { path := str "/b/k" } }

def signedAtNoon (expires : ℤ) : PresignOptions := { now := 1767268800000000000, expires }

/-- What a request signed by the credential yields, when it is evaluated. -/
theorem exists_presigned (opts : PresignOptions) {α : Type} {f : Request → α} {a : α}
    (h : (presignRequest Sha256.platform getObjectURL (str "AKID") (str "secret")
      opts).toOption.map f = some a) :
    ∃ r', presignRequest Sha256.platform getObjectURL (str "AKID") (str "secret") opts = .ok r' ∧
      f r' = a := by
  obtain ⟨r', hr', ha⟩ := Option.map_eq_some_iff.1 h
  cases hr : presignRequest Sha256.platform getObjectURL (str "AKID") (str "secret") opts with
  | error e =>
    rw [hr] at hr'
    cases hr'
  | ok r₁ =>
    rw [hr] at hr'
    obtain rfl : r₁ = r' := Option.some.inj hr'
    exact ⟨r₁, rfl, ha⟩

theorem hash_ne_nil (m : Bytes) : Sha256.platform.sha256 m ≠ [] := by
  simp [Sha256.platform, Sha256.hash, Sha256.bigEndian]

/-- A URL for fifteen minutes, with the default skew. -/
theorem quarterURL_accepted : ∃ r',
    presignRequest Sha256.platform getObjectURL (str "AKID") (str "secret")
      (signedAtNoon 900000000000) = .ok r' ∧
    ∀ t, 1767268800000000000 ≤ t →
      (((signedAtNoon 900000000000).verifier oneCredential 900000000000 t).Accepts
        Sha256.platform r' ↔ t ≤ 1767269700000000000) := by
  obtain ⟨r', hr', -⟩ := exists_presigned (signedAtNoon 900000000000)
    (f := fun _ => ()) (a := ()) (by decide +kernel)
  refine ⟨r', hr', (acceptedUntil_iff (c := { secret := str "secret" }) hash_ne_nil rfl rfl
    (by decide) (by decide) (by decide) (by decide) hr').2 (.inl ⟨by decide, ?_⟩)⟩
  exact ⟨by decide, by decide, by decide, by decide⟩

/-- **A URL for an hour is refused after half an hour.** -/
theorem hourURL_refused : ∃ r',
    presignRequest Sha256.platform getObjectURL (str "AKID") (str "secret")
      (signedAtNoon 3600000000000) = .ok r' ∧
    (signedAtNoon 3600000000000).now ≤ 1767270600000000000 ∧
    1767270600000000000 ≤ (signedAtNoon 3600000000000).deadline ∧
    (((signedAtNoon 3600000000000).verifier oneCredential 900000000000
      1767270600000000000).verifyRequest Sha256.platform r').1 = some .requestTimeTooSkewed := by
  obtain ⟨r', hr', hrefused⟩ := exists_presigned (signedAtNoon 3600000000000) (f := fun r' =>
    (((signedAtNoon 3600000000000).verifier oneCredential 900000000000
      1767270600000000000).verifyRequest Sha256.platform r').1)
    (a := some .requestTimeTooSkewed) (by decide +kernel)
  exact ⟨r', hr', by decide, by decide, hrefused⟩

end S000.SigV4
