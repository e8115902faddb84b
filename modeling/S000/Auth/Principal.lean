import S000.Auth.HeaderFrame
import Mathlib.Data.List.TakeWhile

/-!
# Auth/Principal — whom the gate takes a signed request for

Two parsers read a credential.  The verifier splits the `Authorization` header at its commas into
fields, where of repeated fields the last one counts, and takes the secret of that access key; the gate
looks for the first text `Credential=` and calls what follows the principal.  No comma is in that text,
so the gate reads the first of the same fields that has the text anywhere (`headerCredential_eq`).  On a
header where the text occurs once the two agree up to white space (`namedBy_of_once`); where it occurs
again the gate may name anybody (`principal_of_other_credential`).

The verifier also normalises the white space of every header it signs, in place, so the principal is
read from another request than the identity failures are counted under.
-/

namespace S000.SigV4

open Strings Url List

/-! ## The request after verification -/

variable {p : Request → Prop}

/-- What normalising a header preserves, canonicalising headers preserves. -/
theorem canonicalHeaders_preserves (hp : ∀ r name, p r → p (normalizeHeader r name)) :
    ∀ {names : List Bytes} {r : Request}, p r → p (canonicalHeaders r names).2
  | [], _, h => h
  | name :: names, r, h => by
    rw [canonicalHeaders]
    split_ifs
    · exact h
    cases hv : canonicalHeaderValue r name with
    | none => exact h
    | some x =>
      obtain ⟨value, r'⟩ := x
      suffices h' : p r' from canonicalHeaders_preserves hp h'
      rcases (canonicalHeaderValue_some hv).2 with rfl | rfl
      · exact h
      · exact hp r name h

variable {P : Platform} {v : Verifier} {r r₁ : Request} {c : SignatureData} {secrets : List Bytes}
  {secret canonicalRequest : Bytes}

theorem SignedBy.preserves (h : SignedBy P v r r₁ c secrets secret canonicalRequest)
    (hp : ∀ r name, p r → p (normalizeHeader r name)) (hr : p r) : p r₁ := by
  obtain rfl : (canonicalHeaders r (normalizedHeaders P c.signedHeaders)).2 = r₁ :=
    congrArg Prod.snd h.built
  exact canonicalHeaders_preserves hp hr

/-- The `Authorization` header is among the signed ones. -/
def SignsAuthorization (P : Platform) (c : SignatureData) : Prop :=
  ∃ name ∈ normalizedHeaders P c.signedHeaders, canonicalMIMEHeaderKey name = str "Authorization"

instance (P : Platform) (c : SignatureData) : Decidable (SignsAuthorization P c) :=
  inferInstanceAs (Decidable (∃ name ∈ _, _))

/-- **The `Authorization` header after verification.** -/
theorem SignedBy.authorization (h : SignedBy P v r r₁ c secrets secret canonicalRequest) :
    r₁.header.get (str "Authorization") =
      if SignsAuthorization P c then normalizeValue (r.header.get (str "Authorization"))
      else r.header.get (str "Authorization") := by
  have hbuilt := h.built
  obtain rfl : (canonicalHeaders r (normalizedHeaders P c.signedHeaders)).2 = r₁ :=
    congrArg Prod.snd hbuilt
  -- all signed headers are present, so all were read
  have hconsulted : consulted r (normalizedHeaders P c.signedHeaders) =
      normalizedHeaders P c.signedHeaders := by
    cases hlines : (canonicalHeaders r (normalizedHeaders P c.signedHeaders)).1 with
    | error e =>
      simp only [buildCanonicalRequest, hlines] at hbuilt
      cases congrArg Prod.fst hbuilt
    | ok lines =>
      refine takeWhile_eq_self_iff.2 fun name hname => ?_
      obtain ⟨hne, hpresent⟩ := present_of_canonicalHeaders hlines name hname
      unfold canonicalHeaderValue
      rw [HeaderPresent] at hpresent
      split_ifs at hpresent ⊢ <;> simp_all
  have hsigns : (∃ name ∈ normalizedHeaders P c.signedHeaders, name ≠ str "host" ∧
      canonicalMIMEHeaderKey (str "Authorization") = canonicalMIMEHeaderKey name) ↔
      SignsAuthorization P c := by
    have hkey : canonicalMIMEHeaderKey (str "Authorization") = str "Authorization" := by decide
    constructor
    · rintro ⟨name, hname, -, h⟩
      exact ⟨name, hname, h.symm.trans hkey⟩
    · rintro ⟨name, hname, h⟩
      refine ⟨name, hname, ?_, hkey.trans h.symm⟩
      rintro rfl
      exact absurd h (by decide)
  rw [Header.get, values_canonicalHeaders, hconsulted, Header.get, if_congr hsigns rfl rfl]
  split_ifs
  · cases r.header.values (str "Authorization") <;> rfl
  · rfl

/-! ## A signed request has no bearer token -/

theorem normalizeValue_cons_A (t : Bytes) : ∃ x, normalizeValue (0x41 :: t) = 0x41 :: x := by
  obtain ⟨x, rest, h⟩ := fieldsFrom_of_ne_nil (cons_ne_nil 0x41 [])
  have hfields : fields (0x41 :: t) = (0x41 :: x) :: rest := h
  rw [normalizeValue, hfields]
  cases rest <;> exact ⟨_, rfl⟩

theorem bearerToken_cons_A (t : Bytes) : bearerToken (0x41 :: t) = none := by
  obtain ⟨rest, h⟩ := trimSpace_isPrefix (b := 0x41) rfl
  rw [bearerToken, if_pos]
  cases htrim : trimSpace (0x41 :: t) with
  | nil => exact .inl (by simp)
  | cons b s =>
    rw [htrim] at h
    obtain rfl : b = 0x41 := (cons.inj h).1
    exact .inr rfl

theorem parseAuthorizationHeader_some {header : Bytes} {authz : AuthHeader}
    (h : parseAuthorizationHeader header = some authz) : ∃ rest fields,
    header = str "AWS4-HMAC-SHA256 " ++ rest ∧
    (split rest 0x2C).mapM (fun part => cut 0x3D (trimSpace part)) = some fields ∧
    parseCredentialScope (fieldValue fields "Credential") = some authz.scope := by
  simp only [parseAuthorizationHeader, Option.bind_eq_bind, Option.bind_eq_some_iff] at h
  obtain ⟨fields, hfields, scope, hscope, names, -, h⟩ := h
  rw [authFields] at hfields
  split_ifs at h hfields with hsig hprefix
  obtain ⟨rest, rfl⟩ := hasPrefix_iff.1 (by simpa using hprefix)
  cases h
  exact ⟨rest, fields, rfl, hfields, hscope⟩

/-- Where neither a header nor its normalisation starts a bearer token, the principal is that of the
credential. -/
theorem extractPrincipalID_eq (hctx : r.principal = [])
    (h : r.header.get (str "Authorization") = [] ∨
      (r.header.get (str "Authorization")).head? = some 0x41) :
    extractPrincipalID r = requestPrincipal r := by
  have hnone : bearerToken (r.header.get (str "Authorization")) = none := by
    rcases h with h | h
    · rw [h]
      rfl
    · obtain ⟨t, ht⟩ := head?_eq_some_iff.1 h
      rw [ht, bearerToken_cons_A]
  rw [extractPrincipalID, if_neg (by simp [hctx]), hnone]

/-! ## The credential in the header -/

variable {scope : CredentialScope} {credential id : Bytes}

/-- The id a scope holds is what stands before the first slash of its credential. -/
theorem parseCredentialScope_some (h : parseCredentialScope credential = some scope) :
    scope.accessKeyID ≠ [] ∧ 0x2F ∉ scope.accessKeyID ∧
      ∃ tail, credential = scope.accessKeyID ++ 0x2F :: tail := by
  unfold parseCredentialScope at h
  split at h
  · next id date region service terminal hsplit =>
    split_ifs at h with hempty
    cases h
    by_cases hslash : 0x2F ∈ credential
    · obtain ⟨u, tail, rfl, hu⟩ := eq_append_cons_of_mem hslash
      rw [split, splitOn_append_cons_self_of_not_mem hu] at hsplit
      obtain rfl := (cons.inj hsplit).1
      exact ⟨fun hid => hempty (.inl hid), hu, tail, rfl⟩
    · rw [split, splitOn_eq_singleton hslash] at hsplit
      cases hsplit
  · cases h

/-- What follows the first text `Credential=` of a field. -/
def afterCredential (part : Bytes) : Option Bytes :=
  (index part (str "Credential=")).map fun i => part.drop (i + (str "Credential=").length)

/-- **The gate reads the first field that has the text.** -/
theorem headerCredential_eq (header : Bytes) :
    headerCredential header = (split header 0x2C).findSome? afterCredential := by
  -- strong induction: the rest behind the first comma is a shorter header
  induction hn : header.length using Nat.strong_induction_on generalizing header with
  | _ n ih =>
    by_cases hcomma : 0x2C ∈ header
    · obtain ⟨u, rest, rfl, hu⟩ := eq_append_cons_of_mem hcomma
      rw [split, splitOn_append_cons_self_of_not_mem hu, findSome?_cons, ← split,
        ← ih rest.length (by simp [← hn]; omega) rest rfl, headerCredential, afterCredential,
        index_append_cons (by decide) (by decide)]
      cases hindex : index u (str "Credential=") with
      | none =>
        rw [Option.none_or, headerCredential, Option.map_map]
        refine Option.map_congr fun i _ => congrArg (before 0x2C) ?_
        have hrest : (u ++ 0x2C :: rest).drop (u.length + 1) = rest := by simp
        dsimp only
        rw [add_right_comm, add_comm _ (u.length + 1), ← drop_drop, hrest]
      | some i =>
        obtain ⟨⟨hi, hfits⟩, -⟩ := index_eq_some_iff.1 hindex
        have hlength := hfits.length_le
        rw [length_drop] at hlength
        rw [Option.some_or, Option.map_some, Option.map_some,
          drop_append_of_le_length (by omega), before_append_cons fun h => hu (mem_of_mem_drop h)]
    · rw [split, splitOn_eq_singleton hcomma, findSome?_cons, findSome?_nil, headerCredential,
        afterCredential]
      cases index header (str "Credential=") with
      | none => rfl
      | some i =>
        exact congrArg some (before_of_not_mem fun h => hcomma (mem_of_mem_drop h))

/-- The name in the first field with the text `Credential=`: what stands there before a slash or, if
that is nothing, what stands there in the credential of the query. -/
def namedBy (header credential : Bytes) : Bytes :=
  let id := before 0x2F (((split header 0x2C).findSome? afterCredential).getD [])
  trimSpace (if id = [] then before 0x2F credential else id)

theorem requestPrincipal_eq (r : Request) : requestPrincipal r =
    namedBy (r.header.get (str "Authorization")) (r.query.get (str "X-Amz-Credential")) := by
  have hquery (credential : Bytes) :
      (credentialPrincipal credential).getD [] = trimSpace (before 0x2F credential) := by
    rw [credentialPrincipal]
    split_ifs with h
    · rw [h]
      rfl
    · rfl
  rw [requestPrincipal, headerCredential_eq, namedBy]
  cases (split (r.header.get (str "Authorization")) 0x2C).findSome? afterCredential with
  | none => exact hquery _
  | some text =>
    rw [Option.bind_some, Option.getD_some, credentialPrincipal]
    split_ifs
    · exact hquery _
    · rfl

/-- The value of a field comes from a field of the name. -/
theorem mem_of_fieldValue {name : String} : ∀ {fields : List (Bytes × Bytes)},
    fieldValue fields name ≠ [] → (str name, fieldValue fields name) ∈ fields := by
  intro fields
  induction fields using reverseRecOn with
  | nil => exact fun h => absurd rfl h
  | append_singleton fields f ih =>
    intro h
    rw [fieldValue, foldl_append, foldl_cons, foldl_nil, ← fieldValue] at h ⊢
    split_ifs at h ⊢ with hname
    · exact mem_append_right _ (mem_singleton.2 (Prod.ext hname.symm rfl))
    · exact mem_append_left _ (ih h)

theorem exists_of_mem_mapM {α β : Type} {f : α → Option β} {y : β} : ∀ {l : List α} {l' : List β},
    l.mapM f = some l' → y ∈ l' → ∃ x ∈ l, f x = some y
  | [], _, h, hy => by
    cases h
    cases hy
  | x :: l, l', h, hy => by
    simp only [mapM_cons, Option.bind_eq_bind, Option.bind_eq_some_iff] at h
    obtain ⟨z, hz, rest, hrest, h⟩ := h
    cases h
    rcases mem_cons.1 hy with rfl | hy
    · exact ⟨x, mem_cons_self, hz⟩
    · obtain ⟨x', hx', hf⟩ := exists_of_mem_mapM hrest hy
      exact ⟨x', mem_cons_of_mem x hx', hf⟩

/-- A text stands at one place of another, at most. -/
def OccursOnce (sub s : Bytes) : Prop := ∀ i j, sub <+: s.drop i → sub <+: s.drop j → i = j

/-- **Where the text occurs once**, the gate and the verifier read the same field. -/
theorem namedBy_of_once {header : Bytes} {authz : AuthHeader}
    (h : parseAuthorizationHeader header = some authz)
    (honce : OccursOnce (str "Credential=") header)
    (credential : Bytes) : namedBy header credential = trimSpace authz.scope.accessKeyID := by
  obtain ⟨rest, fields, rfl, hfields, hscope⟩ := parseAuthorizationHeader_some h
  generalize hvalue : fieldValue fields "Credential" = value at hscope
  obtain ⟨hid, hslash, tail, rfl⟩ := parseCredentialScope_some hscope
  have hmem := mem_of_fieldValue (hvalue ▸ append_ne_nil_of_left_ne_nil hid _)
  obtain ⟨part, hpart, hcut⟩ := exists_of_mem_mapM hfields hmem
  -- the field of the verifier, within its part and within the header
  obtain ⟨htrim, -⟩ := eq_of_cut hcut
  obtain ⟨front, behind, hinfix⟩ := trimSpace_isInfix part
  obtain ⟨hcomma, front', behind', hrest, -⟩ := mem_split hpart
  rw [hvalue] at htrim
  rw [htrim] at hinfix
  obtain ⟨A, X, hheader⟩ : ∃ A X, str "AWS4-HMAC-SHA256 " ++ rest =
      A ++ (str "Credential=" ++ (authz.scope.accessKeyID ++ 0x2F :: X)) := by
    refine ⟨str "AWS4-HMAC-SHA256 " ++ front' ++ front, tail ++ behind ++ behind', ?_⟩
    have htext : str "Credential=" = str "Credential" ++ [0x3D] := by decide
    rw [hrest, ← hinfix, htext]
    simp
  have hat : str "Credential=" <+: (str "AWS4-HMAC-SHA256 " ++ rest).drop A.length := by
    rw [hheader, drop_left]
    exact prefix_append _ _
  have hindex : index (str "AWS4-HMAC-SHA256 " ++ rest) (str "Credential=") = some A.length :=
    index_eq_some_iff.2 ⟨⟨by rw [hheader]; simp, hat⟩, fun j hj hj' => hj.ne (honce _ _ hj' hat)⟩
  have hid' : 0x2C ∉ authz.scope.accessKeyID := fun h => hcomma (by rw [← hinfix]; simp [h])
  have hbefore : before 0x2F (before 0x2C (authz.scope.accessKeyID ++ 0x2F :: X)) =
      authz.scope.accessKeyID := by
    rw [before_append hid', before, before, takeWhile_cons_of_pos (by decide), ← before,
      before_append_cons hslash]
  rw [namedBy, ← headerCredential_eq, headerCredential, hindex, Option.map_some, Option.getD_some,
    hheader, ← drop_drop, drop_left, drop_left, hbefore, if_neg hid]

/-! ## The principal of an accepted request -/

/-- The `Authorization` header of a signed request: none, or one that starts with `AWS4`. -/
theorem authorization_of_signatureData (h : v.signatureData r = .ok c) :
    r.header.get (str "Authorization") = [] ∨
      (r.header.get (str "Authorization")).head? = some 0x41 := by
  rw [Verifier.signatureData] at h
  split_ifs at h with hauth
  · obtain ⟨authz, -, hparse, -, -⟩ := headerData_ok h
    obtain ⟨rest, -, hrest, -, -⟩ := parseAuthorizationHeader_some hparse
    rw [hrest]
    exact .inr rfl
  · exact .inl (not_not.1 hauth)

theorem SignedBy.authorization_head (h : SignedBy P v r r₁ c secrets secret canonicalRequest) :
    r₁.header.get (str "Authorization") = [] ∨
      (r₁.header.get (str "Authorization")).head? = some 0x41 := by
  have hauth := authorization_of_signatureData h.data
  rw [h.authorization]
  split_ifs
  · rcases hauth with hauth | hauth
    · exact .inl (by rw [hauth]; rfl)
    obtain ⟨t, ht⟩ := head?_eq_some_iff.1 hauth
    obtain ⟨x, hx⟩ := normalizeValue_cons_A t
    exact .inr (by rw [ht, hx]; rfl)
  · exact hauth

theorem clientIdentityKey_eq_iff (hid : id ≠ []) (hctx : r.principal = [])
    (h : r.header.get (str "Authorization") = [] ∨
      (r.header.get (str "Authorization")).head? = some 0x41) :
    clientIdentityKey r = id ++ str "@" ++ clientHost r ↔
      requestPrincipal r = id ∨ requestPrincipal r = [] ∧ id = str "anon" := by
  rw [clientIdentityKey, extractPrincipalID_eq hctx h]
  split_ifs with hnone
  · simp [hnone, hid.symm, eq_comm]
  · simp [hnone]

theorem accessKeyID_ne_nil (h : v.signatureData r = .ok c) : c.scope.accessKeyID ≠ [] := by
  rw [Verifier.signatureData] at h
  split_ifs at h
  · obtain ⟨authz, _, hparse, -, rfl⟩ := headerData_ok h
    obtain ⟨_, _, -, -, hscope⟩ := parseAuthorizationHeader_some hparse
    exact (parseCredentialScope_some hscope).1
  · obtain ⟨scope, _, _, hscope, -, rfl⟩ := presignedData_ok h
    exact (parseCredentialScope_some hscope).1

/-- A presigned request has no `Authorization` header, and its query names the key. -/
theorem SignedBy.requestPrincipal_presigned (h : SignedBy P v r r₁ c secrets secret canonicalRequest)
    (hpre : c.presigned = true) (credential : r.url = r₁.url) :
    requestPrincipal r = trimSpace c.scope.accessKeyID ∧
      requestPrincipal r₁ = trimSpace c.scope.accessKeyID := by
  have hdata := h.data
  rw [Verifier.signatureData] at hdata
  split_ifs at hdata with hauth
  · obtain ⟨_, _, -, -, rfl⟩ := headerData_ok hdata
    cases hpre
  rw [not_not] at hauth
  have hauth₁ : r₁.header.get (str "Authorization") = [] := by
    rw [h.authorization, hauth]
    split_ifs <;> rfl
  obtain ⟨scope, _, _, hscope, -, rfl⟩ := presignedData_ok hdata
  obtain ⟨-, hslash, tail, hcredential⟩ := parseCredentialScope_some hscope
  have hnone : (split [] 0x2C).findSome? afterCredential = none := by decide
  have hnamed : namedBy [] (r.query.get (str "X-Amz-Credential")) = trimSpace scope.accessKeyID := by
    rw [namedBy, hnone, hcredential, before_append_cons hslash]
    rfl
  rw [requestPrincipal_eq, requestPrincipal_eq, hauth, hauth₁, Request.query, Request.query, ← credential]
  exact ⟨hnamed, hnamed⟩

/-- **When the principal is the access key that signed.**  A request the gate admits through the
verifier carries the id of the key whose secret verified it, and was counted under that id, exactly
when the id has no white space around it (presigned), or the first field of its header with the text
`Credential=` names it, also once its white space is normalised if the header is signed itself
(`Authorization` header).  Where the text occurs once, the field names the id up to white space. -/
theorem principal_eq_accessKeyID_iff {opts : Options} {now : Time} {r' : Request}
    (hgate : (withAuthGate P opts now r).outcome = .admitted .verifier r')
    (hopts : opts.verifier = some (v.verifyRequest P)) (hctx : r.principal = []) :
    let header := r.header.get (str "Authorization")
    let credential := r.query.get (str "X-Amz-Credential")
    ∃ c secrets secret canonicalRequest r₁, SignedBy P v r r₁ c secrets secret canonicalRequest ∧
      ((r'.principal = c.scope.accessKeyID ∧
          clientIdentityKey r = c.scope.accessKeyID ++ str "@" ++ clientHost r) ↔
        if c.presigned then trimSpace c.scope.accessKeyID = c.scope.accessKeyID
        else if SignsAuthorization P c then
          namedBy (normalizeValue header) credential = c.scope.accessKeyID ∧
            (namedBy header credential = c.scope.accessKeyID ∨
              namedBy header credential = [] ∧ c.scope.accessKeyID = str "anon")
        else namedBy header credential = c.scope.accessKeyID) ∧
      (c.presigned = false → OccursOnce (str "Credential=") header →
        namedBy header credential = trimSpace c.scope.accessKeyID) := by
  obtain ⟨verify, r₁, hverify, haccepted, rfl⟩ := accepted_of_admitted hgate
  obtain rfl := Option.some.inj (hopts.symm.trans hverify)
  obtain ⟨c, secrets, secret, canonicalRequest, hs⟩ := signedBy_of_accepted haccepted
  refine ⟨c, secrets, secret, canonicalRequest, r₁, hs, ?_, fun hpre honce => ?_⟩
  · have hid := accessKeyID_ne_nil hs.data
    obtain ⟨hctx₁, hurl⟩ : r₁.principal = [] ∧ r.url = r₁.url :=
      hs.preserves (p := fun q => q.principal = [] ∧ r.url = q.url) (fun _ _ hq => hq) ⟨hctx, rfl⟩
    have hprincipal : (r₁.withPrincipal (extractPrincipalID r₁)).principal = requestPrincipal r₁ :=
      extractPrincipalID_eq hctx₁ hs.authorization_head
    rw [hprincipal, clientIdentityKey_eq_iff hid hctx (authorization_of_signatureData hs.data)]
    split_ifs with hpre hsigns
    · obtain ⟨hnamed, hnamed₁⟩ := hs.requestPrincipal_presigned hpre hurl
      rw [hnamed, hnamed₁]
      exact ⟨fun h => h.1, fun h => ⟨h, .inl h⟩⟩
    all_goals
      rw [requestPrincipal_eq, requestPrincipal_eq, hs.authorization, Request.query, ← hurl,
        ← Request.query]
    · rw [if_pos hsigns]
    · rw [if_neg hsigns]
      exact ⟨fun h => h.1, fun h => ⟨h, .inl h⟩⟩
  · have hdata := hs.data
    rw [Verifier.signatureData] at hdata
    split_ifs at hdata
    · obtain ⟨authz, _, hparse, -, rfl⟩ := headerData_ok hdata
      exact namedBy_of_once hparse honce _
    · obtain ⟨_, _, _, -, -, rfl⟩ := presignedData_ok hdata
      cases hpre

/-- A `GET` of `k` in `b`, signed with the secret of `AKID`; `extra` stands before its fields. -/
def signedGet (extra : String) : Request where
  method := str "GET"
  host := str "s3.local"
  remoteAddr := str "10.0.0.1:4711"
  url := { path := str "/b/k" }
  header := .ofList
    [(str "X-Amz-Date", str "20260101T120000Z"),
      (str "Authorization", str <| "AWS4-HMAC-SHA256 " ++ extra ++
        "Credential=AKID/20260101/us-east-1/s3/aws4_request, SignedHeaders=host, " ++
        "Signature=c22bc48ad861a6be39c7f1dcb09e82cb911e10a08b29948c1fe3b709ec03716f")]

/-- A server that checks signatures with the sample verifier. -/
def sampleOptions : Options :=
  { verifier := some (sampleVerifier.verifyRequest Sha256.platform) }

/-- The theorem at a request with one credential: it is admitted, and its principal is `AKID`. -/
theorem signedGet_principal :
    ∃ r', (withAuthGate Sha256.platform sampleOptions 0 (signedGet "")).outcome =
        .admitted .verifier r' ∧ r'.principal = str "AKID" ∧
      clientIdentityKey (signedGet "") = str "AKID@10.0.0.1" := by
  have hadmission : (withAuthGate Sha256.platform sampleOptions 0
      (signedGet "")).outcome.admission = some (.verifier, str "AKID") := by
    decide +kernel
  obtain ⟨r', hgate, -⟩ := Outcome.exists_of_admission hadmission
  obtain ⟨c, _, _, _, _, hs, hiff, -⟩ := principal_eq_accessKeyID_iff hgate rfl rfl
  obtain ⟨d, hd, hid, hpre, hsigns, hnamed⟩ :
      ∃ d, sampleVerifier.signatureData (signedGet "") = .ok d ∧
        d.scope.accessKeyID = str "AKID" ∧ d.presigned = false ∧
        ¬ SignsAuthorization Sha256.platform d ∧
        namedBy ((signedGet "").header.get (str "Authorization"))
          ((signedGet "").query.get (str "X-Amz-Credential")) = str "AKID" :=
    ⟨_, rfl, by decide, rfl, by decide, by decide⟩
  obtain rfl := Except.ok.inj (hs.data.symm.trans hd)
  rw [if_neg (by simp [hpre]), if_neg hsigns, hid] at hiff
  obtain ⟨hprincipal, hclient⟩ := hiff.2 hnamed
  exact ⟨r', hgate, hprincipal, hclient.trans (by decide)⟩

/-- **Anybody can be named**: with a second credential in front of the one that is verified, the
request signed by `AKID` is admitted as `ADMIN`'s, and counted under that name. -/
theorem principal_of_other_credential :
    (withAuthGate Sha256.platform sampleOptions 0
      (signedGet "Credential=ADMIN/x, ")).outcome.admission = some (.verifier, str "ADMIN") ∧
    (∃ c, sampleVerifier.signatureData (signedGet "Credential=ADMIN/x, ") = .ok c ∧
      c.scope.accessKeyID = str "AKID") ∧
    clientIdentityKey (signedGet "Credential=ADMIN/x, ") = str "ADMIN@10.0.0.1" ∧
    contains (clientIdentityKey (signedGet "Credential=ADMIN/x, ")) (str "AKID") = false :=
  ⟨by decide +kernel, ⟨_, rfl, by decide⟩, by decide +kernel, by decide +kernel⟩

end S000.SigV4
