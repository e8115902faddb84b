import S000.Auth.SigV4
import S000.Server.Dispatch

/-!
# Auth/Coverage — which headers a signature covers

The requester chooses the headers a signature covers.  Every listed header is present and enters
the canonical request (`present_of_canonicalHeaders`); of the others the verifier reads three
(`alwaysRead`) and no more, so any other header, `x-amz-*` headers included, may be added or changed
on its way without the signature noticing (`AgreeOn.verifyRequest`).
-/

namespace S000.SigV4

open Strings Url Sha256

/-! ## Headers through the normalisation -/

/-- The values of a header after another one, or the same, was normalised. -/
theorem values_normalizeHeader (r : Request) (name n : Bytes) :
    (normalizeHeader r name).header.values n =
      if canonicalMIMEHeaderKey n = canonicalMIMEHeaderKey name then
        (r.header.values n).map normalizeValue
      else r.header.values n := by
  by_cases h : canonicalMIMEHeaderKey n = canonicalMIMEHeaderKey name
  · rw [if_pos h, Header.values, h, normalizeHeader, AList.lookup_insert, Option.getD_some,
      Header.values, Header.values, h]
  · rw [if_neg h, Header.values, normalizeHeader, AList.lookup_insert_ne h, Header.values]

/-- A listed header can be canonicalised: `host` when the request has a host, any other when it has
a value. -/
def HeaderPresent (r : Request) (name : Bytes) : Prop :=
  if name = str "host" then signedHost r ≠ [] else r.header.values name ≠ []

variable {r r₂ : Request} {name n : Bytes}

theorem headerPresent_normalizeHeader :
    HeaderPresent (normalizeHeader r name) n ↔ HeaderPresent r n := by
  have hhost : signedHost (normalizeHeader r name) = signedHost r := rfl
  rw [HeaderPresent, values_normalizeHeader, hhost, HeaderPresent]
  split_ifs <;> simp

/-- What canonicalising one header gives: its value, and the request with at most this header
normalised. -/
theorem canonicalHeaderValue_some {r' : Request} {value : Bytes}
    (h : canonicalHeaderValue r name = some (value, r')) :
    HeaderPresent r name ∧ (r' = r ∨ r' = normalizeHeader r name) := by
  unfold canonicalHeaderValue at h
  rw [HeaderPresent]
  split_ifs at h ⊢ with hhost hempty hval
  · exact ⟨hempty, .inl (Prod.mk.inj (Option.some.inj h)).2.symm⟩
  · exact ⟨hval, .inr (Prod.mk.inj (Option.some.inj h)).2.symm⟩

/-- **Every listed header is present.** -/
theorem present_of_canonicalHeaders : ∀ {names : List Bytes} {r : Request} {lines : List Bytes},
    (canonicalHeaders r names).1 = .ok lines → ∀ n ∈ names, n ≠ [] ∧ HeaderPresent r n
  | [], _, _, _ => by simp
  | name :: names, r, lines, h => by
    rw [canonicalHeaders] at h
    split_ifs at h with hname
    cases hv : canonicalHeaderValue r name with
    | none => simp [hv] at h
    | some x =>
      obtain ⟨value, r'⟩ := x
      simp only [hv] at h
      obtain ⟨hpres, hr'⟩ := canonicalHeaderValue_some hv
      cases hrest : (canonicalHeaders r' names).1 with
      | error e => simp [hrest, Except.map] at h
      | ok rest =>
        refine List.forall_mem_cons.2 ⟨⟨hname, hpres⟩, fun n hn => ?_⟩
        obtain ⟨hne, hp⟩ := present_of_canonicalHeaders hrest n hn
        refine ⟨hne, ?_⟩
        rcases hr' with rfl | rfl
        · exact hp
        · exact headerPresent_normalizeHeader.1 hp

/-! ## Headers the verifier does not read -/

/-- Two requests that differ only in headers, and not in those of a set of names. -/
structure AgreeOn (K : Set Bytes) (r r₂ : Request) : Prop where
  method : r₂.method = r.method
  host : r₂.host = r.host
  url : r₂.url = r.url
  values : ∀ n ∈ K, r₂.header.values n = r.header.values n

variable {K : Set Bytes}

theorem AgreeOn.get (h : AgreeOn K r r₂) (hn : n ∈ K) : r₂.header.get n = r.header.get n := by
  rw [Header.get, h.values n hn, Header.get]

theorem AgreeOn.normalizeHeader (h : AgreeOn K r r₂) (name : Bytes) :
    AgreeOn K (normalizeHeader r name) (normalizeHeader r₂ name) where
  method := h.method
  host := h.host
  url := h.url
  values n hn := by rw [values_normalizeHeader, values_normalizeHeader, h.values n hn]

/-- Canonicalising a header they agree on fails for both, or gives the same value. -/
theorem AgreeOn.canonicalHeaderValue (h : AgreeOn K r r₂) (hn : name ∈ K) :
    (canonicalHeaderValue r name = none ∧ canonicalHeaderValue r₂ name = none) ∨
      ∃ value r' r₂', canonicalHeaderValue r name = some (value, r') ∧
        canonicalHeaderValue r₂ name = some (value, r₂') ∧ AgreeOn K r' r₂' := by
  have hhost : signedHost r₂ = signedHost r := by rw [signedHost, h.host, h.url, signedHost]
  simp only [SigV4.canonicalHeaderValue, hhost, h.values name hn]
  split_ifs
  · exact .inl ⟨rfl, rfl⟩
  · exact .inr ⟨_, r, r₂, rfl, rfl, h⟩
  · exact .inl ⟨rfl, rfl⟩
  · exact .inr ⟨_, _, _, rfl, rfl, h.normalizeHeader name⟩

/-- The canonical lines of headers two requests agree on are the same. -/
theorem AgreeOn.canonicalHeaders : ∀ {names : List Bytes} {r r₂ : Request},
    AgreeOn K r r₂ → (∀ n ∈ names, n ∈ K) →
    (canonicalHeaders r₂ names).1 = (canonicalHeaders r names).1 ∧
      AgreeOn K (canonicalHeaders r names).2 (canonicalHeaders r₂ names).2
  | [], _, _, h, _ => ⟨rfl, h⟩
  | name :: names, r, r₂, h, hK => by
    by_cases hempty : name = []
    · simp only [SigV4.canonicalHeaders, if_pos hempty]
      exact ⟨trivial, h⟩
    rcases h.canonicalHeaderValue (hK name List.mem_cons_self) with
      ⟨h₁, h₂⟩ | ⟨value, r', r₂', h₁, h₂, h'⟩
    · simp only [SigV4.canonicalHeaders, if_neg hempty, h₁, h₂]
      exact ⟨trivial, h⟩
    · obtain ⟨ih₁, ih₂⟩ := h'.canonicalHeaders fun n hn => hK n (List.mem_cons_of_mem name hn)
      simp only [SigV4.canonicalHeaders, if_neg hempty, h₁, h₂]
      exact ⟨by rw [ih₁], ih₂⟩

/-- The headers the verifier reads whether they are signed or not. -/
def alwaysRead (presigned : Bool) : List Bytes :=
  [str "Authorization", str "X-Amz-Content-Sha256"] ++ if presigned then [] else [str "X-Amz-Date"]

variable (P : Platform) (v : Verifier)

/-- The headers the verdict on a request depends on: those it lists as signed, and those always
read. -/
def readHeaders (c : SignatureData) : Set Bytes :=
  {n | n ∈ normalizedHeaders P c.signedHeaders ∨ n ∈ alwaysRead c.presigned}

variable {P v} {c : SignatureData}

theorem AgreeOn.buildCanonicalRequest (h : AgreeOn (readHeaders P c) r r₂) :
    (buildCanonicalRequest P r₂ c.signedHeaders c.presigned).1 =
      (buildCanonicalRequest P r c.signedHeaders c.presigned).1 := by
  obtain ⟨hlines, h'⟩ := h.canonicalHeaders
    fun n hn => .inl hn
  have hpay := h'.get (n := str "X-Amz-Content-Sha256") (.inr (by simp [alwaysRead]))
  simp only [SigV4.buildCanonicalRequest, hlines, hpay, h'.method, h'.url, Request.query]

/-- Requests that agree on the headers read state the same about their signature. -/
theorem AgreeOn.signatureData (hc : v.signatureData r = .ok c) (h : AgreeOn (readHeaders P c) r r₂) :
    v.signatureData r₂ = .ok c := by
  have hauth := h.get (n := str "Authorization") (.inr (by simp [alwaysRead]))
  have hquery : r₂.query = r.query := by rw [Request.query, h.url, Request.query]
  rw [Verifier.signatureData, hauth, hquery]
  rw [Verifier.signatureData] at hc
  split_ifs at hc ⊢
  · -- the date is read from the header only here
    obtain ⟨authz, requestTime, -, -, rfl⟩ := headerData_ok hc
    have hdate := h.get (n := str "X-Amz-Date") (.inr (by simp [alwaysRead]))
    rwa [Verifier.headerData, hauth, hdate]
  · rwa [Verifier.presignedData, hquery]

/-- **The verdict does not depend on the other headers.** -/
theorem AgreeOn.verifyRequest (hc : v.signatureData r = .ok c) (h : AgreeOn (readHeaders P c) r r₂) :
    (v.verifyRequest P r₂).1 = (v.verifyRequest P r).1 := by
  have hbuild := h.buildCanonicalRequest
  simp only [Verifier.verifyRequest, hc, h.signatureData hc, Verifier.checkSignature]
  cases resolveSecrets v.store c.scope.accessKeyID (v.now (if c.presigned then 2 else 1)) with
  | error e => rfl
  | ok secrets =>
    rcases h₁ : SigV4.buildCanonicalRequest P r c.signedHeaders c.presigned with ⟨x, r'⟩
    rcases h₂ : SigV4.buildCanonicalRequest P r₂ c.signedHeaders c.presigned with ⟨x₂, r₂'⟩
    rw [h₁, h₂] at hbuild
    obtain rfl : x₂ = x := hbuild
    cases x₂ with
    | error e => rfl
    | ok canonical =>
      simp only
      split_ifs <;> rfl

/-- **What a signature covers.**  Every header an accepted request lists as signed is there; and the
request stays accepted whatever other headers are added, changed or taken away, so long as the ones
always read are left alone. -/
theorem accepted_covers {r : Request} (h : (v.verifyRequest P r).1 = none) :
    ∃ c, v.signatureData r = .ok c ∧
      (∀ n ∈ normalizedHeaders P c.signedHeaders, n ≠ [] ∧ HeaderPresent r n) ∧
      ∀ r₂, AgreeOn (readHeaders P c) r r₂ → (v.verifyRequest P r₂).1 = none := by
  obtain ⟨c, secrets, secret, canonical, hs⟩ := signedBy_of_accepted (Prod.ext h rfl)
  refine ⟨c, hs.data, ?_, fun r₂ h₂ => (h₂.verifyRequest hs.data).trans h⟩
  have hbuilt : (canonicalHeaders r (normalizedHeaders P c.signedHeaders)).1.map _ = .ok canonical :=
    congrArg Prod.fst hs.built
  cases hlines : (canonicalHeaders r (normalizedHeaders P c.signedHeaders)).1 with
  | error e => simp [hlines, Except.map] at hbuilt
  | ok lines => exact present_of_canonicalHeaders hlines

/-! ## A presigned upload turned into a copy -/

/-- A verifier that knows one credential, at noon of the first of January 2026. -/
def sampleVerifier : Verifier :=
  newVerifier (.singleton (str "AKID") { secret := str "secret" })
    (fun _ => 1767268800000000000) 0 [] []

/-- A presigned `PUT` of the object `k` in `b` that signs the header `host` only. -/
def presignedPut (header : Header) : Request where
  method := str "PUT"
  host := str "s3.local"
  url :=
    { path := str "/b/k"
      rawQuery := str <| "X-Amz-Algorithm=AWS4-HMAC-SHA256&X-Amz-Credential=AKID%2F20260101%2F" ++
        "us-east-1%2Fs3%2Faws4_request&X-Amz-Date=20260101T120000Z&X-Amz-Expires=300&" ++
        "X-Amz-SignedHeaders=host&X-Amz-Signature=" ++
        "ad631efe16527a752e797deb07de9d92aa03b598ef6b7b48d807be0a310c48f9" }
  header := header

/-- The same with a header that names an object to copy, which the signature does not list. -/
def presignedCopy : Request :=
  presignedPut (.ofList [(str "x-amz-copy-source", str "/b/private")])

theorem presignedPut_accepted :
    (sampleVerifier.verifyRequest platform (presignedPut ∅)).1 = none := by
  decide +kernel

/-- The theorem at the presigned upload: `host` is there, and other headers are free. -/
theorem presignedPut_covers : (sampleVerifier.verifyRequest platform (presignedPut ∅)).1 = none ∧
    ∃ c, sampleVerifier.signatureData (presignedPut ∅) = .ok c ∧
      (∀ n ∈ normalizedHeaders platform c.signedHeaders,
        n ≠ [] ∧ HeaderPresent (presignedPut ∅) n) ∧
      ∀ r₂, AgreeOn (readHeaders platform c) (presignedPut ∅) r₂ →
        (sampleVerifier.verifyRequest platform r₂).1 = none :=
  ⟨presignedPut_accepted, accepted_covers presignedPut_accepted⟩

/-- **The holder of a presigned upload can make it a copy**: with an `x-amz-copy-source` header that
nobody signed the request is still accepted, and the dispatcher reads another object instead of the
body. -/
theorem unsigned_copySource_accepted :
    (∃ c, sampleVerifier.signatureData presignedCopy = .ok c ∧
      normalizedHeaders platform c.signedHeaders = [str "host"]) ∧
    presignedCopy.header.values (str "x-amz-copy-source") ≠ [] ∧
    (sampleVerifier.verifyRequest platform presignedCopy).1 = none ∧
    handleObjectRequest (presignedPut ∅) = some .putObject ∧
    handleObjectRequest presignedCopy = some .copyObject := by
  obtain ⟨c, hc⟩ : ∃ c, sampleVerifier.signatureData (presignedPut ∅) = .ok c := ⟨_, rfl⟩
  have hlisted : normalizedHeaders platform c.signedHeaders = [str "host"] := by
    cases hc
    decide
  have hagree : AgreeOn (readHeaders platform c) (presignedPut ∅) presignedCopy := by
    refine ⟨rfl, rfl, rfl, fun n hn => ?_⟩
    cases hc
    have hall : ∀ n ∈ [str "host"] ++ alwaysRead true, presignedCopy.header.values n =
        (presignedPut ∅).header.values n := by decide
    exact hall n (List.mem_append.2 hn)
  exact ⟨⟨c, hagree.signatureData hc, hlisted⟩, by decide,
    (hagree.verifyRequest hc).trans presignedPut_accepted, by decide, by decide⟩

end S000.SigV4
