import S000.Auth.Principal

/-!
# Auth/Anonymous — requests without credentials

A request without authentication material has two ways in, the bucket policy and the public website.
The public access block closes the first one.  The second one does not look at it: what lets a website
be read is the configuration of the website.
-/

namespace S000

open Strings List

/-! ## No credentials, no authentication -/

variable {P : Platform} {opts : Options} {store : StoreReads} {now : Time} {r r' : Request}
  {bucket key : Bytes} {block : Metadata.BucketPublicAccessBlock} {how : Admission}

theorem authorization_of_no_material (h : hasAuthMaterial r = false) :
    trimSpace (r.header.get (str "Authorization")) = [] ∧ r.query.get (str "X-Amz-Algorithm") = [] := by
  simp only [hasAuthMaterial, Bool.or_eq_false_iff, decide_eq_false_iff_not, not_not] at h
  exact ⟨h.1.1.1, h.2⟩

theorem bearerToken_of_no_material (h : hasAuthMaterial r = false) :
    bearerToken (r.header.get (str "Authorization")) = none := by
  rw [bearerToken, (authorization_of_no_material h).1]
  rfl

/-- **The verifier refuses a request without authentication material.** -/
theorem verifyRequest_of_no_material (h : hasAuthMaterial r = false) (v : SigV4.Verifier) :
    v.verifyRequest P r ≠ (none, r') := by
  intro haccepted
  obtain ⟨hblank, halgorithm⟩ := authorization_of_no_material h
  obtain ⟨c, secrets, secret, canonicalRequest, hsigned⟩ := SigV4.signedBy_of_accepted haccepted
  have hdata := hsigned.data
  rcases SigV4.authorization_of_signatureData hdata with hnil | hhead
  · simp [SigV4.Verifier.signatureData, hnil, halgorithm] at hdata
  · obtain ⟨t, ht⟩ := head?_eq_some_iff.1 hhead
    have hA : 0x41 ∈ r.header.get (str "Authorization") := by simp [ht]
    exact ne_nil_of_mem (mem_trimSpace (by decide) (by decide) hA) hblank

/-! ## The public access block -/

/-- Under a block no policy lets anybody in. -/
theorem anonymousPolicyAllows_of_block (hstore : opts.metadata = some store)
    (haddress : bucketAndKey r opts.domain = some (bucket, key))
    (hblock : store.getBucketPublicAccessBlock bucket = .ok block)
    (hset : block.blockPublicPolicy = true ∨ block.restrictPublicBuckets = true) :
    anonymousPolicyAllows r opts = false := by
  have hforce : publicPolicyInForce store bucket = false := by
    rw [publicPolicyInForce, hblock]
    rcases hset with hset | hset <;> simp [hset]
  unfold anonymousPolicyAllows
  rw [hstore, haddress]
  dsimp only
  split <;> simp [hforce]

theorem website_of_isPublicWebsiteRequest (hstore : opts.metadata = some store)
    (haddress : bucketAndKey r opts.domain = some (bucket, key))
    (h : isPublicWebsiteRequest r opts = true) :
    r.isRead = true ∧ r.query.has (str "website") = false ∧
      ∃ cfg, store.getBucketWebsite bucket = .ok cfg ∧ cfg.enabled = true ∧ cfg.publicRead = true := by
  unfold isPublicWebsiteRequest at h
  rw [hstore, haddress] at h
  cases hcfg : store.getBucketWebsite bucket with
  | error e => simp [hcfg] at h
  | ok cfg =>
    simp only [hcfg, Bool.and_eq_true, Bool.not_eq_true'] at h
    exact ⟨h.1.1, h.1.2, cfg, rfl, h.2.2⟩

/-- **Under a public access block the gate lets a request without authentication material into the
bucket only as a read of its website**, and only if that is enabled and public. -/
theorem blocked_bucket_admission (hmaterial : hasAuthMaterial r = false)
    (hverifier : ∀ verify, opts.verifier = some verify →
      ∃ v : SigV4.Verifier, verify = v.verifyRequest P)
    (hstore : opts.metadata = some store)
    (haddress : bucketAndKey r opts.domain = some (bucket, key))
    (hblock : store.getBucketPublicAccessBlock bucket = .ok block)
    (hset : block.blockPublicPolicy = true ∨ block.restrictPublicBuckets = true)
    (h : (withAuthGate P opts now r).outcome = .admitted how r') :
    how = .publicWebsite ∧ r.isRead = true ∧ r.query.has (str "website") = false ∧
      ∃ cfg, store.getBucketWebsite bucket = .ok cfg ∧ cfg.enabled = true ∧ cfg.publicRead = true := by
  have hcases := @withAuthGate_cases P opts now r
  rcases hcases with ⟨-, h'⟩ | ⟨-, ⟨spec, h'⟩ | ⟨how', r'', h', hgrant⟩⟩
  all_goals
    rw [h] at h'
    cases h'
  cases hgrant with
  | bearer token_eq _ =>
    rw [bearerToken_of_no_material hmaterial] at token_eq
    cases token_eq
  | anonymousPolicy _ allows =>
    rw [anonymousPolicyAllows_of_block hstore haddress hblock hset] at allows
    cases allows
  | publicWebsite _ website => exact ⟨rfl, website_of_isPublicWebsiteRequest hstore haddress website⟩
  | verifier _ verifier_eq verified =>
    obtain ⟨v, rfl⟩ := hverifier _ verifier_eq
    exact absurd verified (verifyRequest_of_no_material hmaterial v)

/-! ## A website behind a block -/

/-- A store in which every bucket has both blocks set, a policy that allows everybody everything, and a
public website. -/
def blockedStore : StoreReads where
  getBucket name := .ok ⟨name, [], str "Suspended", 0⟩
  getBucketWebsite bucket := .ok { bucket, enabled := true, publicRead := true }
  getBucketPolicy bucket := .ok
    { bucket, enabled := true
      document := str ("\x7b\"Statement\":\x7b\"Effect\":\"Allow\",\"Principal\":\"*\"," ++
        "\"Action\":\"*\",\"Resource\":\"*\"\x7d\x7d") }
  getBucketPublicAccessBlock bucket := .ok
    { bucket, blockPublicPolicy := true, restrictPublicBuckets := true }

def blockedOptions : Options :=
  { metadata := some blockedStore
    verifier := some (SigV4.sampleVerifier.verifyRequest Sha256.platform) }

theorem withAuthGate_blockedOptions : ∃ r', (withAuthGate Sha256.platform blockedOptions 0
    (anonymousGet "")).outcome = .admitted .publicWebsite r' := by
  obtain ⟨r', h, -⟩ := Outcome.exists_of_admission
    (show (withAuthGate Sha256.platform blockedOptions 0 (anonymousGet "")).outcome.admission =
      some (.publicWebsite, str "anonymous") by decide)
  exact ⟨r', h⟩

/-- The theorem at that request: it was let in to a website. -/
theorem blocked_bucket_admission_website : ∃ r', (withAuthGate Sha256.platform blockedOptions 0
    (anonymousGet "")).outcome = .admitted .publicWebsite r' ∧ (anonymousGet "").isRead = true ∧
      ∃ cfg, blockedStore.getBucketWebsite (str "b") = .ok cfg ∧ cfg.enabled = true ∧
        cfg.publicRead = true := by
  obtain ⟨r', h⟩ := withAuthGate_blockedOptions
  have haddress : bucketAndKey (anonymousGet "") blockedOptions.domain = some (str "b", str "k") := by
    decide
  obtain ⟨-, hread, -, hcfg⟩ := blocked_bucket_admission (by decide)
    (fun verify hv => ⟨SigV4.sampleVerifier, (Option.some.inj hv).symm⟩) rfl haddress rfl (.inl rfl) h
  exact ⟨r', h, hread, hcfg⟩

/-- **The block does not keep an anonymous request out of a website.** -/
theorem blocked_website_admitted :
    hasAuthMaterial (anonymousGet "") = false ∧
      bucketAndKey (anonymousGet "") blockedOptions.domain = some (str "b", str "k") ∧
      (∃ block, blockedStore.getBucketPublicAccessBlock (str "b") = .ok block ∧
        block.blockPublicPolicy = true ∧ block.restrictPublicBuckets = true) ∧
      ∃ r', (withAuthGate Sha256.platform blockedOptions 0 (anonymousGet "")).outcome =
        .admitted .publicWebsite r' :=
  ⟨by decide, by decide, ⟨_, rfl, rfl, rfl⟩, withAuthGate_blockedOptions⟩

end S000
