import S000.Auth.Principal
import S000.Server.Calls

/-!
# Server/Declared — digests that a request declares

An upload can declare digests of its body: `Content-MD5`, four checksum headers, and the hash of the
payload, which is a part of what is signed.  A `PUT` compares the first five with the body, the upload
of a part the four checksums.  The hash of the payload is compared by neither: the signature covers
the header, and nothing covers the body.
-/

namespace S000

open Strings Metadata Blob Prog

/-! ## Declarations -/

/-- `Content-MD5` is not there, or it is the digest of the data. -/
def ContentMD5Matches (P : Platform) (r : Request) (data : Bytes) : Prop :=
  r.header.get (str "Content-MD5") ≠ [] →
    Base64.stdDecode (r.header.get (str "Content-MD5")) = some (P.md5 data)

/-- Every checksum header is blank, or it is the checksum of the data. -/
def ChecksumsMatch (P : Platform) (r : Request) (data : Bytes) : Prop :=
  ∀ c ∈ checksumHeaders (digests P data),
    trimSpace (r.header.get c.1) ≠ [] → trimSpace (r.header.get c.1) = c.2

/-- The hash of the payload is not of 64 hexadecimal digits, or it is the hash of the data. -/
def PayloadMatches (P : Platform) (r : Request) (data : Bytes) : Prop :=
  ∀ hash, (r.header.get (str "X-Amz-Content-Sha256")).length = 64 →
    Hex.decode (r.header.get (str "X-Amz-Content-Sha256")) = some hash → hash = P.sha256 data

/-- A request as the gate hands it on after its signature was verified. -/
def Signed (P : Platform) (opts : Options) (r : Request) : Prop :=
  ∃ now r₀, (withAuthGate P opts now r₀).outcome = .admitted .verifier r

/-- **All that a request declares about its data is true.** -/
structure DeclaredMatch (P : Platform) (opts : Options) (r : Request) (data : Bytes) : Prop where
  contentMD5 : ContentMD5Matches P r data
  checksums : ChecksumsMatch P r data
  payload : Signed P opts r → PayloadMatches P r data

def S3Request.upload? : S3Request → Option (Request × Bytes)
  | .putObject r _ _ body | .uploadPart r _ _ _ body => some (r, (requestObjectBody r body).bytes)
  | _ => none

/-! ## What is checked -/

variable {a : S3API} {c : Ctx} {r : Request} {bucket key uploadID : Bytes} {body : Stream}
  {data : Bytes}

theorem checksumsMatch_of_valid {P : Platform}
    (h : validateChecksumHeaders r (digests P data) = none) : ChecksumsMatch P r data := by
  unfold validateChecksumHeaders at h
  split_ifs at h with hany
  intro c hc hdeclared
  by_contra hne
  exact hany (List.any_eq_true.2 ⟨c, hc, by simp [hdeclared, hne]⟩)

theorem matches_of_checkDigests {m : ObjectMeta} (hm : m.toDigests = digests a.platform data)
    (h : checkDigests r bucket key m = none) :
    ContentMD5Matches a.platform r data ∧ ChecksumsMatch a.platform r data := by
  have hdigest : (Hex.decode m.md5Hex).getD [] = a.platform.md5 data := by
    rw [show m.md5Hex = Hex.encode (a.platform.md5 data) from congrArg Digests.md5Hex hm,
      Hex.decode_encode, Option.getD_some]
  unfold checkDigests at h
  dsimp only at h
  by_cases hnil : r.header.get (str "Content-MD5") = []
  · rw [if_pos hnil] at h
    exact ⟨fun hne => absurd hnil hne, checksumsMatch_of_valid (hm ▸ h)⟩
  rw [if_neg hnil] at h
  cases hdecode : Base64.stdDecode (r.header.get (str "Content-MD5")) with
  | none =>
    rw [hdecode] at h
    cases h
  | some expected =>
    rw [hdecode, hdigest] at h
    dsimp only at h
    split_ifs at h with hexpected
    refine ⟨fun _ => ?_, checksumsMatch_of_valid (hm ▸ h)⟩
    rw [hdecode, not_not.1 hexpected]

abbrev anyAnswer : (o : Call) → o.Val → Prop := fun _ _ => True

abbrev anyCall : Call → Prop := fun _ => True

theorem checkDigests_error {m : ObjectMeta} {e : Reply} (h : checkDigests r bucket key m = some e) :
    e.accepted = false := by
  have hchecksums {e : Reply} (h : validateChecksumHeaders r m.toDigests = some e) :
      e.accepted = false := by
    unfold validateChecksumHeaders at h
    split_ifs at h
    rw [← Option.some.inj h]
    rfl
  unfold checkDigests at h
  dsimp only at h
  split at h
  · rw [← Option.some.inj h]
    rfl
  · split_ifs at h
    · rw [← Option.some.inj h]
      rfl
    · exact hchecksums h
  · exact hchecksums h

theorem validateSSEHeaders_error {e : Reply} (h : validateSSEHeaders a r bucket key = .error e) :
    e.accepted = false := by
  unfold validateSSEHeaders at h
  split_ifs at h <;> cases h <;> rfl

/-- A program whose answers all have a property, whatever is called and answered. -/
abbrev Returns {α : Type} (p : Act α) (Q : α → Prop) : Prop := p.Only anyAnswer anyCall Q

theorem runHeavy_returns {fn : Act Reply} {Q : Reply → Prop} (hslow : ∀ e, Q (.error e))
    (h : Returns fn Q) : Returns (runHeavy a bucket key fn) Q := by
  refine only_ite (fun _ => h) fun _ => ?_
  exact ⟨trivial, fun v _ => only_ite (fun _ => hslow _) fun _ => h⟩

theorem inBucket_returns {fn : Act Reply} {Q : Reply → Prop} (hnone : Q (noSuchBucket bucket))
    (h : Returns fn Q) : Returns (inBucket bucket fn) Q := by
  refine ⟨trivial, fun v _ => ?_⟩
  rcases v with _ | b
  · exact hnone
  · exact h

theorem stagePut_returns : Returns (stagePut a c r bucket key body) fun x =>
    (∀ e, x = .error e → e.accepted = false) ∧ ∀ row, x = .ok row →
      ContentMD5Matches a.platform r (requestObjectBody r body).bytes ∧
        ChecksumsMatch a.platform r (requestObjectBody r body).bytes := by
  have herr {e : Reply} {p : ObjectVersion → Prop} (he : e.accepted = false) :
      (∀ e', (.error e : Except Reply ObjectVersion) = .error e' → e'.accepted = false) ∧
        ∀ row, (.error e : Except Reply ObjectVersion) = .ok row → p row :=
    ⟨fun e' h => Except.error.inj h ▸ he, nofun⟩
  refine ⟨trivial, fun v _ => ?_⟩
  rcases v with _ | b
  · exact herr rfl
  refine (overwriteLocked_only fun _ _ => trivial).bind fun locked _ => ?_
  refine only_ite (fun _ => herr rfl) fun _ => ?_
  cases hsse : validateSSEHeaders a r bucket key with
  | error e => exact herr (validateSSEHeaders_error hsse)
  | ok encrypted =>
    refine (writeMaybeEncryptedObject_only (fun _ _ => trivial) fun _ => trivial).bind fun x hx => ?_
    rcases x with _ | m
    · exact herr rfl
    -- encrypted or not, the digests are those of the data
    obtain ⟨hm, -⟩ := hx m rfl
    dsimp only
    split
    next e he => exact ⟨trivial, fun _ _ => herr (checkDigests_error he)⟩
    next hok => exact ⟨fun e h => (by cases h), fun row _ => matches_of_checkDigests (by rw [hm]) hok⟩

/-- **A `PUT` is accepted with true digests only.** -/
theorem handlePutObject_returns : Returns (handlePutObject a c r bucket key body) fun reply =>
    reply.accepted = true → ContentMD5Matches a.platform r (requestObjectBody r body).bytes ∧
      ChecksumsMatch a.platform r (requestObjectBody r body).bytes := by
  refine runHeavy_returns nofun ?_
  refine stagePut_returns.bind fun x hx => ?_
  rcases x with e | row
  · intro h
    rw [hx.1 e rfl] at h
    cases h
  · refine ⟨trivial, fun v _ => ?_⟩
    rcases v with _ | _
    · exact ⟨trivial, nofun⟩
    · exact fun _ => hx.2 row rfl

/-- **A part is accepted with true checksums only.** -/
theorem handleUploadPart_returns : Returns (handleUploadPart a c r bucket key uploadID body)
    fun reply => reply.accepted = true →
      ChecksumsMatch a.platform r (requestObjectBody r body).bytes := by
  refine runHeavy_returns nofun ?_
  split
  · exact nofun
  refine (findUpload_only fun _ _ => trivial).bind fun x _ => ?_
  rcases x with _ | u
  · exact nofun
  refine (writeMultipartPart_only (fun _ _ => trivial) fun _ _ => trivial).bind fun x hx => ?_
  rcases x with _ | m
  · exact nofun
  have hm := (hx m rfl).1
  dsimp only
  split
  next e he =>
    refine ⟨trivial, fun _ _ h => ?_⟩
    unfold validateChecksumHeaders at he
    split_ifs at he
    rw [← Option.some.inj he] at h
    cases h
  next hok =>
    refine ⟨trivial, fun v _ => ?_⟩
    rcases v with _ | _
    · exact ⟨trivial, nofun⟩
    · exact fun _ => checksumsMatch_of_valid (hm ▸ hok)

/-- **When declared digests are enforced.**  What an accepted upload declares about its data is true
exactly when, for the upload of a part, `Content-MD5` is, and, for a signed request, the hash of the
payload is: the two that are not compared with the data. -/
theorem upload_declares_truly_iff {w : World} {s : Step} {opts : Options}
    (hs : s.request.upload? = some (r, data)) (haccepted : (respond a w s).1.accepted = true) :
    DeclaredMatch a.platform opts r data ↔
      (s.request.uploadsPart = true → ContentMD5Matches a.platform r data) ∧
        (Signed a.platform opts r → PayloadMatches a.platform r data) := by
  have hchecked : ChecksumsMatch a.platform r data ∧
      (s.request.uploadsPart = false → ContentMD5Matches a.platform r data) := by
    have hall : Returns (handle a s.ctx s.request) fun reply => reply.accepted = true →
        ChecksumsMatch a.platform r data ∧
          (s.request.uploadsPart = false → ContentMD5Matches a.platform r data) := by
      cases hreq : s.request <;> rw [hreq] at hs <;> cases hs
      · exact inBucket_returns nofun
          (handlePutObject_returns.mono fun _ h hreply => ⟨(h hreply).2, fun _ => (h hreply).1⟩)
      · exact inBucket_returns nofun (handleUploadPart_returns.mono fun _ h hreply => ⟨h hreply, nofun⟩)
    exact (respond_of_only (fun _ _ => True) (fun _ => True) (fun _ _ _ _ _ _ => ⟨trivial, trivial⟩)
      hall trivial (Machine.allowed_of_mem fun _ _ => trivial)).1 haccepted
  constructor
  · exact fun h => ⟨fun _ => h.contentMD5, h.payload⟩
  rintro ⟨hpart, hpayload⟩
  refine ⟨?_, hchecked.1, hpayload⟩
  cases hbool : s.request.uploadsPart with
  | true => exact hpart hbool
  | false => exact hchecked.2 hbool

/-! ## Uploads with declarations -/

def uploadHistory : List Step :=
  [⟨.createBucket (str "b"), sampleCtx 1, []⟩,
    ⟨.createMultipartUpload objectRequest (str "b") (str "k"), sampleCtx 2, []⟩]

/-- A request that declares what the digests of `one` are. -/
def declaringRequest (rawQuery : String := "") : Request :=
  objectRequest rawQuery [("Content-MD5", "+XxdKZQb+xsv2rCHSQargg=="),
    ("X-Amz-Checksum-Sha256", "dpLDrTVAu4A8Ags67mbNiIcSMjTqDG5xQ8Ct1z/0Me0="),
    ("X-Amz-Content-Sha256", "7692c3ad3540bb803c020b3aee66cd8887123234ea0c6e7143c0add73ff431ed")]

/-- A server that checks signatures with the sample verifier. -/
def signingOptions : Options :=
  { verifier := some (SigV4.sampleVerifier.verifyRequest sampleAPI.platform) }

/-- A `PUT` of what was declared. -/
theorem put_declares_truly :
    DeclaredMatch sampleAPI.platform signingOptions declaringRequest (str "one") := by
  have hpayload : PayloadMatches sampleAPI.platform declaringRequest (str "one") := by
    intro hash _ hdecode
    have hhash : Hex.decode (declaringRequest.header.get (str "X-Amz-Content-Sha256")) =
        some (Sha256.hash (str "one")) := by decide +kernel
    exact Option.some.inj (hdecode.symm.trans hhash)
  exact (upload_declares_truly_iff (w := afterAll sampleAPI {} uploadHistory)
    (s := ⟨.putObject declaringRequest (str "b") (str "k") ⟨str "one", false⟩, sampleCtx 3, []⟩)
    rfl (by decide +kernel)).2 ⟨fun h => (by cases h), fun _ => hpayload⟩

/-- A signed `PUT` of `k` in `b`, which declares the hash of `sent`. -/
def signedPut : Request where
  method := str "PUT"
  host := str "s3.local"
  remoteAddr := str "10.0.0.1:4711"
  url := { path := str "/b/k" }
  header := .ofList
    [(str "X-Amz-Date", str "20260101T120000Z"),
      (str "X-Amz-Content-Sha256",
        str "7afbb3347fb7252e533d58d99d72d9106fc6fdb3f30df23fa70b764c15ac42c5"),
      (str "Authorization", str <| "AWS4-HMAC-SHA256 " ++
        "Credential=AKID/20260101/us-east-1/s3/aws4_request, " ++
        "SignedHeaders=host;x-amz-content-sha256;x-amz-date, " ++
        "Signature=993bf68d430353d83c7e9803319cd63c7cfe87ebd56504b297c2b745f9febf03")]

/-- A `PUT` of some data. -/
def putStep (r : Request) (data : String) : Step :=
  ⟨.putObject r (str "b") (str "k") ⟨str data, false⟩, sampleCtx 3, []⟩

/-- The upload of a part under the `Content-MD5` of `one`. -/
def partStep (data : String) : Step :=
  ⟨.uploadPart (objectRequest "partNumber=1" [("Content-MD5", "+XxdKZQb+xsv2rCHSQargg==")]) (str "b")
    (str "k") (str "2-") ⟨str data, false⟩, sampleCtx 3, []⟩

/-- The `PUT` of altered data under a request that was admitted is accepted, with the hash of other
data. -/
def acceptsAltered : Outcome → Bool
  | .admitted .verifier r =>
    (respond sampleAPI (afterAll sampleAPI {} uploadHistory) (putStep r "altered")).1.accepted &&
      r.header.get (str "X-Amz-Content-Sha256") = Hex.encode (Sha256.hash (str "sent"))
  | _ => false

/-- **Uploads of something else** are accepted: a part under the `Content-MD5` of other data, and an
object under the signed hash of other data. -/
theorem upload_of_other_data :
    ((respond sampleAPI (afterAll sampleAPI {} uploadHistory) (partStep "two")).1.accepted = true ∧
      ∃ r, (partStep "two").request.upload? = some (r, str "two") ∧
        ¬ DeclaredMatch sampleAPI.platform signingOptions r (str "two")) ∧
    ∃ r, Signed sampleAPI.platform signingOptions r ∧
      (respond sampleAPI (afterAll sampleAPI {} uploadHistory) (putStep r "altered")).1.accepted =
        true ∧
      ¬ PayloadMatches sampleAPI.platform r (str "altered") := by
  refine ⟨⟨by decide +kernel, _, rfl, fun h => ?_⟩, ?_⟩
  · have hmd5 := h.contentMD5 (by decide)
    exact absurd hmd5 (by decide +kernel)
  have hgate : acceptsAltered
      (withAuthGate sampleAPI.platform signingOptions 0 signedPut).outcome = true := by
    decide +kernel
  cases hout : (withAuthGate sampleAPI.platform signingOptions 0 signedPut).outcome with
  | bypassed | rejected =>
    rw [hout] at hgate
    cases hgate
  | admitted how r =>
    rw [hout] at hgate
    cases how with
    | bearer | anonymousPolicy | publicWebsite => cases hgate
    | verifier =>
      rw [acceptsAltered, Bool.and_eq_true, decide_eq_true_eq] at hgate
      refine ⟨r, ⟨0, signedPut, hout⟩, hgate.1, fun h => ?_⟩
      have hsame := h (Sha256.hash (str "sent")) (by rw [hgate.2]; decide +kernel)
        (by rw [hgate.2, Hex.decode_encode])
      exact absurd hsame (by decide +kernel)

end S000
