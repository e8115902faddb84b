import S000.Server.Parts

/-!
# Server/Assembly — what a completed upload consists of

A completion that is answered with 200 has stored the listed parts in their order: the bytes of the last
upload of each, whichever of the three ways it takes to put them together (the promotion of a single
part, a copy of all parts, and an encrypted copy).  What connects the rows a completion reads with the
files it copies is the invariant of `Server/Parts`.
-/

namespace S000

open Strings Metadata Blob Machine MemoryState List Versions Option

/-! ## The list of parts -/

structure PartsListed (stored : ℤ → Option MultipartPart) (parts : List CompletedPart) : Prop where
  ordered : (parts.map CompletedPart.partNumber).Pairwise (· < ·)
  known : ∀ p ∈ parts, ∃ row, stored p.partNumber = some row ∧ trim p.eTag (str "\"") = row.eTag
  large : ∀ p ∈ parts.dropLast, ∃ row, stored p.partNumber = some row ∧
    minMultipartPartSize ≤ row.size

variable {a : S3API} {g : Uploads} {w w' : World} {c : Ctx} {r : Request} {s : Step}
  {bucket key uploadID : Bytes} {stored : ℤ → Option MultipartPart} {parts : List CompletedPart}
  {body : XmlBody (List CompletedPart)} {ref : ObjectRef}

theorem partsListed_nil : PartsListed stored [] := ⟨.nil, fun _ h => (by cases h), nofun⟩

theorem partsListed_cons_iff {p : CompletedPart} : PartsListed stored (p :: parts) ↔
    (∀ p' ∈ parts, p.partNumber < p'.partNumber) ∧
      (∃ row, stored p.partNumber = some row ∧ trim p.eTag (str "\"") = row.eTag ∧
        (parts ≠ [] → minMultipartPartSize ≤ row.size)) ∧ PartsListed stored parts := by
  constructor
  · rintro ⟨hordered, hknown, hlarge⟩
    rw [map_cons, pairwise_cons] at hordered
    obtain ⟨row, hrow, htag⟩ := hknown p mem_cons_self
    refine ⟨fun p' hp' => hordered.1 _ (mem_map_of_mem hp'), ⟨row, hrow, htag, fun hne => ?_⟩,
      hordered.2, fun p' hp' => hknown p' (mem_cons_of_mem p hp'), fun p' hp' => ?_⟩
    · obtain ⟨row', hrow', hsize⟩ := hlarge p (by simp [dropLast_cons_of_ne_nil hne])
      obtain rfl := some.inj (hrow.symm.trans hrow')
      exact hsize
    · have hne : parts ≠ [] := by
        rintro rfl
        cases hp'
      exact hlarge p' (by simp [dropLast_cons_of_ne_nil hne, hp'])
  · rintro ⟨hlt, ⟨row, hrow, htag, hsize⟩, hordered, hknown, hlarge⟩
    refine ⟨?_, fun p' hp' => ?_, fun p' hp' => ?_⟩
    · rw [map_cons, pairwise_cons]
      refine ⟨fun n hn => ?_, hordered⟩
      obtain ⟨p', hp', rfl⟩ := mem_map.1 hn
      exact hlt p' hp'
    · rcases mem_cons.1 hp' with rfl | hp'
      · exact ⟨row, hrow, htag⟩
      · exact hknown p' hp'
    · by_cases hne : parts = []
      · subst hne
        cases hp'
      rw [dropLast_cons_of_ne_nil hne] at hp'
      rcases mem_cons.1 hp' with rfl | hp'
      · exact ⟨row, hrow, hsize hne⟩
      · exact hlarge p' hp'

/-- **The checks**, from a part on; `previous` is the number of the part before. -/
theorem checkParts_eq_none_iff {previous : Option ℤ} :
    checkParts bucket key stored previous parts = none ↔
      (∀ n ∈ previous, ∀ p ∈ parts, n < p.partNumber) ∧ PartsListed stored parts := by
  induction parts generalizing previous with
  | nil => simp [checkParts, partsListed_nil]
  | cons p rest ih =>
    rw [partsListed_cons_iff, checkParts]
    split_ifs with hprevious
    · -- the number is not above the one before
      refine ⟨fun h => (by cases h), fun h => ?_⟩
      obtain ⟨n, hn, hle⟩ := (any_eq_true _ _).1 hprevious
      exact absurd (h.1 n hn p mem_cons_self) (not_lt.2 (of_decide_eq_true hle))
    have hlt : ∀ n ∈ previous, n < p.partNumber := by
      intro n hn
      by_contra hle
      exact hprevious ((any_eq_true _ _).2 ⟨n, hn, decide_eq_true (not_lt.1 hle)⟩)
    cases hrow : stored p.partNumber with
    | none => simp
    | some row =>
      dsimp only
      split_ifs with htag hsize
      · simp [htag]
      · simp [hsize.1, hsize.2]
      rw [ih]
      simp only [mem_some_iff, forall_eq']
      constructor
      · rintro ⟨hnext, hrest⟩
        refine ⟨fun n hn p' hp' => ?_, hnext, ⟨row, rfl, not_not.1 htag, fun hne => ?_⟩, hrest⟩
        · rcases mem_cons.1 hp' with rfl | hp'
          · exact hlt n hn
          · exact (hlt n hn).trans (hnext p' hp')
        · exact not_lt.1 fun h => hsize ⟨hne, h⟩
      · rintro ⟨-, hnext, -, hrest⟩
        exact ⟨hnext, hrest⟩

theorem listedParts_eq_ok (h : listedParts bucket key stored body = .ok parts) :
    body = .document parts ∧ PartsListed stored parts := by
  unfold listedParts at h
  cases body with
  | unreadable | malformed => cases h
  | document parts' =>
    dsimp only at h
    split_ifs at h
    cases hcheck : checkParts bucket key stored none parts' with
    | some e =>
      rw [hcheck] at h
      cases h
    | none =>
      rw [hcheck] at h
      cases h
      exact ⟨rfl, (checkParts_eq_none_iff.1 hcheck).2⟩

theorem listedParts_eq_error {e : Reply} (h : listedParts bucket key stored body = .error e) :
    ∃ err, e = .error err := by
  have hcheck : ∀ {parts : List CompletedPart} {previous : Option ℤ} {e : Reply},
      checkParts bucket key stored previous parts = some e → ∃ err, e = .error err := by
    intro parts
    induction parts with
    | nil => exact nofun
    | cons p rest ih =>
      intro previous e h
      rw [checkParts] at h
      split_ifs at h
      · exact ⟨_, (some.inj h).symm⟩
      split at h
      · exact ⟨_, (some.inj h).symm⟩
      split_ifs at h
      · exact ⟨_, (some.inj h).symm⟩
      · exact ⟨_, (some.inj h).symm⟩
      · exact ih h
  unfold listedParts at h
  cases body with
  | unreadable | malformed => exact ⟨_, (Except.error.inj h).symm⟩
  | document parts =>
    dsimp only at h
    split_ifs at h
    · exact ⟨_, (Except.error.inj h).symm⟩
    · exact ⟨_, (Except.error.inj h).symm⟩
    split at h
    next e' he' =>
      cases h
      exact hcheck he'
    next => cases h

variable {u : MultipartUpload} {rows : List MultipartPart}

theorem storedByNumber_eq_some {n : ℤ} {row : MultipartPart} (hw : Staging a g w)
    (hrows : w.metadata.getMultipartUpload uploadID = .ok (u, rows))
    (h : storedByNumber rows n = some row) :
    (w.metadata.partsOf uploadID).lookup n = some row ∧ row.partNumber = n := by
  unfold getMultipartUpload at hrows
  have hnumber : row.partNumber = n := by simpa using find?_some h
  have hmem : row ∈ rows := mem_reverse.1 (mem_of_find?_eq_some h)
  split at hrows
  · cases hrows
  obtain ⟨-, rfl⟩ := Prod.mk.inj (Except.ok.inj hrows)
  obtain ⟨n', -, hn'⟩ := mem_filterMap.1 hmem
  obtain rfl : n' = n := (hw.numbered uploadID n' row hn').symm.trans hnumber
  exact ⟨hn', hnumber⟩

theorem multipart_of_getMultipartUpload (h : w.metadata.getMultipartUpload uploadID = .ok (u, rows)) :
    w.metadata.multipart.lookup uploadID = some u := by
  unfold getMultipartUpload at h
  split at h
  · cases h
  next u' hu =>
    obtain ⟨rfl, -⟩ := Prod.mk.inj (Except.ok.inj h)
    exact hu

/-! ## The object -/

/-- **The blob of a completed upload**: the part files in order, encrypted if the upload says so. -/
theorem assemble_ensures {numbers : List ℤ}
    (hnumber : ∀ n row, stored n = some row → row.partNumber = n)
    (hsize : ∀ n row d, stored n = some row → w.disk.staged uploadID n = some d → row.size = d.length) :
    stores.Ensures (fun x w' => ∀ m, x = some m → ∃ datas,
        Forall₂ (fun n d => w.disk.staged uploadID n = some d) numbers datas ∧
          (m.ref = ref ∧ m.path = a.path ref ∧ m.size = datas.flatten.length) ∧
          w.Stored w' (a.path ref)
            (storedBytes a c.iv (u.sseAlgorithm = sseAlgorithmAES256) datas.flatten))
      (assemble a c u stored uploadID numbers ref) w := by
  have hcopy (encrypted : Bool) : stores.Ensures (fun x w' => ∀ m, x = some m → ∃ datas,
        Forall₂ (fun n d => w.disk.staged uploadID n = some d) numbers datas ∧
          (m.ref = ref ∧ m.path = a.path ref ∧ m.size = datas.flatten.length) ∧
          w.Stored w' (a.path ref) (storedBytes a c.iv encrypted datas.flatten))
      (completeMultipartUploadWithWriter uploadID numbers fun src =>
        writeMaybeEncryptedObject a c ref src encrypted) w := by
    refine completeMultipartUploadWithWriter_ensures
      (R := fun data m => m.ref = ref ∧ m.path = a.path ref ∧ m.size = data.length) fun src => ?_
    refine (writeMaybeEncryptedObject_ensures encrypted).mono fun x w' hx m hm => ?_
    obtain ⟨rfl, hfails, hstored⟩ := hx m hm
    exact ⟨⟨rfl, rfl, rfl⟩, hfails, hstored⟩
  unfold assemble
  split_ifs with hsse
  · simpa only [hsse, decide_true] using hcopy true
  simp only [hsse]
  split
  next n =>
    cases hrow : stored n with
    | none => exact nofun
    | some row =>
      obtain rfl := hnumber n row hrow
      refine promoteMultipartPart_ensures.mono fun x w' hx m hm => ?_
      obtain ⟨d, hd, rfl, hstored⟩ := hx m hm
      refine ⟨[d], .cons hd .nil, ⟨rfl, rfl, ?_⟩, ?_⟩
      · simpa [partDigests] using hsize _ row d hrow hd
      · simpa [storedBytes] using hstored
  next => exact hcopy false

/-- **The parts of a completion**: what its list says about the last uploads. -/
structure PartsOf (a : S3API) (g : Uploads) (uploadID : Bytes) (parts : List CompletedPart)
    (datas : List Bytes) : Prop where
  ordered : (parts.map CompletedPart.partNumber).Pairwise (· < ·)
  last : Forall₂ (fun p d => g uploadID p.partNumber = some d ∧
    trim p.eTag (str "\"") = Hex.encode (a.platform.md5 d)) parts datas
  large : ∀ d ∈ datas.dropLast, minMultipartPartSize ≤ d.length

def multipartETag (a : S3API) (datas : List Bytes) : Bytes :=
  Hex.encode (a.platform.md5 (datas.map a.platform.md5).flatten) ++ str "-" ++
    Strconv.itoa datas.length

/-- **A row of an assembled object**, and its file. -/
structure AssembledRow (a : S3API) (w : World) (datas : List Bytes) (row : ObjectVersion) : Prop where
  object : row.deleteMarker = false
  size : row.size = datas.flatten.length
  eTag : row.eTag = multipartETag a datas
  file : ∃ file, w.disk.files row.storagePath = some file ∧ Decipherable a row file ∧
    content a row file = datas.flatten

theorem PartsListed.partsOf {datas : List Bytes} (h : PartsListed (storedByNumber rows) parts)
    (hw : Staging a g w) (hrows : w.metadata.getMultipartUpload uploadID = .ok (u, rows))
    (hdatas : Forall₂ (fun n d => w.disk.staged uploadID n = some d)
      (parts.map CompletedPart.partNumber) datas) : PartsOf a g uploadID parts datas := by
  induction parts generalizing datas with
  | nil =>
    cases hdatas
    exact ⟨.nil, .nil, nofun⟩
  | cons p rest ih =>
    cases hdatas with
    | @cons _ d _ datas hd hdatas =>
      obtain ⟨-, ⟨row, hrow, htag, hsize⟩, hrest⟩ := partsListed_cons_iff.1 h
      obtain ⟨-, hlast, hlarge⟩ := ih hrest hdatas
      obtain ⟨hg, heTag, hlength⟩ := hw.part uploadID p.partNumber row d
        (storedByNumber_eq_some hw hrows hrow).1 hd
      refine ⟨h.ordered, .cons ⟨hg, htag.trans heTag⟩ hlast, fun d' hd' => ?_⟩
      cases datas with
      | nil => cases hd'
      | cons d₂ datas =>
        have hne : rest ≠ [] := by
          rintro rfl
          cases hdatas
        rcases mem_cons.1 hd' with rfl | hd'
        · exact hlength ▸ hsize hne
        · exact hlarge d' hd'

theorem PartsOf.calculateMultipartETag_eq {datas : List Bytes} (h : PartsOf a g uploadID parts datas) :
    calculateMultipartETag a.platform (parts.map fun p => trim p.eTag (str "\"")) =
      multipartETag a datas := by
  have htags : (parts.map fun p => trim p.eTag (str "\"")) =
      datas.map fun d => Hex.encode (a.platform.md5 d) := by
    rw [← forall₂_eq_eq_eq, forall₂_map_left_iff, forall₂_map_right_iff]
    exact h.last.imp fun p d hp => hp.2
  have hdecode (d : Bytes) : Hex.decode (trim (Hex.encode (a.platform.md5 d)) (str "\"")) =
      some (a.platform.md5 d) := by
    rw [trim_eq_self, Hex.decode_encode]
    intro b hb hquote
    rw [show str "\"" = [0x22] by decide, mem_singleton] at hquote
    exact Hex.quote_not_mem_encode _ (hquote ▸ hb)
  rw [htags, calculateMultipartETag, multipartETag, filterMap_map, length_map]
  simp [hdecode]

theorem overwriteLocked_idle {versionID : Bytes} : (overwriteLocked c bucket key versionID).Only
    (fun _ _ => True) Call.Idle fun _ => True := by
  refine Prog.only_ite (fun _ => ?_) fun _ => trivial
  refine ⟨trivial, fun v _ => ?_⟩
  rcases v with e | existing <;> trivial

variable {B : World → Event calls Fault → Prop}

/-- **A completion up to its row.** -/
theorem stageComplete_ensuresWhen (hw : Staging a g w) :
    stores.EnsuresWhen B (StageOutcome fun row w' => ∃ parts datas,
        body = .document parts ∧ PartsOf a g uploadID parts datas ∧ AssembledRow a w' datas row ∧
          (row.bucket = bucket ∧ row.key = key) ∧ w'.metadata = w.metadata)
      (stageComplete a c r bucket key uploadID body) w := by
  refine findUpload_ensuresWhen.bind fun x w₁ hx => ?_
  obtain ⟨rfl, hfound⟩ := hx
  rcases x with _ | ⟨u, rows⟩
  · exact .error rfl
  have hrows := (hfound u rows rfl).1
  dsimp only
  cases hlisted : listedParts bucket key (storedByNumber rows) body with
  | error e =>
    obtain ⟨err, rfl⟩ := listedParts_eq_error hlisted
    exact .error rfl
  | ok parts =>
    obtain ⟨rfl, hparts⟩ := listedParts_eq_ok hlisted
    simp only [ensuresWhen_bind]
    refine Ensures.when (ensures_ask_idle trivial fun v w₂ hkept₂ => ?_)
    cases v with
    | error e => exact .error rfl
    | ok b =>
      refine (ensures_idle overwriteLocked_idle).when.bind fun locked w₃ hlocked => ?_
      refine ensuresWhen_ite stores (fun _ => .error rfl) fun _ => ?_
      simp only [ensuresWhen_bind]
      have hkept : w₁.Kept w₃ := hkept₂.trans hlocked.2
      have hw₃ : Staging a g w₃ := hw.of_shrinks hkept.shrinks
      have hrows₃ : w₃.metadata.getMultipartUpload uploadID = .ok (u, rows) := by
        rw [hkept.metadata, hrows]
      refine (assemble_ensures (fun n row h => (storedByNumber_eq_some hw₃ hrows₃ h).2)
        fun n row d h hd => ?_).when.mono fun x w₄ hx => ?_
      · exact (hw₃.part _ _ _ _ (storedByNumber_eq_some hw₃ hrows₃ h).1 hd).2.2
      rcases x with _ | m
      · exact .error rfl
      obtain ⟨datas, hdatas, ⟨href, hpath, hsize⟩, hstored⟩ := hx m rfl
      have hof := hparts.partsOf hw₃ hrows₃ hdatas
      refine .ok ⟨parts, datas, rfl, hof, ⟨rfl, hsize, hof.calculateMultipartETag_eq, ?_⟩,
        ⟨congrArg ObjectRef.bucket href, congrArg ObjectRef.key href⟩,
        hstored.metadata.trans hkept.metadata⟩
      have hmark : objectUsesSSE (objectRow m (calculateMultipartETag a.platform
          (parts.map fun p => trim p.eTag (str "\""))) (markSSEMetadata ∅
            (u.sseAlgorithm = sseAlgorithmAES256))) =
          decide (u.sseAlgorithm = sseAlgorithmAES256) := objectUsesSSE_of_mark rfl
      refine exists_content (c := c) hmark hsize (fun hsse => ?_) ?_
      · exact hw₃.keyed uploadID u (multipart_of_getMultipartUpload hrows₃) (of_decide_eq_true hsse)
      · change w₄.disk.files m.path = _
        rw [hstored.files, hpath, Function.update_self]

/-! ## The version -/

/-- A `GET` that asks for a version a request has just put: by its key, or by an id that is its own. -/
def AsksFor (w : World) (r : Request) (row : ObjectVersion) : Prop :=
  r.query.get (str "versionId") = [] ∨ r.query.get (str "versionId") = row.versionID ∧
    (row.versionID = nullVersion ∨ row.versionID ∉
      (w.metadata.versions row.bucket row.key).map ObjectVersion.versionID)

variable {row : ObjectVersion}

theorem AsksFor.requested (h : AsksFor w r row) (hrows : w'.metadata.versions row.bucket row.key =
      put ObjectVersion.versionID nullVersion row (w.metadata.versions row.bucket row.key)) :
    requested w' r row.bucket row.key = .ok row := by
  have hlast : (w'.metadata.versions row.bucket row.key).getLast? = some row := by
    rw [hrows, put, getLast?_append]
    rfl
  unfold S000.requested getObjectVersion
  split_ifs with hnil
  · rw [getLatestObjectVersion, hlast]
  rcases h with h | ⟨hid, hunused⟩
  · exact absurd h hnil
  have hfind : ((w'.metadata.versions row.bucket row.key).find?
      fun v => v.versionID = r.query.get (str "versionId")) = some row := by
    rw [hrows, hid]
    exact find_put_self hunused
  rw [hfind]

/-- The rows after a put: the new one is the last, -/
theorem getLast?_of_put {w₁ : World}
    (hsame : ({ w₁ with metadata := w₁.metadata.putObjectVersion row }).Same w') :
    (w'.metadata.versions row.bucket row.key).getLast? = some row := by
  rw [hsame.versions, versions_putObjectVersion, if_pos ⟨rfl, rfl⟩, put, getLast?_append]
  rfl

/-- …and a `GET` that asks for it delivers its file. -/
theorem getReply_of_put {w₁ : World} {data : Bytes}
    (hsame : ({ w₁ with metadata := w₁.metadata.putObjectVersion row }).Same w')
    (hmetadata : w₁.metadata = w.metadata) (hb : row.bucket ∈ w.metadata.buckets)
    (hobject : row.deleteMarker = false)
    (hfile : ∃ file, w₁.disk.files row.storagePath = some file ∧ Decipherable a row file ∧
      content a row file = data) (hr : r.Unconditional) (hasks : AsksFor w r row) :
    getReply a w' r row.bucket row.key = .answer 200 (objectHeaders a.platform row) (.object data) := by
  obtain ⟨file, hfile, hkey, rfl⟩ := hfile
  have hversions : w'.metadata.versions row.bucket row.key =
      put ObjectVersion.versionID nullVersion row (w.metadata.versions row.bucket row.key) := by
    rw [hsame.versions, versions_putObjectVersion, if_pos ⟨rfl, rfl⟩, hmetadata]
  refine getReply_of_found hr ?_ (hasks.requested hversions) hobject ?_ hkey
  · rw [hsame.1]
    change row.bucket ∈ (w₁.metadata.dropNullVersion row).buckets
    rwa [buckets_dropNullVersion, hmetadata]
  · rw [hsame.2.2, hfile]

/-- **What a completion that is answered with 200 leaves behind.** -/
def Assembled (a : S3API) (g : Uploads) (w w' : World) (bucket key uploadID : Bytes)
    (body : XmlBody (List CompletedPart)) : Prop :=
  ∃ parts datas row, body = .document parts ∧ PartsOf a g uploadID parts datas ∧
    (w'.metadata.versions bucket key).getLast? = some row ∧
    row.size = datas.flatten.length ∧ row.eTag = multipartETag a datas ∧
    ∀ r, r.Unconditional → AsksFor w r row → getReply a w' r bucket key =
      .answer 200 (objectHeaders a.platform row) (.object datas.flatten)

/-- **A completion.** -/
theorem handleCompleteMultipartUpload_ensuresWhen (hw : Staging a g w)
    (hb : bucket ∈ w.metadata.buckets) :
    stores.EnsuresWhen B (fun reply w' => reply.accepted = true →
        Assembled a g w w' bucket key uploadID body)
      (handleCompleteMultipartUpload a c r bucket key uploadID body) w := by
  refine .mono (fun reply w' hreply haccepted => ?_)
    (commit_ensuresWhen (stageComplete_ensuresWhen hw) rfl fun _ => ⟨trivial, fun _ _ => trivial⟩)
  obtain ⟨row, w₁, ⟨parts, datas, rfl, hof, hrow, ⟨rfl, rfl⟩, hmetadata⟩, hsame⟩ := hreply haccepted
  exact ⟨parts, datas, row, rfl, hof, getLast?_of_put hsame, hrow.size, hrow.eTag,
    fun r' hr' hasks => getReply_of_put hsame hmetadata hb hrow.object hrow.file hr' hasks⟩

/-! ## Histories -/

theorem Staging.assembled (hw : Staging a g w)
    (hs : s.request = .completeMultipartUpload r bucket key uploadID body)
    (haccepted : (respond a w s).1.accepted = true) :
    Assembled a g w (S000.after a w s) bucket key uploadID body :=
  respond_of_request hs (inBucket_ensuresWhen (fun h => by cases h) fun hb =>
    handleCompleteMultipartUpload_ensuresWhen hw hb) haccepted

/-- **Multipart assembly.**  After every history from an empty server in which no upload of a part had a
failed sync or a failed clean-up, a completion that is accepted, whatever goes wrong in it, lists the last
uploads of its parts, in order, all but the last of at least 5 MiB, and a `GET` of the version it has put
delivers them one after the other. -/
theorem completion_assembles {history : List Step}
    (hhistory : Throughout a (StagingCondition a) {} history)
    (hs : s.request = .completeMultipartUpload r bucket key uploadID body)
    (haccepted : (respond a (afterAll a {} history) s).1.accepted = true) :
    Assembled a (lastUploads a {} (fun _ _ => none) history) (afterAll a {} history)
      (after a (afterAll a {} history) s) bucket key uploadID body := by
  have hw := (staging_empty (g := fun _ _ => none)).afterAll hhistory
  exact hw.assembled hs haccepted

/-! ## Two histories -/

def strictAPI : S3API :=
  { sampleAPI with blob := { sampleAPI.blob with fsyncMode := .strict } }

def partUpload (data : String) (now : Time) (faults : List Fault := []) : Step :=
  ⟨.uploadPart (objectRequest "partNumber=1") (str "b") (str "k") (str "2-") ⟨str data, false⟩,
    sampleCtx now, faults⟩

def partHistory : List Step :=
  [⟨.createBucket (str "b"), sampleCtx 1, []⟩,
    ⟨.createMultipartUpload objectRequest (str "b") (str "k"), sampleCtx 2, []⟩,
    partUpload "old" 3]

/-- The part is uploaded again, and the sync of its directory fails. -/
def unsyncedHistory : List Step :=
  partHistory ++ [partUpload "new" 4 (replicate 8 .ok ++ [.refused])]

/-- The list of a completion: the part as it was uploaded first. -/
def oldPart : List CompletedPart := [⟨1, Hex.encode (Md5.hash (str "old"))⟩]

def oldCompletion : Step :=
  ⟨.completeMultipartUpload objectRequest (str "b") (str "k") (str "2-") (.document oldPart),
    sampleCtx 5, []⟩

/-- A completion that delivers what was uploaded last: the part was replaced, and put again. -/
theorem completion_assembles_again :
    let history := partHistory ++ [partUpload "new" 4, partUpload "old" 4]
    (respond strictAPI (afterAll strictAPI {} history) oldCompletion).1.accepted = true ∧
      Assembled strictAPI (lastUploads strictAPI {} (fun _ _ => none) history)
        (afterAll strictAPI {} history) (after strictAPI (afterAll strictAPI {} history) oldCompletion)
        (str "b") (str "k") (str "2-") (.document oldPart) := by
  intro history
  have haccepted : (respond strictAPI (afterAll strictAPI {} history) oldCompletion).1.accepted =
      true := by decide +kernel
  refine ⟨haccepted, completion_assembles ?_ rfl haccepted⟩
  exact ⟨stagingCondition_of_faultless rfl, stagingCondition_of_faultless rfl,
    stagingCondition_of_faultless rfl, stagingCondition_of_faultless rfl,
    stagingCondition_of_faultless rfl, trivial⟩

/-- **A completion that delivers something else**: the upload that failed has replaced the part file, and
the row of the part is still the old one. -/
theorem unsynced_completion :
    (respond strictAPI (afterAll strictAPI {} unsyncedHistory) oldCompletion).1.accepted = true ∧
      ¬ Assembled strictAPI (lastUploads strictAPI {} (fun _ _ => none) unsyncedHistory)
        (afterAll strictAPI {} unsyncedHistory)
        (after strictAPI (afterAll strictAPI {} unsyncedHistory) oldCompletion)
        (str "b") (str "k") (str "2-") (.document oldPart) := by
  refine ⟨by decide +kernel, ?_⟩
  rintro ⟨parts, datas, row, hbody, hof, -, -, -, hget⟩
  obtain rfl : oldPart = parts := XmlBody.document.inj hbody
  have hlast : lastUploads strictAPI {} (fun _ _ => none) unsyncedHistory (str "2-") 1 =
      some (str "old") := by decide +kernel
  obtain ⟨d, hd, rfl⟩ : ∃ d, lastUploads strictAPI {} (fun _ _ => none) unsyncedHistory (str "2-") 1 =
      some d ∧ datas = [d] := by
    cases hof.last with
    | cons hp hrest =>
      cases hrest
      exact ⟨_, hp.1, rfl⟩
  obtain rfl := some.inj (hd.symm.trans hlast)
  have hreply := hget objectRequest ⟨by decide, by decide, by decide, by decide, by decide⟩
    (.inl (by decide))
  have hnew : (getReply strictAPI (after strictAPI (afterAll strictAPI {} unsyncedHistory)
      oldCompletion) objectRequest (str "b") (str "k")).content? = some (str "new") := by
    decide +kernel
  rw [hreply] at hnew
  exact absurd (some.inj hnew) (by decide)

end S000
