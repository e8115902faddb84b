import S000.Server.S3

/-!
# Server/Calls — what a handler may call

One lemma for each handler: under which assumptions on the answers it makes which calls.  The answers
of the stores are whatever `A` allows and the calls are whatever `G` allows, so that the same lemma
serves a run on one world (where `A` says what that world answers) and a run among others.

A write has a `Target`: the reference it may put a blob under, given what it was told about the bucket
and about the lock of the version it replaces.  The row it ends with is `Written`.
-/

namespace S000

open Strings Metadata Blob Prog Call

/-- A call that put an object file in place, with its answer. -/
def Call.Placed (path : Bytes) : (o : Call) → o.Val → Prop
  | rename _ _ p, v | promote _ _ p, v => p = path ∧ v = true
  | _, _ => False

variable (a : S3API) (A : (o : Call) → o.Val → Prop) (G : Call → Prop) (c : Ctx)
  (bucket key : Bytes)

abbrev S3API.path (ref : ObjectRef) : Bytes := objectPath a.platform a.blob ref

/-- The version was read, and what was read is not locked. -/
def Unlocked (versionID : Bytes) : Prop :=
  ∃ v : Except Error ObjectVersion, A (.getObjectVersion bucket key versionID) v ∧
    ∀ obj, v = .ok obj → objectLocked obj c.now = false

/-- A reference that a write may put a blob under. -/
structure Target (ref : ObjectRef) : Prop where
  bucket_eq : ref.bucket = bucket
  key_eq : ref.key = key
  versionID_eq : ∃ b, A (.getBucket bucket) (.ok b) ∧ ref.versionID = writtenVersionID c b
  unlocked : ref.versionID = nullVersion → Unlocked A c bucket key nullVersion

/-- A row that a write may put. -/
structure Written (row : ObjectVersion) : Prop where
  target : Target A c bucket key (blobRef row)
  path_eq : row.storagePath = a.path (blobRef row)
  marker_eq : row.deleteMarker = false
  placed : ∃ o v, Placed row.storagePath o v ∧ A o v

/-- The calls a write needs; a blob is removed only after it was put in place. -/
structure WriteGuard : Prop where
  remove : ∀ ref, Target A c bucket key ref →
    (∃ o v, Placed (a.path ref) o v ∧ A o v) → G (.remove (a.path ref))
  rename : ∀ ref, Target A c bucket key ref → ∀ id content, G (.rename id content (a.path ref))
  put : ∀ row, Written a A c bucket key row → G (.putObjectVersion row)

variable {a A G c bucket key} {r : Request} {body : Stream} {uploadID versionID : Bytes}
  {row : ObjectVersion}

theorem writtenVersionID_cases (c : Ctx) (b : Bucket) :
    writtenVersionID c b = nullVersion ∨ writtenVersionID c b = newVersionID c 0 := by
  unfold writtenVersionID
  split_ifs
  · exact .inr rfl
  · exact .inl rfl

/-! ## Parts of handlers -/

section Parts

variable (hq : ∀ o, Idle o → G o)

include hq

theorem runHeavy_only {fn : Act Reply} (h : fn.Only A G fun _ => True) :
    (runHeavy a bucket key fn).Only A G fun _ => True := by
  refine only_ite (fun _ => h) fun _ => ?_
  exact ⟨hq _ trivial, fun v _ => only_unless fun _ => h⟩

variable {action outcome reason : String}

theorem emitAudit_only : (emitAudit a r action outcome bucket key reason).Only A G fun _ => True :=
  only_ite (fun _ => ⟨hq _ trivial, fun _ _ => trivial⟩) fun _ => trivial

theorem audited_only {reply : Reply} :
    ((emitAudit a r action outcome bucket key reason) >>= fun _ => pure reply).Only A G
      fun _ => True := by
  exact (emitAudit_only hq).bind fun _ _ => trivial

theorem inBucket_only {fn : Act Reply} (h : fn.Only A G fun _ => True) :
    (inBucket bucket fn).Only A G fun _ => True := by
  refine ⟨hq _ trivial, fun v _ => ?_⟩
  rcases v with _ | b
  · trivial
  · exact h

theorem versionLocked_only : (versionLocked c bucket key versionID).Only A G fun locked =>
    locked = false → Unlocked A c bucket key versionID := by
  refine ⟨hq _ trivial, fun v hv => ?_⟩
  rcases v with e | obj
  · exact fun _ => ⟨.error e, hv, nofun⟩
  · intro hlocked
    exact ⟨.ok obj, hv, fun obj' h => by rwa [← Except.ok.inj h]⟩

theorem overwriteLocked_only : (overwriteLocked c bucket key versionID).Only A G fun locked =>
    ¬ locked = true → ∀ b, A (.getBucket bucket) (.ok b) → versionID = writtenVersionID c b →
      Target A c bucket key ⟨bucket, key, versionID⟩ := by
  refine only_ite (fun _ => ?_) fun hne _ b hb hid => ⟨rfl, rfl, ⟨b, hb, hid⟩, fun h => absurd h hne⟩
  exact (versionLocked_only hq).mono fun _ h hlocked b hb hid =>
    ⟨rfl, rfl, ⟨b, hb, hid⟩, fun _ => h (by simpa using hlocked)⟩

end Parts

theorem insertVersion_only {failure : Reply} {success : Act Reply}
    (hput : G (.putObjectVersion row)) (hremove : G (.remove (a.path (blobRef row))))
    (hsuccess : success.Only A G fun _ => True) :
    (insertVersion a row failure success).Only A G fun _ => True := by
  refine ⟨hput, fun v _ => ?_⟩
  rcases v with _ | _
  · exact ⟨hremove, fun _ _ => trivial⟩
  · exact hsuccess

/-! ## Writes -/

/-- What a `PUT` stores. -/
def putBytes (a : S3API) (c : Ctx) (r : Request) (body : Stream) : Bytes :=
  storedBytes a c.iv (sseRequested r) (requestObjectBody r body).bytes

/-- The row of a `PUT`. -/
def putRow (a : S3API) (c : Ctx) (r : Request) (body : Stream) (ref : ObjectRef) : ObjectVersion :=
  let m : ObjectMeta := { digests a.platform (requestObjectBody r body).bytes with
    ref, path := a.path ref, createdAt := c.now }
  objectRow m m.md5Hex (markSSEMetadata (collectUserMetadata a.platform r.header) (sseRequested r))

theorem Written.of_rename {id : ℕ} {content : Bytes} (htarget : Target A c bucket key (blobRef row))
    (hpath : row.storagePath = a.path (blobRef row)) (hmarker : row.deleteMarker = false)
    (hplaced : A (.rename id content row.storagePath) true) : Written a A c bucket key row :=
  ⟨htarget, hpath, hmarker, .rename id content row.storagePath, true, ⟨rfl, rfl⟩, hplaced⟩

theorem Written.remove (h : Written a A c bucket key row) (hw : WriteGuard a A G c bucket key) :
    G (.remove (a.path (blobRef row))) :=
  hw.remove _ h.target (h.path_eq ▸ h.placed)

section Writes

variable (hq : ∀ o, Idle o → G o)

include hq

/-- **A `PUT` up to its row**: what is stored and what the row says are functions of the request. -/
theorem stagePut_only (hremove : ∀ ref, Target A c bucket key ref →
      (∃ o v, Placed (a.path ref) o v ∧ A o v) → G (.remove (a.path ref)))
    (hrename : ∀ ref, Target A c bucket key ref →
      ∀ id, G (.rename id (putBytes a c r body) (a.path ref))) :
    (stagePut a c r bucket key body).Only A G fun x => ∀ row, x = .ok row →
      ∃ ref, Target A c bucket key ref ∧ row = putRow a c r body ref ∧
        ∃ id, A (.rename id (putBytes a c r body) (a.path ref)) true := by
  refine ⟨hq _ trivial, fun v hb => ?_⟩
  rcases v with _ | b
  · exact nofun
  refine (overwriteLocked_only hq).bind fun locked hlocked => ?_
  refine only_ite (fun _ => nofun) fun hfalse => ?_
  have htarget := hlocked hfalse b hb rfl
  cases hsse : validateSSEHeaders a r bucket key with
  | error e => exact nofun
  | ok encrypted =>
    obtain ⟨rfl, -⟩ := validateSSEHeaders_ok hsse
    refine (writeMaybeEncryptedObject_only hq (hrename _ htarget)).bind fun x hx => ?_
    rcases x with _ | m
    · exact nofun
    obtain ⟨rfl, hplaced⟩ := hx m rfl
    dsimp only
    split
    · obtain ⟨id, hid⟩ := hplaced
      exact ⟨hremove _ htarget ⟨.rename id _ _, true, ⟨rfl, rfl⟩, hid⟩, fun _ _ => nofun⟩
    · exact fun row h => ⟨_, htarget, (Except.ok.inj h).symm, hplaced⟩

/-- **A `PUT`.** -/
theorem handlePutObject_only (hw : WriteGuard a A G c bucket key) :
    (handlePutObject a c r bucket key body).Only A G fun _ => True := by
  refine runHeavy_only hq ?_
  refine (stagePut_only hq hw.remove fun ref hr id => hw.rename ref hr id _).bind fun x hx => ?_
  rcases x with e | row
  · trivial
  obtain ⟨ref, htarget, rfl, id, hplaced⟩ := hx row rfl
  have hrow : Written a A c bucket key (putRow a c r body ref) := .of_rename htarget rfl rfl hplaced
  exact insertVersion_only (hw.put _ hrow) (hrow.remove hw) trivial

/-- **A copy.** -/
theorem stageCopy_only (hremove : ∀ ref, Target A c bucket key ref →
      (∃ o v, Placed (a.path ref) o v ∧ A o v) → G (.remove (a.path ref)))
    (hrename : ∀ ref, Target A c bucket key ref → ∀ id content, G (.rename id content (a.path ref))) :
    (stageCopy a c r bucket key).Only A G fun x => ∀ row, x = .ok row →
      Written a A c bucket key row := by
  unfold stageCopy
  split
  · exact nofun
  refine ⟨hq _ trivial, fun v _ => ?_⟩
  rcases v with _ | srcObj
  · exact nofun
  refine only_ite (fun _ => nofun) fun _ => ?_
  split
  · exact nofun
  cases validateSSEHeaders a r bucket key with
  | error e => exact nofun
  | ok encrypted =>
    refine (readMaybeEncryptedObject_only hq srcObj none).bind fun source _ => ?_
    refine ⟨hq _ trivial, fun v hb => ?_⟩
    rcases v with _ | b
    · exact nofun
    refine (overwriteLocked_only hq).bind fun locked hlocked => ?_
    refine only_ite (fun _ => nofun) fun hfalse => ?_
    have htarget := hlocked hfalse b hb rfl
    refine (writeMaybeEncryptedObject_only hq fun id => hrename _ htarget id _).bind fun x hx => ?_
    rcases x with _ | m
    · exact nofun
    obtain ⟨rfl, id, hid⟩ := hx m rfl
    refine only_ite (fun _ => ?_) fun _ row h => ?_
    · exact ⟨hremove _ htarget ⟨.rename id _ _, true, ⟨rfl, rfl⟩, hid⟩, fun _ _ => nofun⟩
    · cases h
      exact .of_rename htarget rfl rfl hid

theorem handleCopyObject_only (hw : WriteGuard a A G c bucket key) :
    (handleCopyObject a c r bucket key).Only A G fun _ => True := by
  refine runHeavy_only hq ?_
  refine (stageCopy_only hq hw.remove hw.rename).bind fun x hx => ?_
  rcases x with e | row
  · trivial
  exact insertVersion_only (hw.put _ (hx row rfl)) ((hx row rfl).remove hw) trivial

theorem assemble_only {u : MultipartUpload} {stored : ℤ → Option MultipartPart} {numbers : List ℤ}
    {ref : ObjectRef} (hend : G (.removeUpload uploadID))
    (hrename : ∀ id content, G (.rename id content (a.path ref)))
    (hpromote : ∀ n, G (.promote uploadID n (a.path ref))) :
    (assemble a c u stored uploadID numbers ref).Only A G fun x => ∀ m, x = some m →
      m.ref = ref ∧ m.path = a.path ref ∧ ∃ o v, Placed (a.path ref) o v ∧ A o v := by
  have hwrite {data : Stream} {encrypted : Bool} :
      (writeMaybeEncryptedObject a c ref data encrypted).Only A G fun x => ∀ m, x = some m →
        m.ref = ref ∧ m.path = a.path ref ∧ ∃ o v, Placed (a.path ref) o v ∧ A o v := by
    refine (writeMaybeEncryptedObject_only hq fun id => hrename id _).mono fun x hx m hm => ?_
    obtain ⟨rfl, id, hid⟩ := hx m hm
    exact ⟨rfl, rfl, .rename id _ _, true, ⟨rfl, rfl⟩, hid⟩
  refine only_ite (fun _ => ?_) fun _ => ?_
  · exact completeMultipartUploadWithWriter_only hq hend fun src => hwrite
  split
  · split
    · refine (promoteMultipartPart_only hq hend (hpromote _)).mono fun x hx m hm => ?_
      obtain ⟨rfl, hplaced⟩ := hx m hm
      exact ⟨rfl, rfl, .promote _ _ _, true, ⟨rfl, rfl⟩, hplaced⟩
    · intro m hm
      cases hm
  · exact completeMultipartUploadWithWriter_only hq hend fun src =>
      (hwrite : (writeMaybeEncryptedObject a c ref src false).Only A G _)

theorem findUpload_only : (findUpload bucket key uploadID).Only A G fun _ => True := by
  refine ⟨hq _ trivial, fun v _ => ?_⟩
  rcases v with _ | ⟨u, parts⟩ <;> trivial

variable {parts : XmlBody (List CompletedPart)}

/-- **A completion.** -/
theorem stageComplete_only (hend : G (.removeUpload uploadID))
    (hrename : ∀ ref, Target A c bucket key ref → ∀ id content, G (.rename id content (a.path ref)))
    (hpromote : ∀ ref, Target A c bucket key ref → ∀ n, G (.promote uploadID n (a.path ref))) :
    (stageComplete a c r bucket key uploadID parts).Only A G fun x => ∀ row, x = .ok row →
      Written a A c bucket key row := by
  refine (findUpload_only hq).bind fun x _ => ?_
  rcases x with _ | ⟨u, stored⟩
  · exact nofun
  dsimp only
  split
  · exact nofun
  refine ⟨hq _ trivial, fun v hb => ?_⟩
  rcases v with _ | b
  · exact nofun
  refine (overwriteLocked_only hq).bind fun locked hlocked => ?_
  refine only_ite (fun _ => nofun) fun hfalse => ?_
  have htarget := hlocked hfalse b hb rfl
  refine (assemble_only hq hend (hrename _ htarget) (hpromote _ htarget)).bind fun x hx => ?_
  rcases x with _ | m
  · exact nofun
  obtain ⟨href, hpath, hplaced⟩ := hx m rfl
  intro row h
  cases h
  have hblob : ∀ eTag metadata, blobRef (objectRow m eTag metadata) =
      ⟨bucket, key, writtenVersionID c b⟩ := fun _ _ => href
  refine ⟨?_, ?_, rfl, ?_⟩
  · rwa [hblob]
  · rw [hblob]
    exact hpath
  · change ∃ o v, Placed m.path o v ∧ A o v
    rwa [hpath]

theorem handleCompleteMultipartUpload_only (hend : G (.removeUpload uploadID))
    (hgone : G (.deleteMultipartUpload uploadID))
    (hpromote : ∀ ref, Target A c bucket key ref → ∀ n, G (.promote uploadID n (a.path ref)))
    (hw : WriteGuard a A G c bucket key) :
    (handleCompleteMultipartUpload a c r bucket key uploadID parts).Only A G fun _ => True := by
  refine runHeavy_only hq ?_
  refine (stageComplete_only hq hend hw.rename hpromote).bind fun x hx => ?_
  rcases x with e | row
  · trivial
  exact insertVersion_only (hw.put _ (hx row rfl)) ((hx row rfl).remove hw) ⟨hgone, fun _ _ => trivial⟩

end Writes

/-! ## Deletions -/

variable (a A G c bucket) in
/-- The calls that a deletion of a key makes when it does not add a marker: of one version, or of all
of them. -/
structure DeleteGuard (key versionID : Bytes) : Prop where
  version : versionID ≠ [] → Unlocked A c bucket key versionID →
    G (.deleteObjectVersion bucket key versionID)
  versionBlob : versionID ≠ [] → Unlocked A c bucket key versionID →
    ∀ removed, A (.deleteObjectVersion bucket key versionID) (.ok removed) →
      removed.deleteMarker = false → G (.remove (a.path (blobRef removed)))

variable (a A G c bucket) in
/-- The calls of a deletion of all versions of a key, the version with the given id having been
checked.  Where the deletion is `strict`, it removes blobs only after it deleted the rows. -/
structure DeleteAllGuard (strict : Prop) (key versionID : Bytes) : Prop where
  all : Unlocked A c bucket key versionID → G (.deleteAllObjectVersions bucket key)
  blobs : Unlocked A c bucket key versionID → ∀ removed err,
    A (.deleteAllObjectVersions bucket key) (removed, err) →
      (strict → err = none ∨ err = some .notFound) →
        ∀ v ∈ removed, G (.remove (a.path (blobRef v)))

theorem deleteBlobs_only : ∀ {vs : List ObjectVersion},
    (∀ v ∈ vs, G (.remove (a.path (blobRef v)))) → (deleteBlobs a vs).Only A G fun _ => True
  | [], _ => trivial
  | v :: vs, h => by
    exact ⟨h v List.mem_cons_self, fun _ _ =>
      deleteBlobs_only fun v' hv' => h v' (List.mem_cons_of_mem v hv')⟩

section Deletions

variable (hq : ∀ o, Idle o → G o)

include hq

/-- **A deletion.** -/
theorem handleDeleteObject_only
    (hversion : DeleteGuard a A G c bucket key (r.query.get (str "versionId")))
    (hmarker : ∀ b, A (.getBucket bucket) (.ok b) → b.versioningStatus = str "Enabled" →
      r.query.get (str "versionId") = [] →
        G (.putObjectVersion (MemoryState.deleteMarker bucket key (newVersionID c 0) c.now)))
    (hall : ∀ b, A (.getBucket bucket) (.ok b) → b.versioningStatus ≠ str "Enabled" →
      r.query.get (str "versionId") = [] → DeleteAllGuard a A G c bucket True key []) :
    (handleDeleteObject a c r bucket key).Only A G fun _ => True := by
  refine ⟨hq _ trivial, fun v hb => ?_⟩
  rcases v with _ | b
  · exact audited_only hq
  refine only_ite (fun hne => ?_) fun hnil => only_ite (fun henabled => ?_) fun hdisabled => ?_
  · refine (versionLocked_only hq).bind fun locked hlocked => ?_
    refine only_ite (fun _ => audited_only hq) fun hfalse => ?_
    have hunlocked := hlocked (by simpa using hfalse)
    refine ⟨hversion.version hne hunlocked, fun v hv => ?_⟩
    rcases v with e | removed
    · cases e <;> exact audited_only hq
    refine only_ite (fun hm => ?_) fun _ => audited_only hq
    exact ⟨hversion.versionBlob hne hunlocked removed hv (by simpa using hm), fun _ _ =>
      audited_only hq⟩
  · exact ⟨hmarker b hb henabled (not_not.1 hnil), fun _ _ => audited_only hq⟩
  · have hguard := hall b hb hdisabled (not_not.1 hnil)
    refine (versionLocked_only hq).bind fun locked hlocked => ?_
    refine only_ite (fun _ => audited_only hq) fun hfalse => ?_
    have hunlocked := hlocked (by simpa using hfalse)
    refine ⟨hguard.all hunlocked, fun v hv => ?_⟩
    refine only_ite (fun _ => audited_only hq) fun herr => ?_
    simp only [only_bind]
    exact (deleteBlobs_only (hguard.blobs hunlocked v.1 v.2 hv fun _ => by tauto)).mono fun _ _ =>
      (emitAudit_only hq).mono fun _ _ => trivial

/-- **A round of a multi-object deletion.** -/
theorem deleteEntry_only {b : Bucket} {i : ℕ} {e : DeleteEntry}
    (hmarker : b.versioningStatus = str "Enabled" → e.versionID = [] → G (.putObjectVersion
      (MemoryState.deleteMarker bucket (trimSpace e.key) (newVersionID c i) c.now)))
    (hall : ¬ (b.versioningStatus = str "Enabled" ∧ e.versionID = []) →
      DeleteAllGuard a A G c bucket False (trimSpace e.key) e.versionID) :
    (deleteEntry a c bucket b i e).Only A G fun _ => True := by
  refine only_unless fun _ => only_ite (fun henabled => ?_) fun hdisabled => ?_
  · refine ⟨hmarker henabled.1 henabled.2, fun v _ => ?_⟩
    rcases v with _ | _ <;> trivial
  refine (versionLocked_only hq).bind fun locked hlocked => ?_
  refine only_unless fun hfalse => ?_
  have hunlocked := hlocked (by simpa using hfalse)
  refine ⟨(hall hdisabled).all hunlocked, fun v hv => ?_⟩
  obtain ⟨removed, err⟩ := v
  exact (deleteBlobs_only ((hall hdisabled).blobs hunlocked removed err hv False.elim)).bind
    fun _ _ => trivial

/-- **A multi-object deletion.** -/
theorem handleDeleteObjects_only {doc : Option DeleteDocument}
    (hmarker : ∀ b, A (.getBucket bucket) (.ok b) → b.versioningStatus = str "Enabled" →
      ∀ key i, G (.putObjectVersion (MemoryState.deleteMarker bucket key (newVersionID c i) c.now)))
    (hall : ∀ b, A (.getBucket bucket) (.ok b) → ∀ d, doc = some d → ∀ e ∈ d.objects,
      ¬ (b.versioningStatus = str "Enabled" ∧ e.versionID = []) →
      DeleteAllGuard a A G c bucket False (trimSpace e.key) e.versionID) :
    (handleDeleteObjects a c bucket doc).Only A G fun _ => True := by
  refine ⟨hq _ trivial, fun v hb => ?_⟩
  rcases v with _ | b
  · trivial
  rcases doc with _ | doc
  · trivial
  -- the rounds, by induction on the entries that are left
  have hloop : ∀ (es : List DeleteEntry) (i : ℕ), (∀ e ∈ es, e ∈ doc.objects) →
      (deleteEntries a c bucket b doc.quiet i es).Only A G fun _ => True := by
    intro es
    induction es with
    | nil => exact fun _ _ => trivial
    | cons e es ih =>
      intro i hes
      simp only [deleteEntries, only_bind]
      refine (deleteEntry_only hq (fun henabled _ => hmarker b hb henabled _ i)
        (hall b hb doc rfl e (hes e List.mem_cons_self))).mono fun err _ => ?_
      refine (ih (i + 1) fun e' he' => hes e' (List.mem_cons_of_mem e he')).mono fun rest _ => ?_
      rcases err with _ | err <;> trivial
  exact (hloop doc.objects 0 fun _ h => h).bind fun _ _ => trivial

end Deletions

/-! ## The other requests -/

section Others

variable (hq : ∀ o, Idle o → G o)

include hq

theorem handleGetObject_only {headOnly : Bool} :
    (handleGetObject a r bucket key headOnly).Only A G fun _ => True := by
  refine ⟨hq _ trivial, fun v _ => ?_⟩
  rcases v with _ | obj
  · trivial
  refine only_unless fun _ => ?_
  split
  · trivial
  refine only_unless fun _ => only_ite (fun _ => ?_) fun _ => ?_
  · exact (readMaybeEncryptedObject_only hq obj none).bind fun _ _ => trivial
  split
  · trivial
  · exact (readMaybeEncryptedObject_only hq obj _).bind fun _ _ => trivial

/-- A change of retention or legal hold updates the metadata of one version. -/
theorem updateLock_only {failure : String} {change : ObjectVersion → Except Reply StrMap}
    (hupdate : ∀ versionID metadata, G (.updateObjectMetadata bucket key versionID metadata)) :
    (updateLock r bucket key failure change).Only A G fun _ => True := by
  refine ⟨hq _ trivial, fun v _ => ?_⟩
  rcases v with _ | obj
  · trivial
  refine only_unless fun _ => ?_
  cases change obj with
  | error e => trivial
  | ok metadata =>
    refine ⟨hupdate _ metadata, fun v _ => ?_⟩
    rcases v with _ | _ <;> trivial

theorem handleAbortMultipartUpload_only (hend : G (.removeUpload uploadID))
    (hgone : G (.deleteMultipartUpload uploadID)) :
    (handleAbortMultipartUpload a r bucket key uploadID).Only A G fun _ => True := by
  refine (findUpload_only hq).bind fun x _ => ?_
  rcases x with _ | u
  · exact audited_only hq
  · exact ⟨hend, fun _ _ => ⟨hgone, fun _ _ => audited_only hq⟩⟩

theorem handleDeleteBucket_only (hdelete : G (.deleteBucket bucket)) :
    (handleDeleteBucket a r bucket).Only A G fun _ => True := by
  refine ⟨hq _ trivial, fun v _ => ?_⟩
  rcases v with _ | objects
  · exact audited_only hq
  refine only_ite (fun _ => audited_only hq) fun _ => ?_
  refine ⟨hdelete, fun v _ => ?_⟩
  rcases v with _ | _ <;> exact audited_only hq

end Others

section Uploads

variable (hq : ∀ o, Idle o → G o)

include hq

theorem handleCreateMultipartUpload_only (hcreate : ∀ u, G (.createMultipartUpload u))
    (hgone : ∀ uploadID, G (.deleteMultipartUpload uploadID)) :
    (handleCreateMultipartUpload a c r bucket key).Only A G fun _ => True := by
  unfold handleCreateMultipartUpload
  split
  · trivial
  refine ⟨hcreate _, fun v _ => ?_⟩
  rcases v with _ | _
  · trivial
  refine (createMultipartUpload_only hq).bind fun made _ => ?_
  exact only_ite (fun _ => ⟨hgone _, fun _ _ => trivial⟩) fun _ => trivial

theorem writeMultipartPart_only {n : ℤ}
    (hrename : ∀ id content, G (.renamePart id content uploadID n)) :
    (writeMultipartPart a.platform a.blob c.now uploadID n body).Only A G fun x => ∀ m ∈ x,
      m.toDigests = digests a.platform body.bytes ∧ m.uploadID = uploadID := by
  have hclean (id : ℕ) : (cleanupTemp id).Only A G fun x : Option MultipartPartMeta =>
      ∀ m ∈ x, m.toDigests = digests a.platform body.bytes ∧ m.uploadID = uploadID :=
    (cleanupTemp_only hq id).mono fun x hx => by rw [hx]; exact nofun
  refine only_ite (fun _ => nofun) fun _ => ?_
  refine (createMultipartUpload_only hq).bind fun made _ => ?_
  refine only_ite (fun _ => nofun) fun _ => ?_
  refine (fillTemp_only hq).bind fun t _ => ?_
  rcases t with _ | id
  · exact nofun
  refine ⟨hrename _ _, fun renamed _ => ?_⟩
  refine only_ite (fun _ => hclean id) fun _ => ?_
  refine (syncParentDir_only hq _).bind fun synced _ => ?_
  refine only_ite (fun _ => nofun) fun _ m hm => ?_
  cases hm
  exact ⟨rfl, rfl⟩

theorem handleUploadPart_only (hrename : ∀ id content n, G (.renamePart id content uploadID n))
    (hupsert : ∀ p, p.uploadID = uploadID → G (.upsertMultipartPart p)) (hend : G (.removeUpload uploadID)) :
    (handleUploadPart a c r bucket key uploadID body).Only A G fun _ => True := by
  refine runHeavy_only hq ?_
  split
  · trivial
  refine (findUpload_only hq).bind fun x _ => ?_
  rcases x with _ | u
  · trivial
  refine (writeMultipartPart_only hq fun _ _ => hrename _ _ _).bind fun x hx => ?_
  rcases x with _ | m
  · trivial
  dsimp only
  split
  · exact ⟨hend, fun _ _ => trivial⟩
  refine ⟨hupsert _ (hx m rfl).2, fun v _ => ?_⟩
  rcases v with _ | _
  · exact ⟨hend, fun _ _ => trivial⟩
  · trivial

end Uploads

theorem handleCreateBucket_only (hcreate : ∀ b, G (.createBucket b)) :
    (handleCreateBucket a c bucket).Only A G fun _ => True := by
  refine ⟨hcreate _, fun v _ => ?_⟩
  rcases v with e | _
  · cases e <;> trivial
  · trivial

theorem handlePutBucketVersioning_only {status : XmlBody Bytes}
    (hupdate : ∀ status, G (.updateBucketVersioning bucket status)) :
    (handlePutBucketVersioning bucket status).Only A G fun _ => True := by
  cases status with
  | unreadable | malformed => trivial
  | document status =>
    refine only_unless fun _ => ?_
    refine ⟨hupdate status, fun v _ => ?_⟩
    rcases v with _ | _ <;> trivial

/-! ## Requests that write no object -/

/-- The requests that change retention or legal hold. -/
def S3Request.setsLock : S3Request → Bool
  | putRetention .. | putLegalHold .. => true
  | _ => false

def S3Request.isWrite : S3Request → Bool
  | putObject .. | copyObject .. | completeMultipartUpload .. | deleteObject .. | deleteObjects .. =>
    true
  | _ => false

/-- The calls that remove no row and touch no blob; `locks` says whether metadata may change. -/
def Call.Mild (locks : Bool) : Call → Prop
  | putObjectVersion _ | deleteObjectVersion .. | deleteAllObjectVersions .. | rename .. | promote ..
  | remove _ => False
  | updateObjectMetadata .. => locks = true
  | _ => True

theorem Call.Quiet.mild {locks : Bool} {o : Call} (h : o.Quiet) : o.Mild locks := by
  cases o with
  | updateObjectMetadata | putObjectVersion | deleteObjectVersion | deleteAllObjectVersions
  | rename | promote | remove => exact h.elim
  | _ => trivial

/-- **The calls of a request that writes no object.** -/
theorem handle_mild (c : Ctx) {request : S3Request} (hG : ∀ o, Mild request.setsLock o → G o)
    (h : request.isWrite = false) : (handle a c request).Only A G fun _ => True := by
  have hq : ∀ o, Idle o → G o := fun o ho => hG o ho.quiet.mild
  cases request with
  | putObject | copyObject | completeMultipartUpload | deleteObject | deleteObjects => cases h
  | createBucket => exact handleCreateBucket_only fun _ => hG _ trivial
  | putBucketVersioning => exact handlePutBucketVersioning_only fun _ => hG _ trivial
  | deleteBucket => exact handleDeleteBucket_only hq (hG _ trivial)
  | getObject | headObject => exact inBucket_only hq (handleGetObject_only hq)
  | putRetention | putLegalHold => exact inBucket_only hq (updateLock_only hq fun _ _ => hG _ rfl)
  | createMultipartUpload =>
    exact inBucket_only hq (handleCreateMultipartUpload_only hq (fun _ => hG _ trivial)
      fun _ => hG _ trivial)
  | uploadPart => exact inBucket_only hq (handleUploadPart_only hq (fun _ _ _ => hG _ trivial)
      (fun _ _ => hG _ trivial) (hG _ trivial))
  | abortMultipartUpload =>
    exact inBucket_only hq (handleAbortMultipartUpload_only hq (hG _ trivial) (hG _ trivial))

end S000
