import S000.Server.Actions
import S000.Server.Readable

/-!
# Server/Ownership — every version has its blob to itself

A read follows the path in a version's row; a deletion removes the file whose path it computes from
bucket, key and version id.  The two agree as long as every row names the path of its own reference
(`WellFormed`), and then no two versions share a file: `Exclusive`.  All requests and all actions of the
web UI keep that up but one.  A change of the MIME type puts the row of the latest version again; in a
versioned bucket it does so under a new id and with the old path, so that two versions depend on one
file, and the deletion of the older takes the bytes of the newer with it.
-/

namespace S000

open Strings Metadata Blob MemoryState

/-- The references of the versions that are stored have distinct paths. -/
def RefsApart (a : S3API) (w : World) : Prop :=
  ∀ b k r b' k' r', r ∈ w.metadata.versions b k → r' ∈ w.metadata.versions b' k' →
    a.path (blobRef r) = a.path (blobRef r') → blobRef r = blobRef r'

/-- **No two versions depend on the same file.** -/
def Exclusive (w : World) : Prop :=
  ∀ b k r b' k' r', r ∈ w.metadata.versions b k → r' ∈ w.metadata.versions b' k' →
    r.deleteMarker = false → r'.deleteMarker = false → r.storagePath = r'.storagePath →
      b = b' ∧ k = k' ∧ r = r'

def ServerStep.changesMimetype : ServerStep → Bool
  | ui (.updateObjectMimetype ..) _ _ => true
  | _ => false

/-- **When versions keep their blobs to themselves.** -/
@[mk_iff]
structure OwnershipCondition (a : S3API) (w : World) (s : ServerStep) : Prop where
  /-- A new id is not in use for the key. -/
  once : stores.Allowed FreshPut w (s.run a w).events
  /-- A change of the MIME type adds no version. -/
  inPlace : s.changesMimetype = true → ∀ e ∈ (s.run a w).events, ∀ v ∈ e.op.row?,
    v.versionID ≠ newVersionID s.ctx 0
  /-- No two references collide. -/
  apart : RefsApart a (s.run a w).world

variable {a : S3API} {w : World} {s : Step} {c : Ctx} {bucket key versionID : Bytes}

/-! ## Rows name the paths of their references -/

theorem uiRow_rowOk {b : Bucket} {src : Stream} {metadata : StrMap} :
    RowOk a (uiRow a c ⟨bucket, key, writtenVersionID c b⟩ src metadata) :=
  ⟨writtenVersionID_ne_nil c b, fun _ => rfl⟩

/-- **Every other action puts good rows only.** -/
theorem uiHandle_putsOk {action : UIAction}
    (h : ∀ bucket key contentType, action ≠ .updateObjectMimetype bucket key contentType) :
    (uiHandle a c action).Only (fun _ _ => True) (PutsOk a) fun _ => True := by
  have hq : ∀ o, Call.Idle o → PutsOk a o := fun o ho => ho.quiet.putsOk
  have hwipe {bucket key : Bytes} : WipeGuard a (fun _ _ => True) (PutsOk a) bucket key :=
    ⟨putsOk_of_row? rfl, fun _ _ _ _ _ => putsOk_of_row? rfl⟩
  cases action with
  | createBucket => exact uiCreateBucket_only fun _ => putsOk_of_row? rfl
  | deleteBucket =>
    exact uiDeleteBucket_only hq (fun _ _ _ _ => hwipe)
      (fun _ => ⟨putsOk_of_row? rfl, putsOk_of_row? rfl⟩) (putsOk_of_row? rfl)
  | updateBucketVersioning => exact uiUpdateBucketVersioning_only fun _ => putsOk_of_row? rfl
  | uploadObject => exact uiUploadObject_only hq fun _ _ => writeGuard_putsOk
  | createFolder =>
    exact uiCreateFolder_only hq ⟨fun _ _ _ _ => putsOk_of_row? rfl,
      fun _ _ _ _ => uiRow_rowOk.putsOk, fun _ _ => putsOk_of_row? rfl⟩
  | deleteObject =>
    exact uiDeleteObject_only hq (fun _ _ _ => (deleteMarker_rowOk _ _ c 0).putsOk)
      fun _ _ _ => deleteAllGuard_putsOk
  | updateObjectMimetype bucket key contentType => exact absurd rfl (h bucket key contentType)
  | updateObjectRetention =>
    rw [uiHandle]
    exact uiUpdateLock_only hq fun _ _ => putsOk_of_row? rfl
  | updateObjectLegalHold =>
    rw [uiHandle]
    exact uiUpdateLock_only hq fun _ _ => putsOk_of_row? rfl
  | deleteFolderMarker =>
    exact uiDeleteFolderMarker_only hq (fun _ _ _ => (deleteMarker_rowOk _ _ c 0).putsOk)
      fun _ _ _ _ => hwipe
  | deleteFolder =>
    exact uiDeleteFolder_only hq (fun _ _ _ key i => (deleteMarker_rowOk _ key c i).putsOk)
      fun _ _ _ _ _ _ _ _ => hwipe

variable {r : ObjectVersion}

theorem WellFormed.getLatestObjectVersion (hw : WellFormed a w) {f : Fault}
    (h : (S000.step w f (.getLatestObjectVersion bucket key)).1 = .ok r) : RowOk a r := by
  have hlast := getLatestObjectVersion_eq_ok.1 (eq_ok_of_reading h)
  exact (hw bucket key).rows r (List.mem_of_getLast? hlast)

/-- A latest version that is read is in order. -/
def Call.LatestOk (a : S3API) : (o : Call) → o.Val → Prop
  | .getLatestObjectVersion .., v => ∀ r, v = .ok r → RowOk a r
  | _, _ => True

/-- **A change of the MIME type that adds no version puts a good row.** -/
theorem WellFormed.updateObjectMimetype {contentType : Bytes} {faults : List Fault}
    (hw : WellFormed a w)
    (hs : OwnershipCondition a w (.ui (.updateObjectMimetype bucket key contentType) c faults)) :
    WellFormed a ((ServerStep.ui (.updateObjectMimetype bucket key contentType) c faults).run a
      w).world := by
  refine ServerStep.run_of_only (Q := fun _ => True) (A := Call.LatestOk a)
    (G := fun o => ∀ v, o = .putObjectVersion v → v.versionID = newVersionID c 0 ∨ RowOk a v)
    (fun w e => FreshPut w e ∧ ∀ v ∈ e.op.row?, v.versionID ≠ newVersionID c 0)
    (fun x => WellFormed a x.world) (fun x f o hx ho hB => ⟨?_, ?_⟩) ?_ hw
    (hs.once.and (hs.inPlace rfl))
  · cases o with
    | getLatestObjectVersion b k => exact fun r hr => getLatestObjectVersion hx hr
    | _ => trivial
  · exact hx.step (fun v hv => (ho v hv).resolve_left (hB.2 v (by rw [hv]; rfl))) hB.1
  refine uiUpdateObjectMimetype_only (fun o ho v hv => ?_) fun obj versionID metadata hobj _ hid => ?_
  · subst hv
    exact ho.elim
  rintro _ ⟨⟩
  rcases hid with rfl | ⟨rfl, -⟩
  · have hok := hobj obj rfl
    exact .inr ⟨hok.named, hok.stored⟩
  · exact .inl rfl

/-- **A step keeps the invariant.** -/
theorem OwnershipCondition.wellFormed {s : ServerStep} (hs : OwnershipCondition a w s)
    (hw : WellFormed a w) : WellFormed a (s.run a w).world := by
  cases s with
  | s3 s => exact hw.respond hs.once
  | ui action c faults =>
    by_cases h : ∀ bucket key contentType, action ≠ .updateObjectMimetype bucket key contentType
    · exact ServerStep.run_of_only FreshPut (fun x => WellFormed a x.world)
        (fun _ _ _ hx ho hB => ⟨trivial, hx.step ho hB⟩) (uiHandle_putsOk h) hw hs.once
    · simp only [not_forall, not_not] at h
      obtain ⟨bucket, key, contentType, rfl⟩ := h
      exact hw.updateObjectMimetype hs

/-- **Reachable worlds are well-formed**, and references do not collide in them. -/
theorem wellFormed_of_reachable (h : Reachable a (OwnershipCondition a) w) :
    WellFormed a w ∧ RefsApart a w := by
  induction h with
  | empty => exact ⟨wellFormed_empty, nofun⟩
  | step _ hs ih => exact ⟨hs.wellFormed ih.1, hs.apart⟩

variable {b k : Bytes}

theorem WellFormed.eq_of_blobRef (hw : WellFormed a w) {b' k' : Bytes} {r' : ObjectVersion}
    (hr : r ∈ w.metadata.versions b k) (hr' : r' ∈ w.metadata.versions b' k')
    (h : blobRef r = blobRef r') : b = b' ∧ k = k' ∧ r = r' := by
  obtain ⟨hb, hk⟩ := (hw b k).keyed r hr
  obtain ⟨hb', hk'⟩ := (hw b' k').keyed r' hr'
  simp only [blobRef, ObjectRef.mk.injEq, hb, hk, hb', hk'] at h
  obtain ⟨rfl, rfl, hid⟩ := h
  exact ⟨rfl, rfl, List.inj_on_of_nodup_map (hw b k).distinct hr hr' hid⟩

theorem WellFormed.exclusive (hw : WellFormed a w) (hapart : RefsApart a w) : Exclusive w := by
  intro b k r b' k' r' hr hr' hm hm' hpath
  rw [((hw b k).rows r hr).stored hm, ((hw b' k').rows r' hr').stored hm'] at hpath
  exact hw.eq_of_blobRef hr hr' (hapart b k r b' k' r' hr hr' hpath)

/-! ## The deletion of a version -/

/-- The versions other than one that can be read. -/
def Other (w : World) (bucket key versionID b k : Bytes) (r : ObjectVersion) : Prop :=
  Readable w b k r ∧ ¬ (b = bucket ∧ k = key ∧ r.versionID = versionID)

/-- The calls of a deletion of one version. -/
def DeletesOnly (a : S3API) (w : World) (bucket key versionID : Bytes) : Call → Prop
  | .deleteObjectVersion b k id => b = bucket ∧ k = key ∧ id = versionID
  | .remove p => ∃ removed ∈ w.metadata.versions bucket key, removed.versionID = versionID ∧
    p = a.path (blobRef removed)
  | o => o.Quiet

theorem DeletesOnly.rows {o : Call} {l l' : List ObjectVersion}
    (ho : DeletesOnly a w bucket key versionID o) (h : RowChange b k o l l') :
    (∀ r ∈ l', r ∈ l) ∧ ∀ r ∈ l, ¬ (b = bucket ∧ k = key ∧ r.versionID = versionID) → r ∈ l' := by
  cases h with
  | same => exact ⟨fun _ h => h, fun _ h _ => h⟩
  | remove =>
    obtain ⟨rfl, rfl, rfl⟩ := ho
    exact ⟨fun _ hr => Versions.mem_of_mem_remove hr, fun r hr hne =>
      (Versions.mem_remove_of_ne fun hid => hne ⟨rfl, rfl, hid⟩).2 hr⟩
  | drop | put | clear | update => exact ho.elim

theorem DeletesOnly.file {o : Call} {v : o.Val} {x x' : Option Bytes} (hw : WellFormed a w)
    (hapart : RefsApart a w) (ho : DeletesOnly a w bucket key versionID o)
    (hr : Other w bucket key versionID b k r) (h : FileChange r.storagePath o v x x') : x' = x := by
  cases h with
  | same => rfl
  | rename | promote => exact ho.elim
  | remove =>
    obtain ⟨removed, hremoved, hid, hpath⟩ := ho
    rw [((hw b k).rows r hr.1.row).stored hr.1.object] at hpath
    obtain ⟨hb, hk, rfl⟩ := hw.eq_of_blobRef hr.1.row hremoved
      (hapart b k r bucket key removed hr.1.row hremoved hpath)
    exact absurd ⟨hb, hk, hid⟩ hr.2

def WasThere (w : World) : (o : Call) → o.Val → Prop
  | .deleteObjectVersion b k id, v => ∀ removed, v = .ok removed →
    removed ∈ w.metadata.versions b k ∧ removed.versionID = id
  | _, _ => True

/-- **A deletion of one version leaves every other as it is.** -/
theorem deleteVersion_keeps_others (hw : WellFormed a w) (hapart : RefsApart a w) {r : Request}
    (hs : s.request = .deleteObject r bucket key) (hne : r.query.get (str "versionId") ≠ [])
    {v : ObjectVersion} (hv : Other w bucket key (r.query.get (str "versionId")) b k v) :
    Readable (after a w s) b k v ∧ readVersion a (after a w s) v = readVersion a w v := by
  have hq : ∀ o, Call.Idle o → DeletesOnly a w bucket key (r.query.get (str "versionId")) o := by
    intro o ho
    cases o with
    | deleteObjectVersion | remove => exact ho.elim
    | _ => exact ho.quiet
  have honly : (handle a s.ctx s.request).Only (WasThere w)
      (DeletesOnly a w bucket key (r.query.get (str "versionId"))) fun _ => True := by
    rw [hs]
    refine inBucket_only hq (handleDeleteObject_only hq
      ⟨fun _ _ => ⟨rfl, rfl, rfl⟩, fun _ _ removed hremoved _ => ?_⟩
      (fun _ _ _ hnil => absurd hnil hne) fun _ _ _ hnil => absurd hnil hne)
    obtain ⟨hmem, hid⟩ := hremoved removed rfl
    exact ⟨removed, hmem, hid, rfl⟩
  -- rows only go, and the row and the file of the other version stay
  obtain ⟨-, -, hrow, hfile⟩ := respond_of_only (fun _ _ => True)
    (fun x => (∀ b k r, r ∈ x.world.metadata.versions b k → r ∈ w.metadata.versions b k) ∧
      v ∈ x.world.metadata.versions b k ∧ x.world.disk.files v.storagePath = w.disk.files v.storagePath)
    (fun x f o hx ho _ => by
      refine ⟨?_, fun b k r hr => ?_, ?_, ?_⟩
      · cases o with
        | deleteObjectVersion b k id =>
          intro removed hremoved
          obtain ⟨hmem, hid⟩ := removed_of_deleteObjectVersion hremoved
          exact ⟨hx.1 b k removed hmem, hid⟩
        | _ => trivial
      · exact hx.1 b k r ((ho.rows (rowChange_step x.world f o b k)).1 r hr)
      · exact (ho.rows (rowChange_step x.world f o b k)).2 v hx.2.1 hv.2
      · exact (ho.file hw hapart hv (fileChange_step x.world f o v.storagePath)).trans hx.2.2)
    honly ⟨fun _ _ _ h => h, hv.1.row, rfl⟩ (Machine.allowed_of_mem fun _ _ => trivial)
  exact hv.1.of_files hrow hfile

/-! ## Reachable worlds -/

/-- **Versions own their blobs.**  In every world that requests and actions lead to from an empty
server, whatever goes wrong, as long as ids are fresh, references do not collide and no change of a MIME
type adds a version: no two versions depend on the same file, and the deletion of a version leaves
every other version that could be read readable, with the same bytes. -/
theorem versions_own_blobs (h : Reachable a (OwnershipCondition a) w) :
    Exclusive w ∧ ∀ (s : Step) (r : Request) (bucket key : Bytes),
      s.request = .deleteObject r bucket key → r.query.get (str "versionId") ≠ [] →
        ∀ b k v, Readable w b k v →
          ¬ (b = bucket ∧ k = key ∧ v.versionID = r.query.get (str "versionId")) →
            Readable (after a w s) b k v ∧ readVersion a (after a w s) v = readVersion a w v := by
  obtain ⟨hw, hapart⟩ := wellFormed_of_reachable h
  exact ⟨hw.exclusive hapart, fun s r bucket key hs hne b k v hv hother =>
    deleteVersion_keeps_others hw hapart hs hne ⟨hv, hother⟩⟩

/-! ## Two changes of a MIME type -/

instance (w : World) : Decidable (RefsApart a w) :=
  decidable_of_iff (∀ e ∈ w.metadata.objects.entries, ∀ r ∈ e.2,
      ∀ e' ∈ w.metadata.objects.entries, ∀ r' ∈ e'.2,
        a.path (blobRef r) = a.path (blobRef r') → blobRef r = blobRef r')
    ⟨fun h b k r b' k' r' hr hr' => by
      obtain ⟨e, he, -, hr⟩ := mem_entries_of_mem_versions hr
      obtain ⟨e', he', -, hr'⟩ := mem_entries_of_mem_versions hr'
      exact h e he r hr e' he' r' hr',
    fun h e he r hr e' he' r' hr' => h e.1.1 e.1.2 r e'.1.1 e'.1.2 r'
      (by rwa [versions_of_mem_entries he])
      (by rwa [versions_of_mem_entries he'])⟩

instance (w : World) (s : ServerStep) : Decidable (OwnershipCondition a w s) :=
  decidable_of_iff' _ (ownershipCondition_iff ..)

/-- Two objects in a bucket that is not versioned; the MIME type of one is changed. -/
def inPlaceHistory : List ServerStep :=
  [.s3 ⟨.createBucket (str "b"), sampleCtx 1, []⟩,
    .s3 ⟨.putObject objectRequest (str "b") (str "j") ⟨str "one", false⟩, sampleCtx 2, []⟩,
    .s3 ⟨.putObject objectRequest (str "b") (str "k") ⟨str "two", false⟩, sampleCtx 3, []⟩,
    .ui (.updateObjectMimetype (str "b") (str "k") (str "text/plain")) (sampleCtx 4) []]

/-- An object in a versioned bucket, and a change of its MIME type. -/
def sharedHistory : List ServerStep :=
  [.s3 ⟨.createBucket (str "b"), sampleCtx 1, []⟩,
    .s3 ⟨.putBucketVersioning (str "b") (.document (str "Enabled")), sampleCtx 2, []⟩,
    .s3 ⟨.putObject objectRequest (str "b") (str "k") ⟨str "one", false⟩, sampleCtx 3, []⟩,
    .ui (.updateObjectMimetype (str "b") (str "k") (str "text/plain")) (sampleCtx 4) []]

def versionDelete (versionID : String) : Step :=
  ⟨.deleteObject (objectRequest ("versionId=" ++ versionID)) (str "b") (str "k"), sampleCtx 5, []⟩

theorem reachable_inPlaceHistory :
    Reachable sampleAPI (OwnershipCondition sampleAPI) (serverAfter sampleAPI {} inPlaceHistory) :=
  .steps .empty (by decide +kernel)

/-- The deletion of the one object leaves the other. -/
theorem versions_own_blobs_inPlace :
    ∃ v, Readable (serverAfter sampleAPI {} inPlaceHistory) (str "b") (str "j") v ∧
      Readable (after sampleAPI (serverAfter sampleAPI {} inPlaceHistory) (versionDelete "null"))
        (str "b") (str "j") v ∧
      readVersion sampleAPI
          (after sampleAPI (serverAfter sampleAPI {} inPlaceHistory) (versionDelete "null")) v =
        readVersion sampleAPI (serverAfter sampleAPI {} inPlaceHistory) v := by
  have hany : ((serverAfter sampleAPI {} inPlaceHistory).metadata.versions (str "b") (str "j")).any
      (fun v => v.deleteMarker = false ∧
        ((serverAfter sampleAPI {} inPlaceHistory).disk.files v.storagePath).isSome) = true := by
    decide +kernel
  obtain ⟨v, hv, hread⟩ := List.any_eq_true.1 hany
  have hread := of_decide_eq_true hread
  have hreadable : Readable (serverAfter sampleAPI {} inPlaceHistory) (str "b") (str "j") v :=
    ⟨hv, hread.1, hread.2⟩
  exact ⟨v, hreadable, (versions_own_blobs reachable_inPlaceHistory).2 (versionDelete "null")
    (objectRequest "versionId=null") (str "b") (str "k") rfl (by decide) (str "b") (str "j") v
    hreadable fun h => absurd h.2.1 (by decide)⟩

/-- **Two versions that share a blob**: the version that the change of the MIME type adds reads as the
old one did, until the old one is deleted. -/
theorem mimetype_shares_blob :
    ((serverAfter sampleAPI {} sharedHistory).metadata.versions (str "b") (str "k")).map
      (fun v => (v.versionID, (readVersion sampleAPI (serverAfter sampleAPI {} sharedHistory) v))) =
        [(str "3-", ⟨str "one", false⟩), (str "4-", ⟨str "one", false⟩)] ∧
    (respond sampleAPI (serverAfter sampleAPI {} sharedHistory) (versionDelete "3-")).1 = .answer 204 ∧
    ((after sampleAPI (serverAfter sampleAPI {} sharedHistory)
        (versionDelete "3-")).metadata.versions (str "b") (str "k")).map
      (fun v => (v.versionID, readVersion sampleAPI
        (after sampleAPI (serverAfter sampleAPI {} sharedHistory) (versionDelete "3-")) v)) =
        [(str "4-", ⟨[], true⟩)] := by
  refine ⟨?_, ?_, ?_⟩ <;> decide +kernel

end S000
