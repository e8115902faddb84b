import S000.Server.LockSafety
import S000.Server.Ownership
import S000.Server.Retention

/-!
# Server/UILocks — the actions of the web UI and locked versions

Seven actions of the web UI write or delete objects.  Two of them look at a lock before they act: an
upload looks at the `null` version it replaces, the deletion of an object at the latest version.  The
others do not: a new folder replaces the `null` version of its marker, and the deletions of a folder
marker, of a folder and of a bucket take all versions of the keys they are about.  `UIAction.Covered`
says what then has to be free of locks; the content type of a version changes in place, with its lock.
-/

namespace S000

open Strings Metadata Blob Machine List ServerStep

/-! ## The condition -/

def UIAction.bucket : UIAction → Bytes
  | createBucket bucket | deleteBucket bucket | updateBucketVersioning bucket _
  | createFolder bucket .. | deleteObject bucket .. | updateObjectMimetype bucket ..
  | updateObjectRetention bucket .. | updateObjectLegalHold bucket .. | deleteFolderMarker bucket ..
  | deleteFolder bucket .. => trimSpace bucket
  | uploadObject form => trimSpace form.bucket

def UIAction.isWrite : UIAction → Bool
  | createBucket _ | updateBucketVersioning .. | updateObjectRetention .. | updateObjectLegalHold .. =>
    false
  | _ => true

/-- **What an action replaces or deletes without a check of its own is not locked.**  The deletion of an
object does look at a version, the latest one, before it takes all of them. -/
def UIAction.Covered (w : World) (now : Time) : UIAction → Prop
  | deleteBucket bucket => ∀ key, Listed w (trimSpace bucket) key →
    ∀ r, ¬ Locked w now (trimSpace bucket) key r
  | createFolder bucket pre _ folder => ¬ VersioningEnabled w (trimSpace bucket) →
    ∀ r, Locked w now (trimSpace bucket)
      (normalizeFolderMarkerKey (normalizeUIPrefix pre) (trimSpace folder)) r →
        r.versionID ≠ nullVersion
  | deleteObject bucket key .. => ¬ VersioningEnabled w (trimSpace bucket) →
    CheckCovers w now (trimSpace bucket) (trimSpace key) []
  | deleteFolderMarker bucket key .. => hasSuffix (trimSpace key) (str "/") = true →
    ¬ VersioningEnabled w (trimSpace bucket) →
      ∀ r, ¬ Locked w now (trimSpace bucket) (trimSpace key) r
  | deleteFolder bucket _ delimiter targetPre key => ¬ VersioningEnabled w (trimSpace bucket) →
    ∀ k, Listed w (trimSpace bucket) k → hasPrefix k (uiFolderTarget delimiter targetPre key) = true →
      ∀ r, ¬ Locked w now (trimSpace bucket) k r
  | _ => True

/-- **When locked versions survive an action.** -/
structure ActionCondition (a : S3API) (w : World) (action : UIAction) (c : Ctx)
    (faults : List Fault) : Prop where
  /-- The new ids are in use neither before nor within the action. -/
  unused : ∀ key i, newVersionID c i ∉
    (w.metadata.versions action.bucket key).map ObjectVersion.versionID
  once : (ui action c faults).changesMimetype = false →
    stores.Allowed FreshPut w ((ui action c faults).run a w).events
  /-- No other key of the bucket has a blob of a locked version. -/
  apart : ∀ key, Apart a w c (Locked w c.now) action.bucket key
  /-- The lock checks read what is there. -/
  reads : ∀ e ∈ ((ui action c faults).run a w).events, ∀ b k versionID,
    e.op = .getObjectVersion b k versionID → e.fault = .ok
  /-- A row that replaces a locked one is put whole. -/
  puts : (ui action c faults).changesMimetype = true →
    ∀ e ∈ ((ui action c faults).run a w).events, ∀ n, e.fault ≠ .broken n
  covered : action.Covered w c.now

/-- What becomes of a locked version: it is there and locked, with another content type at most, and its
blob, which is where the row says, was not touched. -/
structure Remains (a : S3API) (w : World) (action : UIAction) (c : Ctx) (faults : List Fault)
    (b k : Bytes) (r : ObjectVersion) : Prop where
  row : ∃ r' ∈ ((ui action c faults).run a w).world.metadata.versions b k,
    objectLocked r' c.now = true ∧
      { r' with metadata := r.metadata, createdAt := r.createdAt } = r ∧
      ((ui action c faults).changesMimetype = false → r' = r)
  stored : r.deleteMarker = false → r.storagePath = a.path (blobRef r)
  untouched : ∀ e ∈ ((ui action c faults).run a w).events,
    ¬ e.op.Touches (a.path (blobRef r))
  blob : ((ui action c faults).run a w).world.disk.files (a.path (blobRef r)) =
    w.disk.files (a.path (blobRef r))

variable {a : S3API} {w : World} {action : UIAction} {c : Ctx} {faults : List Fault}
  {b k bucket key : Bytes} {r : ObjectVersion} {still : Prop}

/-! ## Actions that spare locked versions -/

theorem remains_of_spares (still : Prop) (hw : WellFormed a w)
    (hs : ActionCondition a w action c faults)
    (hmime : (ui action c faults).changesMimetype = false)
    (h : (uiHandle a c action).Only (Answers w c (Locked w c.now) True still)
      (Spares a c (Locked w c.now) still) fun _ => True)
    (hr : Locked w c.now b k r) : Remains a w action c faults b k r := by
  have hkept : Kept a w c (Locked w c.now) still ((ui action c faults).run a w) :=
    run_of_only
      (fun w e => FreshPut w e ∧ ∀ b k versionID, e.op = .getObjectVersion b k versionID →
        e.fault = .ok)
      (Kept a w c (Locked w c.now) still)
      (fun x f o hx ho hB => ⟨hx.answers fun _ => hB.2, hx.advance ho hB.1⟩) h
      (kept_start hw fun _ _ _ hr => hr.1) ((hs.once hmime).and hs.reads)
  have huntouched := hkept.blobs b k r hr
  exact ⟨⟨r, (hkept.rows b k r hr).1, hr.2, rfl, fun _ => rfl⟩, ((hw b k).rows r hr.1).stored,
    huntouched, files_exec_of_untouched huntouched⟩

/-- **A new folder spares locked versions.** -/
theorem folderGuard_spares (hw : WellFormed a w) (hapart : Apart a w c (Locked w c.now) bucket key)
    (hunused : ∀ i, newVersionID c i ∉ (w.metadata.versions bucket key).map ObjectVersion.versionID)
    (hnull : ¬ VersioningEnabled w bucket → ∀ r, Locked w c.now bucket key r →
      r.versionID ≠ nullVersion) :
    FolderGuard a (Answers w c (Locked w c.now) True False) (Spares a c (Locked w c.now) False) c
      bucket key := by
  have hne {b : Bucket} {r : ObjectVersion} (hb : w.metadata.getBucket bucket = .ok b)
      (hr : Locked w c.now bucket key r) : r.versionID ≠ writtenVersionID c b := by
    unfold writtenVersionID
    split_ifs with henabled
    · rintro hid
      exact hunused 0 (hid ▸ mem_map_of_mem hr.1)
    · exact hnull (not_versioningEnabled hb henabled) r hr
  have hspared (b : Bucket) (hb : w.metadata.getBucket bucket = .ok b) :
      ∀ b' k r, Locked w c.now b' k r →
        a.path (blobRef r) ≠ a.path ⟨bucket, key, writtenVersionID c b⟩ :=
    hapart.spared (fun b k r hr => (hw b k).keyed r hr.1)
      ((writtenVersionID_cases c b).imp_right fun h => .inl ⟨0, h⟩) fun _ hr => hne hb hr
  refine ⟨fun b hb _ _ => hspared b (hb b rfl), fun b hb src metadata => ?_,
    fun b hb => hspared b (hb b rfl)⟩
  refine ⟨uiRow_rowOk, (writtenVersionID_cases c b).imp_right fun h => ⟨0, h⟩, fun r hr => ⟨id, ?_⟩⟩
  intro hnull hnull'
  exact hne (hb b rfl) hr (hnull'.trans hnull.symm)

/-! ## Another content type -/

theorem objectLocked_eq {r' : ObjectVersion} {now : Time}
    (h : ∀ x, x ≠ str "content-type" → r'.metadata.at x = r.metadata.at x) :
    objectLocked r' now = objectLocked r now := by
  rw [objectLocked, objectLocked, h _ (by decide), h _ (by decide)]

theorem putting_whole {v : ObjectVersion} {f : Fault} (h : ∀ n, f ≠ .broken n) :
    (putting w v f).2 = w ∨
      (putting w v f).2 = { w with metadata := w.metadata.putObjectVersion v } := by
  cases f with
  | broken n => exact absurd rfl (h n)
  | ok | unsaved => exact .inr rfl
  | refused => exact .inl rfl

/-- The latest row is as it was, or put again: with another content type, and under its own id or a new
one. -/
def Relabelled (c : Ctx) (bucket key : Bytes) (w w' : World) : Prop :=
  w'.metadata = w.metadata ∨ ∃ obj versionID metadata,
    (w.metadata.versions bucket key).getLast? = some obj ∧
    (versionID = obj.versionID ∨ versionID = newVersionID c 0) ∧
    (∀ x, x ≠ str "content-type" → StrMap.at metadata x = obj.metadata.at x) ∧
    w'.metadata = w.metadata.putObjectVersion { obj with versionID, metadata, createdAt := c.now }

theorem uiUpdateObjectMimetype_ensures {contentType : Bytes} :
    stores.EnsuresWhen (fun _ e => ∀ n, e.fault ≠ .broken n)
      (fun _ w' => Relabelled c (trimSpace bucket) (trimSpace key) w w')
      (uiUpdateObjectMimetype c bucket key contentType) w := by
  refine ensuresWhen_ite _ (fun _ => .inl rfl) fun _ => ?_
  rw [ensuresWhen_bind]
  refine ensuresWhen_ask_of fun f v w₁ hread _ => ?_
  obtain ⟨hv, rfl⟩ := Prod.mk.inj hread
  rcases v with _ | obj
  · exact .inl rfl
  refine ensuresWhen_ite _ (fun _ => .inl rfl) fun _ => ?_
  rw [ensuresWhen_bind]
  refine ensuresWhen_ask_of fun f' v' w₂ hbucket _ => ?_
  obtain ⟨-, rfl⟩ := Prod.mk.inj hbucket
  rw [ensuresWhen_bind]
  refine ensuresWhen_ask_of fun f'' v'' w₃ hput hwhole => ?_
  have hlast := MemoryState.getLatestObjectVersion_eq_ok.1 (eq_ok_of_reading hv)
  have hpost : Relabelled c (trimSpace bucket) (trimSpace key) w w₃ := by
    rw [← (Prod.mk.inj hput).2]
    refine (putting_whole hwhole).imp (congrArg World.metadata) fun hdone =>
      ⟨obj, _, _, hlast, ?_, ?_, congrArg World.metadata hdone⟩
    · rcases v' with _ | b
      · exact .inl rfl
      dsimp only
      split_ifs
      · exact .inr rfl
      · exact .inl rfl
    · intro x hx
      split_ifs
      · exact StrMap.at_erase_of_ne hx
      · exact StrMap.at_insert_of_ne hx
  rcases v'' with _ | _ <;> exact hpost

/-- A version is there afterwards, with another content type at most. -/
theorem Relabelled.row {w' : World} (hw : WellFormed a w) (h : Relabelled c bucket key w w')
    (hr : r ∈ w.metadata.versions b k) :
    ∃ r' ∈ w'.metadata.versions b k,
      (∀ x, x ≠ str "content-type" → r'.metadata.at x = r.metadata.at x) ∧
      { r' with metadata := r.metadata, createdAt := r.createdAt } = r := by
  rcases h with h | ⟨obj, versionID, metadata, hlast, hid, hmetadata, h⟩
  · exact ⟨r, h ▸ hr, fun _ _ => rfl, rfl⟩
  have hobj := mem_of_getLast? hlast
  obtain ⟨hb, hk⟩ := (hw bucket key).keyed obj hobj
  rw [h, MemoryState.versions_putObjectVersion]
  split_ifs with hbk
  · obtain ⟨rfl, rfl⟩ : b = bucket ∧ k = key := ⟨hbk.1.trans hb, hbk.2.trans hk⟩
    by_cases hnull : versionID = nullVersion ∧ r.versionID = nullVersion
    · -- only the `null` version is replaced, and it is the one that is put again
      have hsame : versionID = obj.versionID :=
        hid.resolve_right fun hnew => newVersionID_ne_null c 0 (hnew.symm.trans hnull.1)
      obtain rfl : r = obj := inj_on_of_nodup_map (hw b k).distinct hr hobj
        (hnull.2.trans (hnull.1.symm.trans hsame))
      exact ⟨_, Versions.mem_put.2 (.inl rfl), hmetadata, by rw [hsame]⟩
    · exact ⟨r, Versions.mem_put.2 (.inr ⟨hr, fun hv hr' => hnull ⟨hv, hr'⟩⟩), fun _ _ => rfl, rfl⟩
  · exact ⟨r, hr, fun _ _ => rfl, rfl⟩

/-- **A locked version keeps its row and its lock.** -/
theorem relabelled_remains {contentType : Bytes} (hw : WellFormed a w)
    (hwhole : ∀ e ∈ ((ui (.updateObjectMimetype bucket key contentType) c faults).run a
      w).events, ∀ n, e.fault ≠ .broken n)
    (hr : Locked w c.now b k r) :
    Remains a w (.updateObjectMimetype bucket key contentType) c faults b k r := by
  have huntouched : ∀ e ∈ ((ui (.updateObjectMimetype bucket key contentType) c
      faults).run a w).events, ¬ e.op.Touches (a.path (blobRef r)) := by
    refine run_of_only (A := fun _ _ => True) (G := fun o => ¬ o.Touches (a.path (blobRef r)))
      (Q := fun _ => True) (fun _ _ => True)
      (fun x => ∀ e ∈ x.events, ¬ e.op.Touches (a.path (blobRef r))) (fun x f o hx ho _ => ?_)
      (uiUpdateObjectMimetype_only (fun o ho => ?_) fun _ _ _ _ _ _ => id) nofun
      (allowed_of_mem fun _ _ => trivial)
    · refine ⟨trivial, fun e he => ?_⟩
      rcases mem_append.1 he with he | he
      · exact hx e he
      · obtain rfl := mem_singleton.1 he
        exact ho
    · have hmild : o.Mild false := ho.quiet.mild
      exact hmild.not_touches _
  refine ⟨?_, ((hw b k).rows r hr.1).stored, huntouched, files_exec_of_untouched huntouched⟩
  have hrows : Relabelled c (trimSpace bucket) (trimSpace key) w _ :=
    exec_of_ensuresWhen uiUpdateObjectMimetype_ensures
      fun es hes => allowed_of_mem fun e he => hwhole e (hes.symm ▸ he)
  obtain ⟨r', hr', hmetadata, hstrip⟩ := hrows.row hw hr.1
  exact ⟨r', hr', (objectLocked_eq hmetadata).trans hr.2, hstrip, nofun⟩

/-! ## Reachable worlds -/

/-- **A locked version survives an action** that meets the condition. -/
theorem ActionCondition.remains (hw : WellFormed a w) (hs : ActionCondition a w action c faults)
    (hwrite : action.isWrite = true) (hr : Locked w c.now b k r) :
    Remains a w action c faults b k r := by
  have hq {still : Prop} : ∀ o, Call.Idle o → Spares a c (Locked w c.now) still o :=
    fun o ho => ho.quiet.spares
  have hkeyed : ∀ b k r, Locked w c.now b k r → r.bucket = b ∧ r.key = k :=
    fun b k r hr => (hw b k).keyed r hr.1
  cases action with
  | createBucket | updateBucketVersioning | updateObjectRetention | updateObjectLegalHold =>
    cases hwrite
  | deleteBucket bucket =>
    refine remains_of_spares True hw hs rfl (uiDeleteBucket_only hq
      (fun objects hobjects obj hobj => ?_) (fun _ => ⟨Call.Quiet.spares trivial, Call.Quiet.spares trivial⟩)
      trivial) hr
    exact wipeGuard_spares (hs.apart obj.key) hkeyed fun r hr =>
      hs.covered obj.key (hobjects trivial objects rfl obj hobj r hr) r hr
  | uploadObject form =>
    refine remains_of_spares False hw hs rfl (uiUploadObject_only hq fun i key => ?_) hr
    have hne {ref : ObjectRef} {r : ObjectVersion}
        (h : Target (Answers w c (Locked w (c.skip i).now) True False) (c.skip i)
          (trimSpace form.bucket) key ref)
        (hr : Locked w (c.skip i).now (trimSpace form.bucket) key r) : r.versionID ≠ ref.versionID :=
      h.ne (hs.unused key (i + 0)) hr
    exact writeGuard_spares ⟨i + 0, rfl⟩ (fun _ h _ hr => hne h hr) fun _ h =>
      (hs.apart key).target_spared hkeyed ⟨i + 0, rfl⟩ h fun _ hr => hne h hr
  | createFolder bucket pre delimiter folder =>
    exact remains_of_spares False hw hs rfl (uiCreateFolder_only hq
      (folderGuard_spares hw (hs.apart _) (hs.unused _) hs.covered)) hr
  | deleteObject bucket key pre delimiter =>
    -- the rows stand still where all versions are deleted
    refine remains_of_spares (¬ VersioningEnabled w (trimSpace bucket)) hw hs rfl
      (uiDeleteObject_only hq
        (fun b hb henabled => deleteMarker_spares fun h => h ⟨b, hb b rfl, henabled⟩)
        fun b hb hdisabled => ?_) hr
    have hnot := not_versioningEnabled (hb b rfl) hdisabled
    exact deleteAllGuard_spares (hs.apart _) hkeyed fun h =>
      h.not_locked (hs.covered hnot) fun _ => hnot
  | updateObjectMimetype bucket key contentType => exact relabelled_remains hw (hs.puts rfl) hr
  | deleteFolderMarker bucket key pre delimiter =>
    refine remains_of_spares False hw hs rfl (uiDeleteFolderMarker_only hq
      (fun _ _ _ => deleteMarker_spares id) fun hsuffix b hb hdisabled => ?_) hr
    exact wipeGuard_spares (hs.apart _) hkeyed
      (hs.covered hsuffix (not_versioningEnabled (hb b rfl) hdisabled))
  | deleteFolder bucket pre delimiter targetPre key =>
    refine remains_of_spares (¬ VersioningEnabled w (trimSpace bucket)) hw hs rfl
      (uiDeleteFolder_only hq
        (fun b hb henabled _ _ => deleteMarker_spares fun h => h ⟨b, hb b rfl, henabled⟩)
        fun b hb hdisabled objects hobjects obj hobj htarget => ?_) hr
    have hnot := not_versioningEnabled (hb b rfl) hdisabled
    exact wipeGuard_spares (hs.apart _) hkeyed fun r hr =>
      hs.covered hnot obj.key (hobjects hnot objects rfl obj hobj r hr) htarget r hr

/-- **Locked versions survive the web UI.**  In every world that requests and actions lead to, a version
that is locked when an action that meets the condition writes or deletes objects is there and locked
afterwards, and its blob was neither replaced nor removed. -/
theorem locked_survives_action (h : Reachable a (OwnershipCondition a) w)
    (hs : ActionCondition a w action c faults) (hwrite : action.isWrite = true) :
    ∀ b k r, Locked w c.now b k r → Remains a w action c faults b k r :=
  fun _ _ _ hr => hs.remains (wellFormed_of_reachable h).1 hwrite hr

def heldWorld : World := serverAfter heldAPI {} (heldHistory.map .s3)

theorem reachable_heldWorld : Reachable heldAPI (OwnershipCondition heldAPI) heldWorld :=
  .steps .empty (by decide +kernel)

def heldUpload : UIAction :=
  .uploadObject { bucket := str "b", files := [⟨str "k", [], some ⟨str "two", false⟩⟩] }

theorem actionCondition_heldUpload : ActionCondition heldAPI heldWorld heldUpload (sampleCtx 3) [] := by
  have hone : OneKey [nullVersion] heldWorld := by decide +kernel
  have hsha : Function.Injective heldAPI.platform.sha256 := spread_sha256_injective (by decide +kernel)
  refine ⟨hone.unused (by decide) _, fun _ => by decide +kernel, fun key => ?_, ?_, nofun, trivial⟩
  · refine apart_of_injective (wellFormed_of_reachable reachable_heldWorld).1 hsha
      (fun _ _ _ hr => hr.1) (fun b k r hr => ?_) (by decide)
    rw [(hone.row hr.1).1]
    decide
  · have hok : ∀ e ∈ ((ui heldUpload (sampleCtx 3) []).run heldAPI heldWorld).events,
        e.fault = .ok := by decide +kernel
    exact fun e he _ _ _ _ => hok e he

/-- A version under a legal hold survives an upload to its key. -/
theorem locked_survives_heldUpload : ∃ r, Locked heldWorld 3 (str "b") (str "k") r ∧
    Remains heldAPI heldWorld heldUpload (sampleCtx 3) [] (str "b") (str "k") r := by
  have hany : (heldWorld.metadata.versions (str "b") (str "k")).any (objectLocked · 3) = true := by
    decide +kernel
  obtain ⟨r, hr⟩ := any_eq_true.1 hany
  exact ⟨r, hr, locked_survives_action reachable_heldWorld actionCondition_heldUpload rfl _ _ _ hr⟩

/-! ## A folder under a legal hold -/

/-- A folder marker with content, under a legal hold. -/
def heldFolder : List ServerStep :=
  [.s3 ⟨.createBucket (str "b"), sampleCtx 1, []⟩,
    .s3 ⟨.putObject (objectRequest "" [("x-amz-meta-__s000_legal_hold", "ON")]) (str "b") (str "dir/")
      ⟨str "one", false⟩, sampleCtx 2, []⟩]

/-- The rows of the marker and its blob, after an action. -/
def heldFolderAfter (action : UIAction) : List (Bytes × Bool) × Option Bytes :=
  let w := ((ui action (sampleCtx 3) []).run sampleAPI
    (serverAfter sampleAPI {} heldFolder)).world
  ((w.metadata.versions (str "b") (str "dir/")).map fun v => (v.versionID, objectLocked v 3),
    w.disk.files (sampleAPI.path ⟨str "b", str "dir/", nullVersion⟩))

/-- **Locked versions that are lost**: a new folder replaces the marker, whose lock is gone and whose
blob is empty; the deletions of the marker, of the folder and of the bucket remove it. -/
theorem heldFolder_lost :
    Reachable sampleAPI (OwnershipCondition sampleAPI) (serverAfter sampleAPI {} heldFolder) ∧
    ((serverAfter sampleAPI {} heldFolder).metadata.versions (str "b") (str "dir/")).map
      (fun v => (v.versionID, objectLocked v 3)) = [(nullVersion, true)] ∧
    (serverAfter sampleAPI {} heldFolder).disk.files
      (sampleAPI.path ⟨str "b", str "dir/", nullVersion⟩) = some (str "one") ∧
    heldFolderAfter (.createFolder (str "b") [] [] (str "dir")) = ([(nullVersion, false)], some []) ∧
    heldFolderAfter (.deleteFolderMarker (str "b") (str "dir/") [] []) = ([], none) ∧
    heldFolderAfter (.deleteFolder (str "b") [] [] (str "dir") []) = ([], none) ∧
    heldFolderAfter (.deleteBucket (str "b")) = ([], none) := by
  refine ⟨Reachable.steps .empty (by decide +kernel), ?_, ?_, ?_, ?_, ?_, ?_⟩ <;> decide +kernel

end S000
