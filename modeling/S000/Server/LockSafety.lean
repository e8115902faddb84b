import S000.Server.Sparing

/-!
# Server/LockSafety — what happens to locked versions

A locked version must survive every request: its row stays, and its blob is neither replaced nor
removed.  Each handler looks at one version before it acts: a write looks at the `null` version it
replaces, a deletion at the version it names or at the latest one.  Where the stores then act on that
version alone, that is enough.  `DeleteAllObjectVersions` acts on all versions of a key, and a read that
fails counts as a version that is not locked; `LockCondition` excludes those two ways to lose a locked
version, next to ids and paths that coincide.
-/

namespace S000

open Strings Metadata Blob List

def Locked (w : World) (now : Time) (b k : Bytes) (r : ObjectVersion) : Prop :=
  r ∈ w.metadata.versions b k ∧ objectLocked r now = true

/-! ## The condition -/

/-- What a request acts on has the path of a locked version only if it is that version. -/
def PathsApart (a : S3API) (w : World) (s : Step) : Prop :=
  ∀ key ∈ s.request.keys, Apart a w s.ctx (Locked w s.ctx.now) s.request.bucket key

/-- If there is a locked version of the key, the one that is looked at is locked. -/
def CheckCovers (w : World) (now : Time) (b k versionID : Bytes) : Prop :=
  (∃ r, Locked w now b k r) →
    ∃ r, w.metadata.getObjectVersion b k versionID = .ok r ∧ objectLocked r now = true

/-- The check before a deletion of all versions of a key covers them. -/
def DeletionsCovered (w : World) (s : Step) : Prop :=
  match s.request with
  | .deleteObject r bucket key => r.query.get (str "versionId") = [] →
    ¬ VersioningEnabled w bucket → CheckCovers w s.ctx.now bucket key []
  | .deleteObjects bucket (some doc) => ∀ e ∈ doc.objects,
    ¬ (VersioningEnabled w bucket ∧ e.versionID = []) →
      CheckCovers w s.ctx.now bucket (trimSpace e.key) e.versionID
  | _ => True

/-- **When locked versions survive a step.** -/
structure LockCondition (a : S3API) (w : World) (s : Step) : Prop where
  fresh : FreshIDs a w s
  apart : PathsApart a w s
  /-- The lock checks read what is there. -/
  reads : ∀ e ∈ (respond a w s).2.events, ∀ b k versionID,
    e.op = .getObjectVersion b k versionID → e.fault = .ok
  covered : DeletionsCovered w s

variable {a : S3API} {w : World} {s : Step} {b k : Bytes} {l l' : List ObjectVersion} {o : Call}
  {r : ObjectVersion} {still : Prop}

/-! ## What the handlers check -/

section Handlers

variable {c c' : Ctx} {key versionID : Bytes}

theorem Unlocked.ne (h : Unlocked (Answers w c (Locked w c'.now) True still) c' b k versionID)
    (hr : Locked w c'.now b k r) : r.versionID ≠ versionID := by
  obtain ⟨v, hv, hunlocked⟩ := h
  intro hid
  have := hunlocked r ((hv trivial r hr).1 hid.symm)
  rw [hr.2] at this
  cases this

/-- Where the check covers all versions, a check that passes means that none is locked. -/
theorem Unlocked.not_locked (h : Unlocked (Answers w c (Locked w c'.now) True still) c' b k versionID)
    (hcover : CheckCovers w c'.now b k versionID) (hstill : versionID = [] → still) :
    ∀ r, ¬ Locked w c'.now b k r := by
  intro r hr
  obtain ⟨checked, hget, hlocked⟩ := hcover ⟨r, hr⟩
  by_cases hnil : versionID = []
  · obtain ⟨v, hv, hunlocked⟩ := h
    subst hnil
    have := hunlocked checked (((hv trivial r hr).2 (hstill rfl) rfl).trans hget)
    rw [hlocked] at this
    cases this
  · rw [MemoryState.getObjectVersion, if_neg hnil] at hget
    split at hget
    · cases hget
    next found hfound =>
      obtain rfl := Except.ok.inj hget
      obtain ⟨hmem, hid⟩ := Versions.find_some hfound
      exact h.ne ⟨hmem, hlocked⟩ hid

theorem Target.ne {ref : ObjectRef} (h : Target (Answers w c (Locked w c'.now) True still) c' b key ref)
    (hunused : newVersionID c' 0 ∉ (w.metadata.versions b key).map ObjectVersion.versionID)
    (hr : Locked w c'.now b key r) : r.versionID ≠ ref.versionID := by
  obtain ⟨_, -, hid⟩ := h.versionID_eq
  rcases writtenVersionID_cases c' _ with hnull | hnew
  · have hnull' := hid.trans hnull
    exact hnull' ▸ (h.unlocked hnull').ne hr
  rintro hid'
  refine hunused ?_
  rw [← hnew, ← hid, ← hid']
  exact mem_map_of_mem hr.1

end Handlers

/-! ## Requests that keep all rows -/

variable {locks : Bool}

theorem RowChange.mild (h : RowChange b k o l l') (ho : o.Mild locks) :
    l'.map stripMetadata = l.map stripMetadata ∧ (locks = false → l' = l) := by
  cases h with
  | same => exact ⟨rfl, fun _ => rfl⟩
  | drop | put | remove | clear => exact ho.elim
  | update h => exact ⟨h, fun hlocks => absurd (ho.symm.trans hlocks) (by decide)⟩

theorem Call.Mild.not_touches (h : o.Mild locks) (path : Bytes) : ¬ o.Touches path := by
  cases o with
  | rename | promote | remove => exact h.elim
  | _ => exact id

/-! ## One request -/

/-- What becomes of a locked version: its row is there, unchanged but for its metadata map if the
request is about locks, and its blob, which is where the row says, was not touched. -/
structure Survives (a : S3API) (w : World) (s : Step) (b k : Bytes) (r : ObjectVersion) : Prop where
  row : ∃ r' ∈ (after a w s).metadata.versions b k, stripMetadata r' = stripMetadata r ∧
    (s.request.setsLock = false → r' = r)
  stored : r.deleteMarker = false → r.storagePath = a.path (blobRef r)
  untouched : ∀ e ∈ (respond a w s).2.events, ¬ e.op.Touches (a.path (blobRef r))
  blob : (after a w s).disk.files (a.path (blobRef r)) = w.disk.files (a.path (blobRef r))

theorem survives_of_mild (hw : WellFormed a w) (h : (handle a s.ctx s.request).Only (fun _ _ => True)
      (Call.Mild s.request.setsLock) fun _ => True)
    (hr : r ∈ w.metadata.versions b k) : Survives a w s b k r := by
  obtain ⟨-, hrows, hevents⟩ := respond_of_only (fun _ _ => True)
    (fun x => (x.world.metadata.versions b k).map stripMetadata =
        (w.metadata.versions b k).map stripMetadata ∧
        (s.request.setsLock = false → x.world.metadata.versions b k = w.metadata.versions b k) ∧
      ∀ e ∈ x.events, ¬ e.op.Touches (a.path (blobRef r)))
    (fun x f o hx ho _ => by
      obtain ⟨hstrip, hsame⟩ := (rowChange_step x.world f o b k).mild ho
      refine ⟨trivial, hstrip.trans hx.1, fun h => (hsame h).trans (hx.2.1 h), fun e he => ?_⟩
      rcases mem_append.1 he with he | he
      · exact hx.2.2 e he
      · obtain rfl := mem_singleton.1 he
        exact ho.not_touches _)
    h ⟨rfl, fun _ => rfl, nofun⟩ (Machine.allowed_of_mem fun _ _ => trivial)
  refine ⟨?_, ((hw b k).rows r hr).stored, hevents.2, files_after_of_untouched hevents.2⟩
  cases hl : s.request.setsLock with
  | false => exact ⟨r, (hevents.1 hl).symm ▸ hr, rfl, fun _ => rfl⟩
  | true =>
    obtain ⟨r', hr', hstrip⟩ := mem_map.1 (hrows.symm ▸ mem_map_of_mem hr)
    exact ⟨r', hr', hstrip, nofun⟩

theorem Kept.survives (hw : WellFormed a w) {S : Bytes → Bytes → ObjectVersion → Prop} {still : Prop}
    (hkept : Kept a w s.ctx S still (respond a w s).2) (hS : S b k r)
    (hr : r ∈ w.metadata.versions b k) : Survives a w s b k r :=
  ⟨⟨r, (hkept.rows b k r hS).1, rfl, fun _ => rfl⟩, ((hw b k).rows r hr).stored, hkept.blobs b k r hS,
    files_after_of_untouched (hkept.blobs b k r hS)⟩

theorem survives_of_spares (still : Prop) (hw : WellFormed a w) (hs : LockCondition a w s)
    (h : (handle a s.ctx s.request).Only (Answers w s.ctx (Locked w s.ctx.now) True still)
      (Spares a s.ctx (Locked w s.ctx.now) still) fun _ => True)
    (hr : Locked w s.ctx.now b k r) : Survives a w s b k r :=
  (kept_of_spares hw hs.fresh.once (fun _ => hs.reads) (fun _ _ _ hr => hr.1) h).survives hw hr hr.1

/-- **A locked version survives a request** that meets the condition. -/
theorem LockCondition.survives (hw : WellFormed a w) (hs : LockCondition a w s)
    (hr : Locked w s.ctx.now b k r) : Survives a w s b k r := by
  have hq {still : Prop} : ∀ o, Call.Idle o → Spares a s.ctx (Locked w s.ctx.now) still o :=
    fun o ho => ho.quiet.spares
  have hkeyed : ∀ b k r, Locked w s.ctx.now b k r → r.bucket = b ∧ r.key = k :=
    fun b k r hr => (hw b k).keyed r hr.1
  have hwrite (key : Bytes) (hkey : key ∈ s.request.keys) :
      WriteGuard a (Answers w s.ctx (Locked w s.ctx.now) True False)
        (Spares a s.ctx (Locked w s.ctx.now) False) s.ctx s.request.bucket key :=
    writeGuard_spares ⟨0, rfl⟩ (fun _ h _ hr => h.ne (hs.fresh.unused key 0) hr) fun _ h =>
      (hs.apart key hkey).target_spared hkeyed ⟨0, rfl⟩ h fun _ hr => h.ne (hs.fresh.unused key 0) hr
  obtain ⟨request, c, faults⟩ := s
  cases request with
  | putObject r bucket key body =>
    exact survives_of_spares False hw hs (inBucket_only hq
      (handlePutObject_only hq (hwrite key mem_cons_self))) hr
  | copyObject r bucket key =>
    exact survives_of_spares False hw hs (inBucket_only hq
      (handleCopyObject_only hq (hwrite key mem_cons_self))) hr
  | completeMultipartUpload r bucket key uploadID body =>
    exact survives_of_spares False hw hs (inBucket_only hq
      (handleCompleteMultipartUpload_only hq (Call.Quiet.spares trivial) (Call.Quiet.spares trivial)
        (fun ref h _ => (hwrite key mem_cons_self).rename ref h 0 [])
        (hwrite key mem_cons_self))) hr
  | deleteObject r bucket key =>
    -- the rows stand still where all versions are deleted
    have hapart := hs.apart key mem_cons_self
    refine survives_of_spares (r.query.get (str "versionId") = [] ∧ ¬ VersioningEnabled w bucket) hw hs
      (inBucket_only hq (handleDeleteObject_only hq
        (deleteGuard_spares hapart hkeyed (fun hne h => hne h.1) fun h _ hr => h.ne hr)
        (fun b hb henabled _ => deleteMarker_spares fun h => h.2 ⟨b, hb b rfl, henabled⟩)
        fun b hb hdisabled hnil => ?_)) hr
    have hnot : ¬ VersioningEnabled w bucket := not_versioningEnabled (hb b rfl) hdisabled
    exact deleteAllGuard_spares hapart hkeyed fun h =>
      h.not_locked (hs.covered hnil hnot) fun _ => ⟨hnil, hnot⟩
  | deleteObjects bucket doc =>
    refine survives_of_spares (¬ VersioningEnabled w bucket) hw hs
      (handleDeleteObjects_only hq
        (fun b hb henabled key i => deleteMarker_spares fun h => h ⟨b, hb b rfl, henabled⟩)
        fun b hb d hd e he hnot => ?_) hr
    subst hd
    have hstill (hnil : e.versionID = []) : ¬ VersioningEnabled w bucket :=
      not_versioningEnabled (hb b rfl) fun h => hnot ⟨h, hnil⟩
    exact deleteAllGuard_spares (hs.apart _ (mem_map_of_mem he)) hkeyed fun h =>
      h.not_locked (hs.covered e he fun h => hstill h.2 h.1) hstill
  | createBucket | putBucketVersioning | deleteBucket | getObject | headObject | putRetention
  | putLegalHold | createMultipartUpload | uploadPart | abortMultipartUpload =>
    exact survives_of_mild hw (handle_mild c (fun _ h => h) rfl) hr.1

/-! ## Histories -/

def heldHistory : List Step :=
  [⟨.createBucket (str "b"), sampleCtx 1, []⟩,
    ⟨.putObject (objectRequest "" [("x-amz-meta-__s000_legal_hold", "ON")]) (str "b") (str "k")
      ⟨str "one", false⟩, sampleCtx 2, []⟩]

/-- A server whose SHA-256 is the real one on what the sample requests hash, and one-to-one. -/
def heldAPI : S3API :=
  { sampleAPI with platform := { digestPlatform with
      sha256 := spread Sha256.hash [str "one", str "b" ++ 0 :: str "k", nullVersion] } }

end S000
