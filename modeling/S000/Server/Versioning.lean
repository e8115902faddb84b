import S000.Server.LockSafety

/-!
# Server/Versioning — versions of versioned and of suspended buckets

While the versioning of a bucket is enabled, requests only add versions: what a write puts in place has
an id, and with it a path, that no version has, and a deletion that names no version puts a marker.
Only a deletion that names a version takes one away (`enabled_keeps_versions`).

When versioning is suspended the versions with ids of their own stay, next to the `null` version that
writes replace from then on.  A deletion that names no version does not know them apart: unless the
latest version is locked it deletes all versions of the key (`suspended_keeps_versions`).
-/

namespace S000

open Strings Metadata Blob List

variable {a : S3API} {w : World} {s : Step} {b k : Bytes} {r : ObjectVersion}

/-! ## While versioning is enabled -/

/-- The ids that a step draws are in use nowhere, and none is used twice. -/
structure FreshAnywhere (a : S3API) (w : World) (s : Step) : Prop where
  unused : ∀ b k i, newVersionID s.ctx i ∉
    (w.metadata.versions b k).map ObjectVersion.versionID
  once : stores.Allowed FreshPut w (respond a w s).2.events

theorem FreshAnywhere.freshIDs (h : FreshAnywhere a w s) : FreshIDs a w s :=
  ⟨fun k i => h.unused _ k i, h.once⟩

/-- A deletion that names a version is about the version: it is a `DELETE` of a version, or an entry of
a multi-object deletion names a version of a key under which the version is stored. -/
def NamesVersion (a : S3API) (w : World) (s : Step) (r : ObjectVersion) : Prop :=
  match s.request with
  | .deleteObject req _ _ => req.query.get (str "versionId") ≠ []
  | .deleteObjects bucket (some doc) => ∃ e ∈ doc.objects, e.versionID ≠ [] ∧
    ∃ versionID, InReach w s.ctx bucket (trimSpace e.key) versionID ∧
      a.path (blobRef r) = a.path ⟨bucket, trimSpace e.key, versionID⟩
  | _ => False

/-- The versions that no deletion names survive, and the list of a key none of whose versions is named
does not get shorter. -/
def KeepsVersions (a : S3API) (w : World) (s : Step) : Prop :=
  (∀ b k r, r ∈ w.metadata.versions b k → ¬ NamesVersion a w s r → Survives a w s b k r) ∧
  ∀ b k, (∀ r ∈ w.metadata.versions b k, ¬ NamesVersion a w s r) →
    (w.metadata.versions b k).length ≤ ((after a w s).metadata.versions b k).length

def Unnamed (a : S3API) (w : World) (s : Step) (b k : Bytes) (r : ObjectVersion) : Prop :=
  r ∈ w.metadata.versions b k ∧ ¬ NamesVersion a w s r

theorem survives_of_unnamed (hw : WellFormed a w) (hs : FreshAnywhere a w s)
    (h : (handle a s.ctx s.request).Only (Answers w s.ctx (Unnamed a w s) False False)
      (Spares a s.ctx (Unnamed a w s) False) fun _ => True)
    (hr : Unnamed a w s b k r) : Survives a w s b k r :=
  (kept_of_spares hw hs.once (fun h => h.elim) (fun _ _ _ hr => hr.1) h).survives hw hr hr.1

/-- In a versioned bucket the target of a write is a new version, -/
theorem Target.eq_newVersionID {S : Bytes → Bytes → ObjectVersion → Prop} {trusted still : Prop}
    {c : Ctx} {bucket key : Bytes} {ref : ObjectRef} (henabled : VersioningEnabled w bucket)
    (h : Target (Answers w c S trusted still) c bucket key ref) :
    ref.versionID = newVersionID c 0 := by
  obtain ⟨b, hb, hid⟩ := h.versionID_eq
  obtain ⟨b', hb', hstatus⟩ := henabled
  obtain rfl := Except.ok.inj ((hb b rfl).symm.trans hb')
  rw [hid, writtenVersionID, if_pos hstatus]

/-- …and no version has its path. -/
theorem path_ne_of_newVersionID (hsha : Function.Injective a.platform.sha256)
    (hw : WellFormed a w) (hs : FreshAnywhere a w s) (hr : r ∈ w.metadata.versions b k)
    {ref : ObjectRef} (href : ref.versionID = newVersionID s.ctx 0) :
    a.path (blobRef r) ≠ a.path ref := by
  intro hpath
  obtain ⟨-, hversion⟩ := objectPath_inj hsha hpath
  rw [@ObjectRef.version_eq (blobRef r) ((hw b k).rows r hr).named,
    ObjectRef.version_eq (href ▸ newVersionID_ne_nil s.ctx 0), href] at hversion
  exact hs.unused b k 0 (mem_map.2 ⟨r, hr, hversion⟩)

/-- **The versions that no deletion names survive** a request in a versioned bucket. -/
theorem enabled_survives (hsha : Function.Injective a.platform.sha256) (hw : WellFormed a w)
    (hs : FreshAnywhere a w s) (henabled : VersioningEnabled w s.request.bucket)
    (hr : Unnamed a w s b k r) : Survives a w s b k r := by
  have hq : ∀ o, Call.Idle o → Spares a s.ctx (Unnamed a w s) False o := fun o ho => ho.quiet.spares
  have hwrite (key : Bytes) : WriteGuard a (Answers w s.ctx (Unnamed a w s) False False)
      (Spares a s.ctx (Unnamed a w s) False) s.ctx s.request.bucket key := by
    refine writeGuard_spares ⟨0, rfl⟩ (fun ref h r hr hid => ?_) fun ref h b k r hr => ?_
    · exact hs.unused _ _ 0 (mem_map.2 ⟨r, hr.1, hid.trans (h.eq_newVersionID henabled)⟩)
    · exact path_ne_of_newVersionID hsha hw hs hr.1 (h.eq_newVersionID henabled)
  have hnot {b : Bucket} (hb : w.metadata.getBucket s.request.bucket = .ok b)
      (h : b.versioningStatus ≠ str "Enabled") : False := not_versioningEnabled hb h henabled
  obtain ⟨request, c, faults⟩ := s
  cases request with
  | putObject r bucket key body =>
    exact survives_of_unnamed hw hs (inBucket_only hq (handlePutObject_only hq (hwrite key))) hr
  | copyObject r bucket key =>
    exact survives_of_unnamed hw hs (inBucket_only hq (handleCopyObject_only hq (hwrite key))) hr
  | completeMultipartUpload r bucket key uploadID body =>
    exact survives_of_unnamed hw hs
      (inBucket_only hq (handleCompleteMultipartUpload_only hq
        (Call.Quiet.spares trivial) (Call.Quiet.spares trivial)
        (fun ref h _ => (hwrite key).rename ref h 0 []) (hwrite key))) hr
  | deleteObject req bucket key =>
    have hnil : req.query.get (str "versionId") = [] := not_not.1 hr.2
    refine survives_of_unnamed hw hs (inBucket_only hq (handleDeleteObject_only hq
      ⟨fun hne => absurd hnil hne, fun hne => absurd hnil hne⟩
      (fun _ _ _ _ => deleteMarker_spares id) fun b hb hdisabled _ => ?_)) hr
    exact (hnot (hb b rfl) hdisabled).elim
  | deleteObjects bucket doc =>
    refine survives_of_unnamed hw hs (handleDeleteObjects_only hq
      (fun _ _ _ _ _ => deleteMarker_spares id) fun b hb d hd e he hdeletes => ?_) hr
    subst hd
    have hne : e.versionID ≠ [] := fun hnil => hnot (hb b rfl) fun h => hdeletes ⟨h, hnil⟩
    refine ⟨fun _ r hr => hr.2 ⟨e, he, hne, r.versionID, ?_, ?_⟩,
      fun _ removed err hremoved _ v hv b' k' r hr hpath => ?_⟩
    · exact .inr (.inr (mem_map_of_mem hr.1))
    · rw [(hw _ _).blobRef_eq hr.1]
    obtain ⟨hb', hk', hreach⟩ := hremoved v hv
    refine hr.2 ⟨e, he, hne, v.versionID, hreach, ?_⟩
    rw [hpath, blobRef, hb', hk']
  | createBucket | putBucketVersioning | deleteBucket | getObject | headObject | putRetention
  | putLegalHold | createMultipartUpload | uploadPart | abortMultipartUpload =>
    exact survives_of_mild hw (handle_mild c (fun _ h => h) rfl) hr.1

theorem length_le_of_survives (hw : WellFormed a w)
    (h : ∀ r ∈ w.metadata.versions b k, Survives a w s b k r) :
    (w.metadata.versions b k).length ≤ ((after a w s).metadata.versions b k).length := by
  -- the ids are distinct, and every one of them is there afterwards
  have hsub : (w.metadata.versions b k).map ObjectVersion.versionID ⊆
      ((after a w s).metadata.versions b k).map ObjectVersion.versionID := by
    intro versionID hid
    obtain ⟨r, hr, rfl⟩ := mem_map.1 hid
    obtain ⟨r', hr', hstrip, -⟩ := (h r hr).row
    have hid : (stripMetadata r').versionID = (stripMetadata r).versionID := by rw [hstrip]
    exact mem_map.2 ⟨r', hr', hid⟩
  simpa using ((hw b k).distinct.subperm hsub).length_le

/-- **Versioned buckets only grow.**  In every history from an empty server that draws fresh ids, a
request in a bucket whose versioning is enabled leaves every version that no deletion names where it
is, with its row and its blob, whatever goes wrong; and a list of versions gets shorter only by a
deletion that names a version. -/
theorem enabled_keeps_versions (hsha : Function.Injective a.platform.sha256) {history : List Step}
    (h : Throughout a (FreshAnywhere a) {} history) :
    Throughout a (fun w s => VersioningEnabled w s.request.bucket → KeepsVersions a w s) {}
      history := by
  refine (Throughout.of_step (fun w s hw hs => ⟨fun henabled => ?_, hw.after hs.freshIDs⟩)
    wellFormed_empty h).1
  have hsurvives : ∀ b k r, r ∈ w.metadata.versions b k → ¬ NamesVersion a w s r →
      Survives a w s b k r := fun b k r hr hnamed =>
    enabled_survives hsha hw hs henabled ⟨hr, hnamed⟩
  exact ⟨hsurvives, fun b k hall => length_le_of_survives hw fun r hr => hsurvives b k r hr (hall r hr)⟩

/-- A server whose SHA-256 is the real one on what the sample requests hash, and one-to-one. -/
def versionedAPI : S3API :=
  { sampleAPI with platform := { digestPlatform with
      sha256 := spread Sha256.hash [str "one", str "two", str "b" ++ 0 :: str "k", str "3-", str "4-"] } }

def versionedHistory : List Step :=
  [⟨.createBucket (str "b"), sampleCtx 1, []⟩,
    ⟨.putBucketVersioning (str "b") (.document (str "Enabled")), sampleCtx 2, []⟩,
    ⟨.putObject objectRequest (str "b") (str "k") ⟨str "one", false⟩, sampleCtx 3, []⟩]

def secondWrite : Step :=
  ⟨.putObject objectRequest (str "b") (str "k") ⟨str "two", false⟩, sampleCtx 4, []⟩

theorem freshAnywhere_versionedHistory :
    Throughout versionedAPI (FreshAnywhere versionedAPI) {} (versionedHistory ++ [secondWrite]) := by
  have h₀ : OneKey [] {} := by decide
  have h₁ : OneKey [] (afterAll versionedAPI {} (versionedHistory.take 1)) := by decide +kernel
  have h₂ : OneKey [] (afterAll versionedAPI {} (versionedHistory.take 2)) := by decide +kernel
  have h₃ : OneKey [str "3-"] (afterAll versionedAPI {} versionedHistory) := by decide +kernel
  exact ⟨⟨h₀.unused (by decide), by decide +kernel⟩, ⟨h₁.unused (by decide), by decide +kernel⟩,
    ⟨h₂.unused (by decide), by decide +kernel⟩, ⟨h₃.unused (by decide), by decide +kernel⟩, trivial⟩

/-- The first version survives the second write. -/
theorem enabled_keeps_versions_secondWrite :
    ∃ r ∈ (afterAll versionedAPI {} versionedHistory).metadata.versions (str "b") (str "k"),
      Survives versionedAPI (afterAll versionedAPI {} versionedHistory) secondWrite
        (str "b") (str "k") r := by
  have hsha : Function.Injective versionedAPI.platform.sha256 :=
    spread_sha256_injective (by decide +kernel)
  have hany : ((afterAll versionedAPI {} versionedHistory).metadata.versions
      (str "b") (str "k")).any (fun _ => true) = true := by decide +kernel
  obtain ⟨r, hr, -⟩ := any_eq_true.1 hany
  have henabled : VersioningEnabled (afterAll versionedAPI {} versionedHistory) (str "b") :=
    ⟨⟨str "b", [], str "Enabled", 1⟩, by decide +kernel, rfl⟩
  have hkeeps := (enabled_keeps_versions hsha freshAnywhere_versionedHistory).2.2.2.1 henabled
  exact ⟨r, hr, hkeeps.1 _ _ r hr id⟩

/-! ## While versioning is suspended -/

def VersioningSuspended (w : World) (bucket : Bytes) : Prop :=
  ∃ b, w.metadata.getBucket bucket = .ok b ∧ b.versioningStatus = str "Suspended"

/-- A deletion of a key that names no version, by a request of its own or as an entry. -/
def S3Request.DeletesKey (k : Bytes) : S3Request → Prop
  | deleteObject r _ key => key = k ∧ r.query.get (str "versionId") = []
  | deleteObjects _ (some doc) => ∃ e ∈ doc.objects, trimSpace e.key = k ∧ e.versionID = []
  | _ => False

/-- The ids of the versions that a deletion looks at before it deletes a key. -/
def S3Request.Checks (k versionID : Bytes) : S3Request → Prop
  | deleteObject r _ key => key = k ∧ r.query.get (str "versionId") = versionID
  | deleteObjects _ (some doc) => ∃ e ∈ doc.objects, trimSpace e.key = k ∧ e.versionID = versionID
  | _ => False

/-- The versions of the keys that a step deletes, where one of them has an id of its own. -/
def Suspended (w : World) (s : Step) (b k : Bytes) (r : ObjectVersion) : Prop :=
  b = s.request.bucket ∧ s.request.DeletesKey k ∧ r ∈ w.metadata.versions b k ∧
    ∃ r' ∈ w.metadata.versions b k, r'.versionID ≠ nullVersion

/-- **When versions survive a deletion in a suspended bucket**: there are none but the `null` version,
or the deletion is refused. -/
structure SuspendedCondition (a : S3API) (w : World) (s : Step) : Prop where
  fresh : FreshIDs a w s
  /-- No other key of the request has a blob of such a version. -/
  apart : ∀ key ∈ s.request.keys, Apart a w s.ctx (Suspended w s) s.request.bucket key
  /-- The lock checks read what is there. -/
  reads : ∀ e ∈ (respond a w s).2.events, ∀ b k versionID,
    e.op = .getObjectVersion b k versionID → e.fault = .ok
  refused : VersioningSuspended w s.request.bucket → ∀ k, s.request.DeletesKey k →
    (∀ r ∈ w.metadata.versions s.request.bucket k, r.versionID = nullVersion) ∨
    ∀ versionID, s.request.Checks k versionID →
      ∃ r, w.metadata.getObjectVersion s.request.bucket k versionID = .ok r ∧
        objectLocked r s.ctx.now = true

/-- A version that stays: it is found by its id, with the row it had, and what could be read is read as
before. -/
structure Stays (a : S3API) (w : World) (s : Step) (b k : Bytes) (r : ObjectVersion) : Prop where
  row : r ∈ (after a w s).metadata.versions b k
  found : (after a w s).metadata.getObjectVersion b k r.versionID = .ok r
  readable : Readable w b k r →
    Readable (after a w s) b k r ∧ readVersion a (after a w s) r = readVersion a w r

/-- **The check that a deletion makes finds the lock**: where it passes there is no version to spare. -/
theorem SuspendedCondition.spared (hs : SuspendedCondition a w s)
    (hsuspended : VersioningSuspended w s.request.bucket) {key versionID : Bytes}
    (hchecks : s.request.Checks key versionID)
    (h : Unlocked (Answers w s.ctx (Suspended w s) True True) s.ctx s.request.bucket key versionID) :
    ∀ r, ¬ Suspended w s s.request.bucket key r := by
  intro r hr
  obtain ⟨-, hkey, hmem, r', hr', hown⟩ := id hr
  rcases hs.refused hsuspended key hkey with hnull | hlocked
  · exact hown (hnull r' hr')
  obtain ⟨checked, hget, hlocked⟩ := hlocked versionID hchecks
  obtain ⟨v, hv, hunlocked⟩ := h
  -- what the check is told is what is there
  have hv : v = .ok checked := by
    by_cases hnil : versionID = []
    · exact ((hv trivial r hr).2 trivial hnil).trans (hnil ▸ hget)
    · obtain ⟨hchecked, hid⟩ := MemoryState.mem_of_getObjectVersion hget
      exact (hv trivial checked ⟨rfl, hkey, hchecked, r', hr', hown⟩).1 (hid hnil).symm
  rw [hunlocked checked hv] at hlocked
  cases hlocked

/-- **The versions of a suspended bucket survive a deletion** that meets the condition. -/
theorem SuspendedCondition.stays (hw : WellFormed a w) (hs : SuspendedCondition a w s)
    (hsuspended : VersioningSuspended w s.request.bucket) (hr : Suspended w s b k r) :
    Stays a w s b k r := by
  have hq : ∀ o, Call.Idle o → Spares a s.ctx (Suspended w s) True o := fun o ho => ho.quiet.spares
  have hkeyed : ∀ b k r, Suspended w s b k r → r.bucket = b ∧ r.key = k :=
    fun b k r hr => (hw b k).keyed r hr.2.2.1
  have hnot {b : Bucket} (hb : w.metadata.getBucket s.request.bucket = .ok b)
      (henabled : b.versioningStatus = str "Enabled") : False := by
    obtain ⟨b', hb', hstatus⟩ := hsuspended
    obtain rfl := Except.ok.inj (hb.symm.trans hb')
    exact absurd (henabled.symm.trans hstatus) (by decide)
  have hkept : Kept a w s.ctx (Suspended w s) True (respond a w s).2 := by
    refine kept_of_spares hw hs.fresh.once (fun _ : True => hs.reads) (fun _ _ _ hr => hr.2.2.1) ?_
    have hdeletes := hr.2.1
    obtain ⟨request, c, faults⟩ := s
    cases request with
    | deleteObject req bucket key =>
      have hnil : req.query.get (str "versionId") = [] := hdeletes.2
      refine inBucket_only hq (handleDeleteObject_only hq
        ⟨fun hne => absurd hnil hne, fun hne => absurd hnil hne⟩
        (fun b hb henabled _ => (hnot (hb b rfl) henabled).elim) fun _ _ _ _ => ?_)
      exact deleteAllGuard_spares (hs.apart key mem_cons_self) hkeyed (hs.spared hsuspended ⟨rfl, hnil⟩)
    | deleteObjects bucket doc =>
      refine handleDeleteObjects_only hq
        (fun b hb henabled => (hnot (hb b rfl) henabled).elim) fun _ _ d hd e he _ => ?_
      subst hd
      exact deleteAllGuard_spares (hs.apart _ (mem_map_of_mem he)) hkeyed
        (hs.spared hsuspended ⟨e, he, rfl, rfl⟩)
    | _ => exact hdeletes.elim
  have hrow := (hkept.rows b k r hr).1
  refine ⟨hrow, (hkept.wellFormed b k).getObjectVersion hrow, fun hread => hread.of_files hrow ?_⟩
  rw [((hw b k).rows r hr.2.2.1).stored hread.object]
  exact files_after_of_untouched (hkept.blobs b k r hr)

/-- **Suspended buckets keep their versions**, in every history from an empty server whose steps meet the
condition: a deletion that names no version leaves the versions of the key that have ids of their own,
and they read as before. -/
theorem suspended_keeps_versions {history : List Step}
    (h : Throughout a (SuspendedCondition a) {} history) :
    Throughout a (fun w s => VersioningSuspended w s.request.bucket → ∀ k, s.request.DeletesKey k →
      ∀ r ∈ w.metadata.versions s.request.bucket k, r.versionID ≠ nullVersion →
        Stays a w s s.request.bucket k r) {} history := by
  refine (Throughout.of_step (fun w s hw hs => ⟨fun hsuspended k hk r hr hown => ?_,
    hw.after hs.fresh⟩) wellFormed_empty h).1
  exact hs.stays hw hsuspended ⟨rfl, hk, hr, r, hr, hown⟩

/-! ## Two deletions in a suspended bucket -/

/-- A bucket whose versioning was suspended after an object was written with the given header. -/
def suspendedHistory (header : List (String × String)) : List Step :=
  [⟨.createBucket (str "b"), sampleCtx 1, []⟩,
    ⟨.putBucketVersioning (str "b") (.document (str "Enabled")), sampleCtx 2, []⟩,
    ⟨.putObject (objectRequest "" header) (str "b") (str "k") ⟨str "one", false⟩, sampleCtx 3, []⟩,
    ⟨.putBucketVersioning (str "b") (.document (str "Suspended")), sampleCtx 4, []⟩]

def suspendedDelete : Step := ⟨.deleteObject objectRequest (str "b") (str "k"), sampleCtx 5, []⟩

abbrev holdHeader : List (String × String) := [("x-amz-meta-__s000_legal_hold", "ON")]

theorem suspendedCondition_suspendedHistory :
    Throughout sampleAPI (SuspendedCondition sampleAPI) {}
      (suspendedHistory holdHeader ++ [suspendedDelete]) := by
  have hother {w : World} {s : Step} (hs : s.faults = []) (hfresh : FreshIDs sampleAPI w s)
      (hdeletes : ∀ k, ¬ s.request.DeletesKey k) : SuspendedCondition sampleAPI w s :=
    ⟨hfresh, fun _ _ _ _ _ _ _ hr => absurd hr.2.1 (hdeletes _),
      reads_of_faultless hs, fun _ k hk => absurd hk (hdeletes k)⟩
  have h₀ : OneKey [] ({} : World) := by decide
  have h₁ : OneKey [] (afterAll sampleAPI {} ((suspendedHistory holdHeader).take 1)) := by
    decide +kernel
  have h₂ : OneKey [] (afterAll sampleAPI {} ((suspendedHistory holdHeader).take 2)) := by
    decide +kernel
  have h₃ : OneKey [str "3-"] (afterAll sampleAPI {} ((suspendedHistory holdHeader).take 3)) := by
    decide +kernel
  have h₄ : OneKey [str "3-"] (afterAll sampleAPI {} (suspendedHistory holdHeader)) := by decide +kernel
  refine ⟨hother rfl (h₀.freshIDs (by decide) (by decide +kernel)) fun _ => id,
    hother rfl (h₁.freshIDs (by decide) (by decide +kernel)) fun _ => id,
    hother rfl (h₂.freshIDs (by decide) (by decide +kernel)) fun _ => id,
    hother rfl (h₃.freshIDs (by decide) (by decide +kernel)) fun _ => id, ?_, trivial⟩
  refine ⟨h₄.freshIDs (by decide) (by decide +kernel), fun key hkey => ?_,
    reads_of_faultless rfl, fun _ k hk => .inr fun versionID hchecks => ?_⟩
  · obtain rfl := mem_singleton.1 hkey
    exact h₄.apart (fun _ _ _ hr => hr.2.2.1) (by decide +kernel)
  obtain ⟨rfl, rfl⟩ := hchecks
  have hlocked : ((afterAll sampleAPI {} (suspendedHistory holdHeader)).metadata.getObjectVersion
      (str "b") (str "k") []).toOption.any (objectLocked · 5) = true := by decide +kernel
  cases hget : (afterAll sampleAPI {} (suspendedHistory holdHeader)).metadata.getObjectVersion
      (str "b") (str "k") [] with
  | error e =>
    rw [hget] at hlocked
    cases hlocked
  | ok r =>
    rw [hget] at hlocked
    exact ⟨r, hget, hlocked⟩

/-- A version under a legal hold stays. -/
theorem suspended_keeps_versions_held :
    ∃ r ∈ (afterAll sampleAPI {} (suspendedHistory holdHeader)).metadata.versions (str "b") (str "k"),
      r.versionID = str "3-" ∧ Stays sampleAPI
        (afterAll sampleAPI {} (suspendedHistory holdHeader)) suspendedDelete
          (str "b") (str "k") r := by
  have hany : ((afterAll sampleAPI {} (suspendedHistory holdHeader)).metadata.versions
      (str "b") (str "k")).any (fun r => r.versionID = str "3-") = true := by decide +kernel
  obtain ⟨r, hr, hid⟩ := any_eq_true.1 hany
  have hid := of_decide_eq_true hid
  have hsuspended : VersioningSuspended (afterAll sampleAPI {} (suspendedHistory holdHeader))
      (str "b") := ⟨⟨str "b", [], str "Suspended", 1⟩, by decide +kernel, rfl⟩
  have hstays := (suspended_keeps_versions suspendedCondition_suspendedHistory).2.2.2.2.1
    hsuspended (str "k") ⟨rfl, rfl⟩
  exact ⟨r, hr, hid, hstays r hr (by rw [hid]; decide)⟩

/-- **A version that is lost**: the deletion, which is to make room for a `null` version at most, takes
the version with an id of its own, row and blob. -/
theorem suspendedDelete_loses :
    VersioningSuspended (afterAll sampleAPI {} (suspendedHistory [])) (str "b") ∧
    ((afterAll sampleAPI {} (suspendedHistory [])).metadata.versions (str "b") (str "k")).map
      ObjectVersion.versionID = [str "3-"] ∧
    (afterAll sampleAPI {} (suspendedHistory [])).disk.files
      (sampleAPI.path ⟨str "b", str "k", str "3-"⟩) = some (str "one") ∧
    (respond sampleAPI (afterAll sampleAPI {} (suspendedHistory [])) suspendedDelete).1 = .answer 204 ∧
    (after sampleAPI (afterAll sampleAPI {} (suspendedHistory [])) suspendedDelete).metadata.versions
      (str "b") (str "k") = [] ∧
    (after sampleAPI (afterAll sampleAPI {} (suspendedHistory [])) suspendedDelete).disk.files
      (sampleAPI.path ⟨str "b", str "k", str "3-"⟩) = none := by
  refine ⟨⟨⟨str "b", [], str "Suspended", 1⟩, by decide +kernel, rfl⟩, ?_, ?_, ?_, ?_, ?_⟩
  · decide +kernel
  · decide +kernel
  · decide +kernel
  · exact eq_nil_of_length_eq_zero (by decide +kernel)
  · decide +kernel

end S000
