import S000.Server.Readable

/-!
# Server/MultiDelete — a multi-object deletion against its entries

`handleDeleteObjects` has a loop of its own: it trims keys, refuses empty ones, and where an entry does
not add a delete marker it deletes all versions of the key, also where the entry names one.  Its effect
is compared here with that of the requests that delete the entries one by one.

Both sides are read off first as functions on worlds (`entryWorld`, `singleWorld`), for runs without
faults; what they do to a key is then compared by cases.
-/

namespace S000

open Strings Metadata Blob Machine MemoryState List Versions World

/-! ## What deletions do to a world -/

section Effects

variable (a : S3API) (w : World) (now : Time) (bucket key versionID : Bytes)

/-- The check before a deletion. -/
def World.locks : Bool :=
  match w.metadata.getObjectVersion bucket key versionID with
  | .error _ => false
  | .ok v => objectLocked v now

def World.mark : World :=
  { w with
    metadata := w.metadata.putObjectVersion (deleteMarker bucket key versionID now) }

/-- The disk without the blobs of some rows. -/
def dropBlobs (rows : List ObjectVersion) (d : Disk) : Disk :=
  rows.foldl (fun d v => d.setFile (a.path (blobRef v)) none) d

def World.wipe : World where
  metadata := (w.metadata.deleteAllObjectVersions bucket key).2
  disk := dropBlobs a (w.metadata.versions bucket key) w.disk

def World.dropVersion : World where
  metadata := (w.metadata.deleteObjectVersion bucket key versionID).2
  disk := dropBlobs a ((w.metadata.deleteObjectVersion bucket key versionID).1.toOption.toList.filter
    fun v => !v.deleteMarker) w.disk

end Effects

/-- The world after an entry of a multi-object deletion. -/
def entryWorld (a : S3API) (c : Ctx) (b : Bucket) (bucket : Bytes) (i : ℕ) (e : DeleteEntry)
    (w : World) : World :=
  if trimSpace e.key = [] then w
  else if b.versioningStatus = str "Enabled" ∧ e.versionID = [] then
    w.mark c.now bucket (trimSpace e.key) (newVersionID c i)
  else if w.locks c.now bucket (trimSpace e.key) e.versionID then w
  else w.wipe a bucket (trimSpace e.key)

def singleWorld (a : S3API) (c : Ctx) (b : Bucket) (bucket key versionID : Bytes) (w : World) : World :=
  if versionID ≠ [] then
    if w.locks c.now bucket key versionID then w else w.dropVersion a bucket key versionID
  else if b.versioningStatus = str "Enabled" then w.mark c.now bucket key (newVersionID c 0)
  else if w.locks c.now bucket key [] then w
  else w.wipe a bucket key

variable {a : S3API} {w : World} {c : Ctx} {s : Step} {b : Bucket} {r : Request}
  {bucket key versionID : Bytes} {e : DeleteEntry} {i : ℕ}

@[simp] theorem eval_versionLocked (w : World) (c : Ctx) (bucket key versionID : Bytes) :
    stores.eval (versionLocked c bucket key versionID) w = (w.locks c.now bucket key versionID, w) := by
  simp only [versionLocked, eval_bind, eval_ask, step, locks]
  cases w.metadata.getObjectVersion bucket key versionID <;> rfl

@[simp] theorem eval_emitAudit (w : World) (a : S3API) (r : Request)
    (action outcome reason : String) (bucket key : Bytes) :
    stores.eval (emitAudit a r action outcome bucket key reason) w = ((), w) := by
  refine (eval_ite stores _ _ w).trans ?_
  split_ifs <;> rfl

theorem eval_deleteBlobs : ∀ (rows : List ObjectVersion) (w : World),
    (stores.eval (deleteBlobs a rows) w).2 = { w with disk := dropBlobs a rows w.disk }
  | [], _ => rfl
  | v :: rows, w => by exact eval_deleteBlobs rows _

theorem step_deleteAllObjectVersions (w : World) (bucket key : Bytes) :
    step w .ok (.deleteAllObjectVersions bucket key) =
      ((w.metadata.versions bucket key,
          if w.metadata.versions bucket key = [] then some .notFound else none),
        { w with metadata := (w.metadata.deleteAllObjectVersions bucket key).2 }) := by
  simp only [step, deletingAll, deleteAllObjectVersions]
  by_cases hnil : w.metadata.versions bucket key = []
  · simp only [if_pos hnil]
    rw [hnil]
  · simp only [if_neg hnil]
    rfl

/-- **An entry of a multi-object deletion**, without faults. -/
theorem eval_deleteEntry (w : World) :
    (stores.eval (deleteEntry a c bucket b i e) w).2 = entryWorld a c b bucket i e w := by
  unfold entryWorld
  by_cases hkey : trimSpace e.key = []
  · simp only [deleteEntry, if_pos hkey, eval_pure]
  by_cases henabled : b.versioningStatus = str "Enabled" ∧ e.versionID = []
  · simp only [deleteEntry, if_neg hkey, if_pos henabled]
    rfl
  simp only [deleteEntry, eval_bind, eval_versionLocked, eval_ite]
  split_ifs
  · rfl
  rw [eval_ask, step_deleteAllObjectVersions]
  simp only [eval_bind, eval_deleteBlobs]
  rfl

/-- **The deletion of one object**, without faults. -/
theorem eval_handleDeleteObject (hb : w.metadata.getBucket bucket = .ok b) :
    (stores.eval (handleDeleteObject a c r bucket key) w).2 =
      singleWorld a c b bucket key (r.query.get (str "versionId")) w := by
  unfold singleWorld
  have hget : step w .ok (.getBucket bucket) = (.ok b, w) := by rw [← hb]; rfl
  simp only [handleDeleteObject, eval_ite, eval_bind, eval_ask, hget,
    eval_versionLocked, eval_emitAudit, eval_pure]
  split_ifs with hnil hlocked henabled hlocked
  · rfl
  · have hstep : step w .ok (.deleteObjectVersion bucket key (r.query.get (str "versionId"))) =
        ((w.metadata.deleteObjectVersion bucket key (r.query.get (str "versionId"))).1, { w with
          metadata := (w.metadata.deleteObjectVersion bucket key
            (r.query.get (str "versionId"))).2 }) := rfl
    rw [hstep, dropVersion]
    cases (w.metadata.deleteObjectVersion bucket key (r.query.get (str "versionId"))).1 with
    | error err => cases err <;> simp [dropBlobs, Except.toOption]
    | ok removed =>
      cases hm : removed.deleteMarker <;> simp [hm, dropBlobs, Except.toOption]
      rfl
  · rfl
  · rfl
  · rw [step_deleteAllObjectVersions]
    have herr : ¬ ((if w.metadata.versions bucket key = [] then some Error.notFound else none) ≠ none ∧
        (if w.metadata.versions bucket key = [] then some Error.notFound else none) ≠
          some .notFound) := by
      split_ifs <;> simp
    simp only [if_neg herr, eval_bind, eval_deleteBlobs, eval_emitAudit]
    rfl

/-! ## Deletions that do nothing -/

theorem versions_mark {id : Bytes} (hid : id ≠ nullVersion) (now : Time) :
    (w.mark now bucket key id).metadata.versions bucket key =
      w.metadata.versions bucket key ++ [deleteMarker bucket key id now] := by
  rw [mark, versions_putObjectVersion, if_pos ⟨rfl, rfl⟩, put,
    if_neg (by simpa [deleteMarker] using hid)]

theorem versions_mark_ne {id : Bytes} (hid : id ≠ nullVersion) (now : Time) :
    (w.mark now bucket key id).metadata.versions bucket key ≠ w.metadata.versions bucket key := by
  intro h
  rw [versions_mark hid] at h
  simpa using congrArg length h

theorem versions_wipe (a : S3API) (w : World) (bucket key k : Bytes) :
    (w.wipe a bucket key).metadata.versions bucket k =
      if k = key then [] else w.metadata.versions bucket k := by
  rw [wipe, versions_deleteAllObjectVersions]
  simp

theorem wipe_eq_self_iff : w.wipe a bucket key = w ↔ w.metadata.versions bucket key = [] := by
  constructor
  · intro h
    have hrows := versions_wipe a w bucket key key
    rwa [h, if_pos rfl] at hrows
  · intro h
    rw [wipe, deleteAllObjectVersions]
    simp only [h]
    rfl

theorem versions_dropVersion (a : S3API) (w : World) (bucket key versionID k : Bytes) :
    (w.dropVersion a bucket key versionID).metadata.versions bucket k =
      if k = key then remove ObjectVersion.versionID versionID (w.metadata.versions bucket k)
      else w.metadata.versions bucket k := by
  rw [dropVersion, versions_deleteObjectVersion]
  simp

theorem dropVersion_eq_self_iff :
    w.dropVersion a bucket key versionID = w ↔
      find ObjectVersion.versionID versionID (w.metadata.versions bucket key) = none := by
  constructor
  · intro h
    have hrows := versions_dropVersion a w bucket key versionID key
    rw [h, if_pos rfl] at hrows
    exact remove_eq_self_iff.1 hrows.symm
  · intro h
    have hfind : (w.metadata.versions bucket key).find? (fun v => v.versionID = versionID) = none := h
    simp only [dropVersion, deleteObjectVersion, hfind]
    rfl

def EntryIdle (w : World) (now : Time) (b : Bucket) (bucket : Bytes) (e : DeleteEntry) : Prop :=
  trimSpace e.key = [] ∨ ¬ (b.versioningStatus = str "Enabled" ∧ e.versionID = []) ∧
    (w.locks now bucket (trimSpace e.key) e.versionID = true ∨
      w.metadata.versions bucket (trimSpace e.key) = [])

def SingleIdle (w : World) (now : Time) (b : Bucket) (bucket key versionID : Bytes) : Prop :=
  if versionID ≠ [] then w.locks now bucket key versionID = true ∨
    find ObjectVersion.versionID versionID (w.metadata.versions bucket key) = none
  else b.versioningStatus ≠ str "Enabled" ∧
    (w.locks now bucket key [] = true ∨ w.metadata.versions bucket key = [])

theorem entryIdle_of_versions_eq
    (h : (entryWorld a c b bucket i e w).metadata.versions bucket (trimSpace e.key) =
      w.metadata.versions bucket (trimSpace e.key)) : EntryIdle w c.now b bucket e := by
  unfold entryWorld at h
  split_ifs at h with hkey henabled hlocked
  · exact .inl hkey
  · exact absurd h (versions_mark_ne (newVersionID_ne_null c i) c.now)
  · exact .inr ⟨henabled, .inl hlocked⟩
  · rw [versions_wipe, if_pos rfl] at h
    exact .inr ⟨henabled, .inr h.symm⟩

theorem entryWorld_of_idle (h : EntryIdle w c.now b bucket e) : entryWorld a c b bucket i e w = w := by
  unfold entryWorld
  split_ifs with hkey henabled hlocked
  · rfl
  · exact absurd henabled (h.resolve_left hkey).1
  · rfl
  · exact wipe_eq_self_iff.2 (((h.resolve_left hkey).2).resolve_left hlocked)

theorem singleWorld_eq_self_iff :
    singleWorld a c b bucket key versionID w = w ↔ SingleIdle w c.now b bucket key versionID := by
  unfold singleWorld SingleIdle
  split_ifs with hnil hlocked henabled hlocked
  · simp [hlocked]
  · simp [hlocked, dropVersion_eq_self_iff]
  · have hne : w.mark c.now bucket key (newVersionID c 0) ≠ w := fun h =>
      versions_mark_ne (newVersionID_ne_null c 0) c.now (by rw [h])
    simp [henabled, hne]
  · simp [henabled, hlocked]
  · simp [henabled, hlocked, wipe_eq_self_iff]

theorem versions_singleWorld_of_ne {k : Bytes} (hk : k ≠ key) :
    (singleWorld a c b bucket key versionID w).metadata.versions bucket k =
      w.metadata.versions bucket k := by
  unfold singleWorld
  split_ifs
  · rfl
  · rw [versions_dropVersion, if_neg hk]
  · rw [mark, versions_putObjectVersion, if_neg fun h => hk h.2]
  · rfl
  · rw [versions_wipe, if_neg hk]

/-! ## One entry -/

/-- The key has one version, it is the one that is named, and if it is a delete marker there is no file
at its path. -/
def OnlyVersion (a : S3API) (w : World) (bucket key versionID : Bytes) : Prop :=
  ∃ v, w.metadata.versions bucket key = [v] ∧ v.versionID = versionID ∧
    (v.deleteMarker = true → w.disk.files (a.path (blobRef v)) = none)

/-- **When an entry does what the deletion of one object does**: both do nothing, or the key is one that
trimming leaves alone and the entry names no version, or the only one. -/
def EntryAgrees (a : S3API) (w : World) (now : Time) (b : Bucket) (bucket : Bytes)
    (e : DeleteEntry) : Prop :=
  (EntryIdle w now b bucket e ∧ SingleIdle w now b bucket e.key e.versionID) ∨
    (trimSpace e.key = e.key ∧ e.key ≠ [] ∧
      (e.versionID = [] ∨ OnlyVersion a w bucket e.key e.versionID))

theorem Disk.setFile_none_eq_self_iff {d : Disk} {path : Bytes} :
    d.setFile path none = d ↔ d.files path = none := by
  constructor
  · intro h
    have hfile := d.files_setFile path path none
    rwa [h, if_pos rfl] at hfile
  · intro h
    rw [setFile, Function.update_eq_self_iff.2 h.symm]

theorem wipe_eq_dropVersion_iff (hne : w.metadata.versions bucket key ≠ []) :
    w.wipe a bucket key = w.dropVersion a bucket key versionID ↔
      OnlyVersion a w bucket key versionID := by
  have honly {v : ObjectVersion} (hv : w.metadata.versions bucket key = [v]) :
      w.wipe a bucket key = w.dropVersion a bucket key v.versionID ↔
        (v.deleteMarker = true → w.disk.files (a.path (blobRef v)) = none) := by
    simp only [wipe, dropVersion, deleteAllObjectVersions, deleteObjectVersion, hv]
    cases hm : v.deleteMarker <;> simp [hm, dropBlobs, Except.toOption, Disk.setFile_none_eq_self_iff]
  constructor
  · intro h
    have hrows := versions_wipe a w bucket key key
    rw [h, versions_dropVersion, if_pos rfl, if_pos rfl, remove_eq_nil_iff] at hrows
    obtain hnil | ⟨v, hv, rfl⟩ := hrows
    · exact absurd hnil hne
    exact ⟨v, hv, rfl, (honly hv).1 h⟩
  · rintro ⟨v, hv, rfl, hmarker⟩
    exact (honly hv).2 hmarker

/-- **An entry against a deletion of one object.** -/
theorem entryWorld_eq_singleWorld_iff {c' : Ctx} (hnow : c'.now = c.now)
    (hid : newVersionID c' 0 = newVersionID c i) :
    entryWorld a c b bucket i e w = singleWorld a c' b bucket e.key e.versionID w ↔
      EntryAgrees a w c.now b bucket e := by
  unfold EntryAgrees
  by_cases hsame : trimSpace e.key = e.key ∧ e.key ≠ []
  · obtain ⟨hkey, hnil⟩ := hsame
    by_cases hvid : e.versionID = []
    · -- the two make the same calls
      have heq : entryWorld a c b bucket i e w = singleWorld a c' b bucket e.key e.versionID w := by
        simp [entryWorld, singleWorld, hkey, hnil, hvid, hnow, hid]
      simp [heq, hkey, hnil, hvid]
    -- the entry deletes all versions of the key, the other request one
    by_cases hlocked : w.locks c.now bucket e.key e.versionID = true
    · simp [entryWorld, singleWorld, EntryIdle, SingleIdle, hkey, hvid, hnow, hlocked]
    by_cases hrows : w.metadata.versions bucket e.key = []
    · have hdrop : w.dropVersion a bucket e.key e.versionID = w :=
        dropVersion_eq_self_iff.2 (by rw [hrows]; rfl)
      simp [entryWorld, singleWorld, EntryIdle, SingleIdle, hkey, hvid,
        hrows, wipe_eq_self_iff.2 hrows, hdrop, find]
    · simp [entryWorld, singleWorld, EntryIdle, hkey, hnil, hvid, hnow, hlocked, hrows,
        wipe_eq_dropVersion_iff hrows]
  · -- the two are about different keys, or the entry is refused
    have hor : ¬ (trimSpace e.key = e.key ∧ e.key ≠ [] ∧
        (e.versionID = [] ∨ OnlyVersion a w bucket e.key e.versionID)) :=
      fun h => hsame ⟨h.1, h.2.1⟩
    rw [or_iff_left hor]
    have hentry (h : entryWorld a c b bucket i e w =
        singleWorld a c' b bucket e.key e.versionID w) : EntryIdle w c.now b bucket e := by
      by_cases hkey : trimSpace e.key = e.key
      · exact .inl (hkey.trans (not_not.1 fun hnil => hsame ⟨hkey, hnil⟩))
      · exact entryIdle_of_versions_eq
          (by rw [h, versions_singleWorld_of_ne hkey])
    constructor
    · intro h
      refine ⟨hentry h, ?_⟩
      rw [← hnow]
      exact singleWorld_eq_self_iff.1 (h.symm.trans (entryWorld_of_idle (hentry h)))
    · rintro ⟨hentry, hsingle⟩
      rw [← hnow] at hsingle
      rw [entryWorld_of_idle hentry, singleWorld_eq_self_iff.2 hsingle]

/-! ## Lists of entries -/

/-- The world after the entries from the `i`-th on. -/
def entriesWorld (a : S3API) (c : Ctx) (b : Bucket) (bucket : Bytes) :
    ℕ → List DeleteEntry → World → World
  | _, [], w => w
  | i, e :: es, w => entriesWorld a c b bucket (i + 1) es (entryWorld a c b bucket i e w)

/-- A request that deletes the object of an entry: it has the key and the version id of the entry, and
the delete marker it may add has the same id and time. -/
structure SameDeletion (c : Ctx) (bucket : Bytes) (i : ℕ) (e : DeleteEntry) (s : Step) : Prop where
  request : ∃ r, s.request = .deleteObject r bucket e.key ∧
    r.query.get (str "versionId") = e.versionID
  now : s.ctx.now = c.now
  id : newVersionID s.ctx 0 = newVersionID c i
  faults : s.faults = []

/-- The requests that delete the objects of the entries one by one. -/
def SingleDeletions (c : Ctx) (bucket : Bytes) : ℕ → List DeleteEntry → List Step → Prop
  | _, [], [] => True
  | i, e :: es, s :: singles => SameDeletion c bucket i e s ∧
    SingleDeletions c bucket (i + 1) es singles
  | _, _, _ => False

/-- A deletion of one object does what an entry for it does. -/
def Agrees (a : S3API) (w : World) (s : Step) : Prop :=
  match s.request with
  | .deleteObject r bucket key => ∀ b, w.metadata.getBucket bucket = .ok b →
    EntryAgrees a w s.ctx.now b bucket ⟨key, r.query.get (str "versionId")⟩
  | _ => True

theorem eval_deleteEntries (quiet : Bool) : ∀ (es : List DeleteEntry) (i : ℕ) (w : World),
    (stores.eval (deleteEntries a c bucket b quiet i es) w).2 = entriesWorld a c b bucket i es w
  | [], _, _ => rfl
  | e :: es, i, w => by
    have ih := eval_deleteEntries quiet es (i + 1) (entryWorld a c b bucket i e w)
    simp only [deleteEntries, eval_bind, eval_deleteEntry]
    rw [entriesWorld, ← ih]
    split <;> rfl

theorem after_of_faults (hs : s.faults = []) :
    after a w s = (stores.eval (handle a s.ctx s.request) w).2 := by
  rw [after, respond, hs, exec_nil]

theorem after_deleteObjects {doc : DeleteDocument} (hb : w.metadata.getBucket bucket = .ok b) :
    after a w ⟨.deleteObjects bucket (some doc), c, []⟩ =
      entriesWorld a c b bucket 0 doc.objects w := by
  have hget : step w .ok (.getBucket bucket) = (.ok b, w) := by rw [← hb]; rfl
  rw [after_of_faults rfl, ← eval_deleteEntries doc.quiet]
  simp only [handle, handleDeleteObjects, eval_bind, eval_ask, hget]
  rfl

variable {err : Error}

theorem SameDeletion.after_eq (h : SameDeletion c bucket i e s)
    (hb : w.metadata.getBucket bucket = .ok b) :
    after a w s = singleWorld a s.ctx b bucket e.key e.versionID w := by
  have hget : step w .ok (.getBucket bucket) = (.ok b, w) := by rw [← hb]; rfl
  obtain ⟨r, hr, hversion⟩ := h.request
  rw [after_of_faults h.faults, hr, ← hversion, ← eval_handleDeleteObject hb]
  simp only [handle, inBucket, eval_bind, eval_ask, hget]

theorem buckets_entryWorld : (entryWorld a c b bucket i e w).metadata.buckets = w.metadata.buckets := by
  unfold entryWorld
  split_ifs
  · rfl
  · exact buckets_step (f := .ok) (o := .putObjectVersion _) trivial
  · rfl
  have hwipe := buckets_step (w := w) (f := .ok)
    (o := .deleteAllObjectVersions bucket (trimSpace e.key)) trivial
  rwa [step_deleteAllObjectVersions] at hwipe

theorem SameDeletion.agrees_iff (h : SameDeletion c bucket i e s)
    (hb : w.metadata.getBucket bucket = .ok b) :
    Agrees a w s ↔ EntryAgrees a w c.now b bucket e := by
  obtain ⟨r, hr, hversion⟩ := h.request
  have he : ⟨e.key, r.query.get (str "versionId")⟩ = e := by rw [hversion]
  rw [Agrees, hr, ← h.now]
  dsimp only
  rw [he]
  constructor
  · exact fun h => h b hb
  · intro h b' hb'
    rwa [← Except.ok.inj (hb.symm.trans hb')]

/-- **Entries one by one**: as long as each does what its request does, the worlds stay the same. -/
theorem entriesWorld_eq_afterAll : ∀ {es : List DeleteEntry} {i : ℕ} {singles : List Step} {w : World},
    SingleDeletions c bucket i es singles → w.metadata.getBucket bucket = .ok b →
      Throughout a (Agrees a) w singles → entriesWorld a c b bucket i es w = afterAll a w singles
  | [], _, [], _, _, _, _ => rfl
  | [], _, _ :: _, _, h, _, _ => h.elim
  | _ :: _, _, [], _, h, _, _ => h.elim
  | e :: es, i, s :: singles, w, ⟨hs, hrest⟩, hb, hagrees => by
    have hstep : entryWorld a c b bucket i e w = after a w s := by
      rw [hs.after_eq hb]
      exact (entryWorld_eq_singleWorld_iff hs.now hs.id).2 ((hs.agrees_iff hb).1 hagrees.1)
    have hb' : (after a w s).metadata.getBucket bucket = .ok b := by
      rw [← hstep, getBucket, buckets_entryWorld]
      exact hb
    rw [entriesWorld, hstep]
    exact entriesWorld_eq_afterAll hrest hb' hagrees.2

theorem afterAll_of_error (hget : step w .ok (.getBucket bucket) = (.error err, w)) :
    ∀ {es : List DeleteEntry} {i : ℕ} {singles : List Step}, SingleDeletions c bucket i es singles →
      afterAll a w singles = w
  | [], _, [], _ => rfl
  | [], _, _ :: _, h => h.elim
  | _ :: _, _, [], h => h.elim
  | _ :: _, _, _ :: _, ⟨hs, hrest⟩ => by
    obtain ⟨r, hr, -⟩ := hs.request
    rw [afterAll, foldl_cons, after_of_faults hs.faults, hr]
    simp only [handle, inBucket, eval_bind, eval_ask, hget]
    exact afterAll_of_error hget hrest

theorem SingleDeletions.of_singleton {singles : List Step}
    (h : SingleDeletions c bucket i [e] singles) : ∃ s, singles = [s] ∧ SameDeletion c bucket i e s := by
  obtain _ | ⟨s, _ | ⟨s', singles⟩⟩ := singles
  · exact h.elim
  · exact ⟨s, rfl, h.1⟩
  · exact h.2.elim

/-- **A multi-object deletion and single deletions** lead to the same world, whatever the world and the
entries, if each entry agrees with its request in the world it is handled in; and for one entry only
if it does. -/
theorem multiDelete_eq_singles {doc : DeleteDocument} {singles : List Step}
    (h : SingleDeletions c bucket 0 doc.objects singles) :
    (Throughout a (Agrees a) w singles →
      after a w ⟨.deleteObjects bucket (some doc), c, []⟩ = afterAll a w singles) ∧
    (doc.objects.length = 1 →
      after a w ⟨.deleteObjects bucket (some doc), c, []⟩ = afterAll a w singles →
        Throughout a (Agrees a) w singles) := by
  cases hb : w.metadata.getBucket bucket with
  | error err =>
    have hget : step w .ok (.getBucket bucket) = (.error err, w) := by rw [← hb]; rfl
    rw [afterAll_of_error hget h, after_of_faults rfl]
    simp only [handle, handleDeleteObjects, eval_bind, eval_ask, hget, eval_pure]
    refine ⟨fun _ => trivial, fun hone _ => ?_⟩
    obtain ⟨e, he⟩ := length_eq_one_iff.1 hone
    obtain ⟨s, rfl, hs⟩ := (he ▸ h).of_singleton
    obtain ⟨r, hr, -⟩ := hs.request
    refine ⟨?_, trivial⟩
    rw [Agrees, hr]
    exact fun b hb' => by rw [hb] at hb'; cases hb'
  | ok b =>
    rw [after_deleteObjects hb]
    refine ⟨entriesWorld_eq_afterAll h hb, fun hone heq => ?_⟩
    obtain ⟨e, he⟩ := length_eq_one_iff.1 hone
    obtain ⟨s, rfl, hs⟩ := (he ▸ h).of_singleton
    rw [he] at heq
    refine ⟨(hs.agrees_iff hb).2 ((entryWorld_eq_singleWorld_iff hs.now hs.id).1 ?_), trivial⟩
    exact heq.trans (hs.after_eq hb)

/-! ## Two multi-object deletions -/

def twoObjects : List Step :=
  [⟨.createBucket (str "b"), sampleCtx 1, []⟩,
    ⟨.putObject objectRequest (str "b") (str "j") ⟨str "one", false⟩, sampleCtx 2, []⟩,
    ⟨.putObject objectRequest (str "b") (str "k") ⟨str "two", false⟩, sampleCtx 3, []⟩]

/-- The two objects are deleted at once as they are one by one. -/
theorem twoObjects_deleted_alike :
    after sampleAPI (afterAll sampleAPI {} twoObjects)
      ⟨.deleteObjects (str "b") (some ⟨false, [⟨str "j", []⟩, ⟨str "k", []⟩]⟩), sampleCtx 5, []⟩ =
    afterAll sampleAPI (afterAll sampleAPI {} twoObjects)
      [⟨.deleteObject objectRequest (str "b") (str "j"), sampleCtx 5, []⟩,
        ⟨.deleteObject objectRequest (str "b") (str "k"), sampleCtx 5, []⟩] := by
  have hquery : (objectRequest).query.get (str "versionId") = [] := by decide
  have hsame (i : ℕ) (key : Bytes) : SameDeletion (sampleCtx 5) (str "b") i ⟨key, []⟩
      ⟨.deleteObject objectRequest (str "b") key, sampleCtx 5, []⟩ :=
    ⟨⟨objectRequest, rfl, hquery⟩, rfl, rfl, rfl⟩
  have hagrees {key : Bytes} (hkey : trimSpace key = key ∧ key ≠ []) (w : World) :
      Agrees sampleAPI w ⟨.deleteObject objectRequest (str "b") key, sampleCtx 5, []⟩ :=
    fun _ _ => .inr ⟨hkey.1, hkey.2, .inl hquery⟩
  have hsingles : SingleDeletions (sampleCtx 5) (str "b") 0 [⟨str "j", []⟩, ⟨str "k", []⟩]
      [⟨.deleteObject objectRequest (str "b") (str "j"), sampleCtx 5, []⟩,
        ⟨.deleteObject objectRequest (str "b") (str "k"), sampleCtx 5, []⟩] :=
    ⟨hsame 0 (str "j"), hsame 1 (str "k"), trivial⟩
  exact (@multiDelete_eq_singles sampleAPI _ _ _ ⟨false, [⟨str "j", []⟩, ⟨str "k", []⟩]⟩ _ hsingles).1
    ⟨hagrees (by decide) _, hagrees (by decide) _, trivial⟩

def twoVersions : List Step :=
  [⟨.createBucket (str "b"), sampleCtx 1, []⟩,
    ⟨.putBucketVersioning (str "b") (.document (str "Enabled")), sampleCtx 2, []⟩,
    ⟨.putObject objectRequest (str "b") (str "k") ⟨str "one", false⟩, sampleCtx 3, []⟩,
    ⟨.putObject objectRequest (str "b") (str "k") ⟨str "two", false⟩, sampleCtx 4, []⟩]

/-- **An entry that names a version takes them all**, where the deletion of that version leaves the
other. -/
theorem namedEntry_deletes_all :
    ((after sampleAPI (afterAll sampleAPI {} twoVersions)
        ⟨.deleteObject (objectRequest "versionId=3-") (str "b") (str "k"), sampleCtx 5,
          []⟩).metadata.versions (str "b") (str "k")).map ObjectVersion.versionID = [str "4-"] ∧
    (after sampleAPI (afterAll sampleAPI {} twoVersions)
        ⟨.deleteObjects (str "b") (some ⟨false, [⟨str "k", str "3-"⟩]⟩), sampleCtx 5,
          []⟩).metadata.versions (str "b") (str "k") = [] := by
  refine ⟨by decide +kernel, ?_⟩
  exact eq_nil_of_length_eq_zero (by decide +kernel)

end S000
