import S000.Foundations.Versions
import S000.Metadata.Model

/-!
# Metadata/Memory — the memory-backed metadata store

The object, bucket and multipart operations of `internal/metadata/store.go`, as functions on the
state the store's mutex protects.  A mutating operation returns its error and the state it leaves
behind; what happens when the state cannot be persisted is up to the caller (`Store/Machine`).

All that the object operations do to the rows of a key is said in terms of the version list
`versions`: putting a row is `Versions.put`, deleting one `Versions.remove`, and no operation on one
key touches the rows of another.
-/

namespace S000.Metadata

open List AList Versions

/-- The id of the version that is replaced in place. -/
def nullVersion : Bytes := str "null"

/-- `memoryState`, of which the object handlers read and write four maps. -/
structure MemoryState where
  buckets : AList fun _ : Bytes => Bucket := ∅
  objects : AList fun _ : Bytes × Bytes => List ObjectVersion := ∅
  multipart : AList fun _ : Bytes => MultipartUpload := ∅
  parts : AList fun _ : Bytes => (AList fun _ : ℤ => MultipartPart) := ∅

namespace MemoryState

variable (st : MemoryState)

/-- `st.objects[objectKey{bucket, key}]`. -/
def versions (bucket key : Bytes) : List ObjectVersion := (st.objects.lookup (bucket, key)).getD []

/-- `st.objects[objectKey{bucket, key}] = l`. -/
def setVersions (bucket key : Bytes) (l : List ObjectVersion) : MemoryState :=
  { st with objects := st.objects.insert (bucket, key) l }

/-- `delete(st.objects, objectKey{bucket, key})`. -/
def eraseVersions (bucket key : Bytes) : MemoryState :=
  { st with objects := st.objects.erase (bucket, key) }

/-- `st.parts[uploadID]`. -/
def partsOf (uploadID : Bytes) : AList fun _ : ℤ => MultipartPart :=
  (st.parts.lookup uploadID).getD ∅

/-! ## Buckets -/

/-- `createBucket`. -/
def createBucket (b : Bucket) : Except Error Unit × MemoryState :=
  if b.name = [] then (.error .failed, st)
  else if b.name ∈ st.buckets then (.error .conflict, st)
  else (.ok (), { st with buckets := st.buckets.insert b.name b })

/-- `UpdateBucketVersioning`. -/
def updateBucketVersioning (bucket status : Bytes) : Except Error Unit × MemoryState :=
  match st.buckets.lookup bucket with
  | none => (.error .notFound, st)
  | some b =>
    (.ok (), { st with buckets := st.buckets.insert bucket { b with versioningStatus := status } })

/-- `DeleteBucket`. -/
def deleteBucket (bucket : Bytes) : Except Error Unit × MemoryState :=
  if bucket ∈ st.buckets then (.ok (), { st with buckets := st.buckets.erase bucket })
  else (.error .notFound, st)

/-- `GetBucket`. -/
def getBucket (name : Bytes) : Except Error Bucket :=
  match st.buckets.lookup name with
  | none => .error .notFound
  | some b => .ok b

/-- `ListObjects`. -/
def listObjects (bucket : Bytes) : List ObjectVersion :=
  st.objects.entries.filterMap fun e =>
    if e.1.1 ≠ bucket then none
    else match e.2.getLast? with
      | none => none
      | some latest => if latest.deleteMarker then none else some latest

/-- `ListObjectVersions`: by key, new rows before old ones. -/
def listObjectVersions (bucket : Bytes) : Except Error (List ObjectVersion) :=
  if bucket ∈ st.buckets then
    let rows := (st.objects.entries.filter fun e => e.1.1 = bucket).flatMap fun e => e.2
    .ok (rows.insertionSort fun v v' =>
      v.key < v'.key ∨ v.key = v'.key ∧ v'.createdAt ≤ v.createdAt)
  else .error .notFound

/-! ## Object versions -/

/-- The first half of `putObjectVersion`, and of `sqlitePutObjectVersion`, where it is a statement of
its own: the row that a `null` version replaces is taken out. -/
def dropNullVersion (v : ObjectVersion) : MemoryState :=
  if v.versionID = nullVersion then
    st.setVersions v.bucket v.key
      ((st.versions v.bucket v.key).filter fun x => x.versionID ≠ nullVersion)
  else st

/-- `putObjectVersion`. -/
def putObjectVersion (v : ObjectVersion) : MemoryState :=
  let st := st.dropNullVersion v
  st.setVersions v.bucket v.key (st.versions v.bucket v.key ++ [v])

/-- `GetLatestObjectVersion`. -/
def getLatestObjectVersion (bucket key : Bytes) : Except Error ObjectVersion :=
  match (st.versions bucket key).getLast? with
  | none => .error .notFound
  | some v => .ok v

/-- `GetObjectVersion`. -/
def getObjectVersion (bucket key versionID : Bytes) : Except Error ObjectVersion :=
  if versionID = [] then st.getLatestObjectVersion bucket key
  else match (st.versions bucket key).find? fun v => v.versionID = versionID with
    | none => .error .notFound
    | some v => .ok v

/-- `UpdateObjectMetadata`. -/
def updateObjectMetadata (bucket key versionID : Bytes) (metadata : StrMap) :
    Except Error Unit × MemoryState :=
  let versions := st.versions bucket key
  match versions.findIdx? fun v => v.versionID = versionID with
  | none => (.error .notFound, st)
  | some i => (.ok (), st.setVersions bucket key
      (versions.modify i fun v => { v with metadata := metadata }))

/-- `DeleteObjectVersion`. -/
def deleteObjectVersion (bucket key versionID : Bytes) :
    Except Error ObjectVersion × MemoryState :=
  let versions := st.versions bucket key
  match versions.find? fun v => v.versionID = versionID with
  | none => (.error .notFound, st)
  | some removed =>
    let rest := versions.eraseP fun v => v.versionID = versionID
    if rest = [] then (.ok removed, st.eraseVersions bucket key)
    else (.ok removed, st.setVersions bucket key rest)

/-- The row of a delete marker, as `DeleteObject` puts it. -/
def deleteMarker (bucket key versionID : Bytes) (time : Time) : ObjectVersion :=
  { bucket, key, versionID, deleteMarker := true, createdAt := time }

/-- `DeleteAllObjectVersions`. -/
def deleteAllObjectVersions (bucket key : Bytes) :
    Except Error (List ObjectVersion) × MemoryState :=
  let versions := st.versions bucket key
  if versions = [] then (.error .notFound, st)
  else (.ok versions, st.eraseVersions bucket key)

/-! ## Multipart uploads -/

/-- `CreateMultipartUpload`. -/
def createMultipartUpload (u : MultipartUpload) : Except Error Unit × MemoryState :=
  if u.uploadID ∈ st.multipart then (.error .conflict, st)
  else (.ok (), { st with multipart := st.multipart.insert u.uploadID u })

/-- `DeleteMultipartUpload`. -/
def deleteMultipartUpload (uploadID : Bytes) : Except Error Unit × MemoryState :=
  if uploadID ∈ st.multipart then
    (.ok (), { st with
      multipart := st.multipart.erase uploadID, parts := st.parts.erase uploadID })
  else (.error .notFound, st)

/-- `UpsertMultipartPart`. -/
def upsertMultipartPart (p : MultipartPart) : Except Error Unit × MemoryState :=
  if p.uploadID ∈ st.multipart then
    let parts := (st.partsOf p.uploadID).insert p.partNumber p
    (.ok (), { st with parts := st.parts.insert p.uploadID parts })
  else (.error .notFound, st)

/-- `GetMultipartUpload`: the upload and its parts by number. -/
def getMultipartUpload (uploadID : Bytes) : Except Error (MultipartUpload × List MultipartPart) :=
  match st.multipart.lookup uploadID with
  | none => .error .notFound
  | some u =>
    let numbers := (st.partsOf uploadID).keys.insertionSort (· ≤ ·)
    .ok (u, numbers.filterMap fun n => (st.partsOf uploadID).lookup n)

/-- `ListMultipartUploads`: by key, then by id. -/
def listMultipartUploads (bucket pre : Bytes) : Except Error (List MultipartUpload) :=
  if bucket ∈ st.buckets then
    let uploads := (st.multipart.entries.map Sigma.snd).filter fun u =>
      u.bucket = bucket ∧ (pre ≠ [] → pre <+: u.key)
    .ok (uploads.insertionSort fun u u' =>
      u.key < u'.key ∨ u.key = u'.key ∧ u.uploadID ≤ u'.uploadID)
  else .error .notFound

/-! ## What the operations do to the rows -/

theorem objects_createBucket (b : Bucket) : (st.createBucket b).2.objects = st.objects := by
  unfold createBucket
  split_ifs <;> rfl

theorem objects_updateBucketVersioning (bucket status : Bytes) :
    (st.updateBucketVersioning bucket status).2.objects = st.objects := by
  unfold updateBucketVersioning
  split <;> rfl

theorem objects_deleteBucket (bucket : Bytes) : (st.deleteBucket bucket).2.objects = st.objects := by
  unfold deleteBucket
  split_ifs <;> rfl

theorem getBucket_of_deleteBucket {bucket name : Bytes} {b : Bucket}
    (h : (st.deleteBucket bucket).2.getBucket name = .ok b) : st.getBucket name = .ok b := by
  unfold deleteBucket at h
  split_ifs at h with hmem
  · by_cases hname : name = bucket
    · subst hname
      rw [getBucket, lookup_erase] at h
      cases h
    · rwa [getBucket, lookup_erase_ne hname] at h
  · exact h

theorem multipart_createBucket (b : Bucket) : (st.createBucket b).2.multipart = st.multipart := by
  unfold createBucket
  split_ifs <;> rfl

theorem multipart_deleteBucket (bucket : Bytes) :
    (st.deleteBucket bucket).2.multipart = st.multipart := by
  unfold deleteBucket
  split_ifs <;> rfl

variable {st} {v : ObjectVersion} {bucket key b k versionID : Bytes} {l : List ObjectVersion}
  {metadata : StrMap}

theorem mem_of_getBucket {b : Bucket} (h : st.getBucket bucket = .ok b) : bucket ∈ st.buckets := by
  unfold getBucket at h
  cases hlookup : st.buckets.lookup bucket with
  | none =>
    rw [hlookup] at h
    cases h
  | some b' => exact lookup_isSome.1 (hlookup ▸ rfl)

theorem mem_of_getObjectVersion (h : st.getObjectVersion bucket key versionID = .ok v) :
    v ∈ st.versions bucket key ∧ (versionID ≠ [] → v.versionID = versionID) := by
  unfold getObjectVersion getLatestObjectVersion at h
  split_ifs at h with hid
  · split at h
    · cases h
    next v hv =>
      cases h
      exact ⟨mem_of_getLast? hv, fun hne => absurd hid hne⟩
  · split at h
    · cases h
    next v hv =>
      cases h
      exact ⟨mem_of_find?_eq_some hv, fun _ => by simpa using find?_some hv⟩

theorem mem_buckets_createBucket {b : Bucket} {u : Unit} (h : (st.createBucket b).1 = .ok u) :
    b.name ∈ (st.createBucket b).2.buckets := by
  unfold createBucket at h ⊢
  split_ifs at h ⊢
  exact (mem_insert _).2 (.inl rfl)

theorem buckets_dropNullVersion : (st.dropNullVersion v).buckets = st.buckets := by
  unfold dropNullVersion
  split_ifs <;> rfl

theorem versions_setVersions :
    (st.setVersions bucket key l).versions b k =
      if b = bucket ∧ k = key then l else st.versions b k := by
  unfold versions setVersions
  split_ifs with h
  · rw [h.1, h.2, lookup_insert, Option.getD_some]
  · rw [lookup_insert_ne (by simpa using h)]

theorem versions_eraseVersions :
    (st.eraseVersions bucket key).versions b k =
      if b = bucket ∧ k = key then [] else st.versions b k := by
  unfold versions eraseVersions
  split_ifs with h
  · rw [h.1, h.2, lookup_erase, Option.getD_none]
  · rw [lookup_erase_ne (by simpa using h)]

theorem mem_entries_of_mem_versions (h : v ∈ st.versions b k) :
    ∃ e ∈ st.objects.entries, e.1 = (b, k) ∧ v ∈ e.2 := by
  unfold versions at h
  cases hl : st.objects.lookup (b, k) with
  | none =>
    rw [hl] at h
    cases h
  | some l =>
    rw [hl] at h
    exact ⟨⟨(b, k), l⟩, mem_lookup_iff.1 hl, rfl, h⟩

theorem versions_of_mem_entries {e : (_ : Bytes × Bytes) × List ObjectVersion}
    (h : e ∈ st.objects.entries) : st.versions e.1.1 e.1.2 = e.2 := by
  rw [versions, mem_lookup_iff.2 h, Option.getD_some]

/-- `ListObjects` lists the latest version of every key, where it is no delete marker. -/
theorem getLatestObjectVersion_eq_ok :
    st.getLatestObjectVersion bucket key = .ok v ↔ (st.versions bucket key).getLast? = some v := by
  rw [getLatestObjectVersion]
  cases (st.versions bucket key).getLast? <;> simp

theorem mem_listObjects :
    v ∈ st.listObjects bucket ↔
      ∃ key, v.deleteMarker = false ∧ (st.versions bucket key).getLast? = some v := by
  rw [listObjects, mem_filterMap]
  constructor
  · rintro ⟨e, he, hv⟩
    split_ifs at hv with hb
    refine ⟨e.1.2, ?_⟩
    have hrows := versions_of_mem_entries he
    rw [not_not.1 hb] at hrows
    rw [hrows]
    split at hv
    · cases hv
    next latest hlast =>
    split_ifs at hv with hmarker
    cases hv
    exact ⟨Bool.not_eq_true _ ▸ hmarker, hlast⟩
  · rintro ⟨key, hmarker, hlast⟩
    obtain ⟨e, he, hkey, -⟩ := mem_entries_of_mem_versions (mem_of_getLast? hlast)
    have hrows := versions_of_mem_entries he
    rw [hkey] at hrows
    refine ⟨e, he, ?_⟩
    rw [if_neg (by simp [hkey]), ← hrows, hlast]
    simp [hmarker]

/-- **What `ListObjects` hides**: it lists nothing where the latest version of every key is a delete
marker. -/
theorem listObjects_eq_nil_iff :
    st.listObjects bucket = [] ↔
      ∀ key v, (st.versions bucket key).getLast? = some v → v.deleteMarker = true := by
  rw [eq_nil_iff_forall_not_mem]
  constructor
  · intro h key v hv
    by_contra hmarker
    exact h v (mem_listObjects.2 ⟨key, Bool.not_eq_true _ ▸ hmarker, hv⟩)
  · intro h v hv
    obtain ⟨key, hmarker, hlast⟩ := mem_listObjects.1 hv
    rw [h key v hlast] at hmarker
    cases hmarker

theorem listObjectVersions_eq_nil_iff (hb : bucket ∈ st.buckets) :
    st.listObjectVersions bucket = .ok [] ↔ ∀ key, st.versions bucket key = [] := by
  rw [listObjectVersions, if_pos hb, Except.ok.injEq, ← length_eq_zero_iff,
    length_insertionSort, length_eq_zero_iff, flatMap_eq_nil_iff]
  constructor
  · intro h key
    by_contra hne
    obtain ⟨v, hv⟩ := exists_mem_of_ne_nil _ hne
    obtain ⟨e, he, hkey, hv⟩ := mem_entries_of_mem_versions hv
    rw [h e (mem_filter.2 ⟨he, by simp [hkey]⟩)] at hv
    cases hv
  · intro h e he
    obtain ⟨he, hb⟩ := mem_filter.1 he
    rw [← versions_of_mem_entries he, of_decide_eq_true hb]
    exact h _

theorem filter_values_eq_nil_iff {α : Type} {m : AList fun _ : Bytes => α} {p : α → Bool} :
    (m.entries.map Sigma.snd).filter p = [] ↔ ∀ k, ∀ x ∈ m.lookup k, p x = false := by
  simp only [filter_eq_nil_iff, mem_map, Bool.not_eq_true]
  constructor
  · exact fun h k x hx => h x ⟨⟨k, x⟩, mem_lookup_iff.1 hx, rfl⟩
  · rintro h _ ⟨e, he, rfl⟩
    exact h e.1 e.2 (mem_lookup_iff.2 he)

theorem listMultipartUploads_eq_nil_iff {pre : Bytes} (hb : bucket ∈ st.buckets) :
    st.listMultipartUploads bucket pre = .ok [] ↔ ∀ uploadID, ∀ u ∈ st.multipart.lookup uploadID,
      u.bucket = bucket → pre ≠ [] ∧ ¬ pre <+: u.key := by
  rw [listMultipartUploads, if_pos hb, Except.ok.injEq, ← length_eq_zero_iff,
    length_insertionSort, length_eq_zero_iff, filter_values_eq_nil_iff]
  simp

/-- Half of a put: the `null` rows are gone where a `null` row is put. -/
theorem versions_dropNullVersion :
    (st.dropNullVersion v).versions b k =
      if (b = v.bucket ∧ k = v.key) ∧ v.versionID = nullVersion then
        (st.versions b k).filter fun x => x.versionID ≠ nullVersion
      else st.versions b k := by
  unfold dropNullVersion
  by_cases hnull : v.versionID = nullVersion
  · rw [if_pos hnull, versions_setVersions]
    split_ifs with h h' h'
    · rw [h.1, h.2]
    · exact absurd ⟨h, hnull⟩ h'
    · exact absurd h'.1 h
    · rfl
  · rw [if_neg hnull, if_neg fun h => hnull h.2]

/-- **A put**, on the rows of the key. -/
theorem versions_putObjectVersion :
    (st.putObjectVersion v).versions b k =
      if b = v.bucket ∧ k = v.key then put ObjectVersion.versionID nullVersion v (st.versions b k)
      else st.versions b k := by
  unfold putObjectVersion
  rw [versions_setVersions]
  split_ifs with h
  · rw [versions_dropNullVersion, h.1, h.2, put]
    simp
  · rw [versions_dropNullVersion, if_neg fun h' => h h'.1]

/-- **A deletion of one version**, on the rows of the key. -/
theorem versions_deleteObjectVersion :
    (st.deleteObjectVersion bucket key versionID).2.versions b k =
      if b = bucket ∧ k = key then remove ObjectVersion.versionID versionID (st.versions b k)
      else st.versions b k := by
  unfold deleteObjectVersion
  dsimp only
  cases hf : (st.versions bucket key).find? fun v => v.versionID = versionID with
  | none =>
    dsimp only
    split_ifs with h
    · rw [h.1, h.2, remove, eraseP_of_forall_not]
      simpa using hf
    · rfl
  | some removed =>
    split_ifs with hrest h h
    · rw [versions_eraseVersions, if_pos h, h.1, h.2]
      exact hrest.symm
    · rw [versions_eraseVersions, if_neg h]
    · rw [versions_setVersions, if_pos h, h.1, h.2]
      rfl
    · rw [versions_setVersions, if_neg h]

theorem fst_deleteObjectVersion :
    (st.deleteObjectVersion bucket key versionID).1 =
      match find ObjectVersion.versionID versionID (st.versions bucket key) with
      | none => .error .notFound
      | some removed => .ok removed := by
  unfold deleteObjectVersion find
  dsimp only
  cases (st.versions bucket key).find? fun v => v.versionID = versionID with
  | none => rfl
  | some removed => split_ifs <;> rfl

/-- **A deletion of all versions**, on the rows of the key. -/
theorem versions_deleteAllObjectVersions :
    (st.deleteAllObjectVersions bucket key).2.versions b k =
      if b = bucket ∧ k = key then [] else st.versions b k := by
  unfold deleteAllObjectVersions
  dsimp only
  split_ifs with hnil h h
  · rw [h.1, h.2, hnil]
  · rfl
  all_goals rw [versions_eraseVersions]
  · rw [if_pos h]
  · rw [if_neg h]

/-- An update of metadata leaves everything else of every row as it is, -/
theorem versions_updateObjectMetadata :
    ((st.updateObjectMetadata bucket key versionID metadata).2.versions bucket key).map
        (fun v => { v with metadata := ∅ }) =
      (st.versions bucket key).map fun v => { v with metadata := ∅ } := by
  unfold updateObjectMetadata
  dsimp only
  split
  · rfl
  rw [versions_setVersions, if_pos ⟨rfl, rfl⟩]
  refine ext_getElem? fun i => ?_
  simp only [getElem?_map, getElem?_modify]
  split_ifs
  · simp [Function.comp_def]
  · simp

/-- …and the rows of other keys altogether. -/
theorem versions_updateObjectMetadata_of_ne (h : ¬ (b = bucket ∧ k = key)) :
    (st.updateObjectMetadata bucket key versionID metadata).2.versions b k = st.versions b k := by
  unfold updateObjectMetadata
  dsimp only
  split
  · rfl
  · rw [versions_setVersions, if_neg h]

/-- Every id is found as before, and that of the update with the new metadata. -/
theorem find_updateObjectMetadata (u : Bytes) :
    find ObjectVersion.versionID u
        ((st.updateObjectMetadata bucket key versionID metadata).2.versions bucket key) =
      (find ObjectVersion.versionID u (st.versions bucket key)).map fun v =>
        if u = versionID then { v with metadata := metadata } else v := by
  unfold updateObjectMetadata
  dsimp only
  split
  next hnone =>
    cases hfind : find ObjectVersion.versionID u (st.versions bucket key) with
    | none => rfl
    | some v =>
      obtain ⟨hmem, rfl⟩ := find_some hfind
      have hne := of_decide_eq_false (findIdx?_eq_none_iff.1 hnone v hmem)
      simp [hne]
  next i hi =>
    rw [versions_setVersions]
    have hid (v : ObjectVersion) : { v with metadata := metadata }.versionID = v.versionID := rfl
    simpa using find_modify hid hi

/-- Where no id is used twice, all rows with the id get the metadata. -/
theorem versions_updateObjectMetadata_of_nodup
    (hids : ((st.versions bucket key).map ObjectVersion.versionID).Nodup) :
    (st.updateObjectMetadata bucket key versionID metadata).2.versions b k =
      if b = bucket ∧ k = key then
        (st.versions b k).map fun x => if x.versionID = versionID then { x with metadata } else x
      else st.versions b k := by
  split_ifs with h
  · obtain ⟨rfl, rfl⟩ := h
    unfold updateObjectMetadata
    dsimp only
    split
    next hnone =>
      have hne := findIdx?_eq_none_iff.1 hnone
      conv_lhs => rw [← map_id (st.versions b k)]
      refine map_congr_left fun x hx => (if_neg ?_).symm
      simpa using hne x hx
    next i hi =>
      rw [versions_setVersions, if_pos ⟨rfl, rfl⟩]
      exact modify_findIdx hids hi
  · exact versions_updateObjectMetadata_of_ne h

end MemoryState

end S000.Metadata
