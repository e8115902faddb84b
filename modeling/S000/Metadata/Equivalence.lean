import S000.Foundations.Json
import S000.Metadata.Database

/-!
# Metadata/Equivalence — the two stores against each other

The memory-backed store keeps a list of versions for each key, the SQL store one table of numbered
rows.  The rows of a key, by ordinal, are the list (`Mirrors`): a put appends on both sides, the row
of the version `null` is taken out first on both sides, and where no id is used twice an update or a
deletion by id concerns one row on both sides.

So the object calls return the same, but for one: `DeleteObjectVersion` with the empty version id.
The SQL store reads the version it returns with `GetObjectVersion`, for which the empty id is the
latest version, and then deletes the row whose id is empty (`sameResults_iff`).

The listing of uploads fails on the SQL store as soon as there is an upload to list: its query selects
four columns, and `scanMultipartUpload` scans five (`listMultipartUploads_agrees_iff`).
-/

namespace S000.Metadata

open List Function Versions Sqlite Row

/-! ## The calls -/

inductive ObjectCall
  | putObjectVersion (v : ObjectVersion)
  | deleteObject (bucket key versionID : Bytes) (time : Time)
  | updateObjectMetadata (bucket key versionID : Bytes) (metadata : StrMap)
  | deleteObjectVersion (bucket key versionID : Bytes)
  | deleteAllObjectVersions (bucket key : Bytes)
  | getObjectVersion (bucket key versionID : Bytes)
  | getLatestObjectVersion (bucket key : Bytes)
  | listObjects (bucket : Bytes)

namespace ObjectCall

/-- What a call returns beside an error; a listing is a set. -/
@[reducible] def Val : ObjectCall → Type
  | putObjectVersion _ | deleteObject .. | updateObjectMetadata .. => Unit
  | deleteObjectVersion .. | getObjectVersion .. | getLatestObjectVersion .. => ObjectVersion
  | deleteAllObjectVersions .. => List ObjectVersion
  | listObjects _ => Finset ObjectVersion

def bucket : ObjectCall → Bytes
  | putObjectVersion v => v.bucket
  | deleteObject bucket .. | updateObjectMetadata bucket .. | deleteObjectVersion bucket ..
  | deleteAllObjectVersions bucket _ | getObjectVersion bucket .. | getLatestObjectVersion bucket _
  | listObjects bucket => bucket

def row? : ObjectCall → Option ObjectVersion
  | putObjectVersion v => some v
  | deleteObject bucket key versionID time =>
    some (MemoryState.deleteMarker bucket key versionID time)
  | _ => none

/-- The id a call uses up, with its key; the id `null` can be used again. -/
def newID (c : ObjectCall) : Option (Bytes × Bytes × Bytes) :=
  c.row?.bind fun v =>
    if v.versionID = nullVersion then none else some (v.bucket, v.key, v.versionID)

end ObjectCall

def MemoryState.objectCall (st : MemoryState) : (c : ObjectCall) → Except Error c.Val × MemoryState
  | .putObjectVersion v => (.ok (), st.putObjectVersion v)
  | .deleteObject bucket key versionID time =>
    (.ok (), st.putObjectVersion (deleteMarker bucket key versionID time))
  | .updateObjectMetadata bucket key versionID metadata =>
    st.updateObjectMetadata bucket key versionID metadata
  | .deleteObjectVersion bucket key versionID => st.deleteObjectVersion bucket key versionID
  | .deleteAllObjectVersions bucket key => st.deleteAllObjectVersions bucket key
  | .getObjectVersion bucket key versionID => (st.getObjectVersion bucket key versionID, st)
  | .getLatestObjectVersion bucket key => (st.getLatestObjectVersion bucket key, st)
  | .listObjects bucket => (.ok (st.listObjects bucket).toFinset, st)

def Database.objectCall (db : Database) (dialect : Dialect) :
    (c : ObjectCall) → Except Error c.Val × Database
  | .putObjectVersion v => db.run dialect (putObjectVersion v) []
  | .deleteObject bucket key versionID time =>
    db.run dialect (deleteObject bucket key versionID time) []
  | .updateObjectMetadata bucket key versionID metadata =>
    db.run dialect (updateObjectMetadata bucket key versionID metadata) []
  | .deleteObjectVersion bucket key versionID =>
    db.run dialect (deleteObjectVersion bucket key versionID) []
  | .deleteAllObjectVersions bucket key =>
    db.run dialect (deleteAllObjectVersions bucket key) []
  | .getObjectVersion bucket key versionID =>
    db.run dialect (getObjectVersion bucket key versionID) []
  | .getLatestObjectVersion bucket key =>
    db.run dialect (getLatestObjectVersion bucket key) []
  | .listObjects bucket =>
    let r := db.run dialect (listObjects bucket) []
    (r.1.map toFinset, r.2)

/-- The results of calls, one after the other, on the memory-backed store, -/
def MemoryState.results : MemoryState → List ObjectCall → List ((c : ObjectCall) × Except Error c.Val)
  | _, [] => []
  | st, c :: calls => ⟨c, (st.objectCall c).1⟩ :: (st.objectCall c).2.results calls

/-- …and on the SQL store. -/
def Database.results (dialect : Dialect) :
    Database → List ObjectCall → List ((c : ObjectCall) × Except Error c.Val)
  | _, [] => []
  | db, c :: calls => ⟨c, (db.objectCall dialect c).1⟩ ::
    results dialect (db.objectCall dialect c).2 calls

/-! ## The rows of a key -/

namespace Database

def versions (db : Database) (bucket key : Bytes) : List ObjectVersion :=
  (db.rowsOf bucket key).map version

variable {db : Database} {dialect : Dialect} {bucket key b k versionID : Bytes} {v : ObjectVersion}
  {metadata : StrMap} {r : Row}

theorem isOf_iff : r.isOf bucket key = true ↔ r.version.bucket = bucket ∧ r.version.key = key := by
  simp [isOf]

theorem mem_versions : v ∈ db.versions bucket key ↔
    ∃ r ∈ db.objectVersions, r.version = v ∧ v.bucket = bucket ∧ v.key = key := by
  unfold versions rowsOf
  simp only [mem_map, mem_filter, isOf_iff]
  constructor
  · rintro ⟨r, ⟨hr, hb, hk⟩, rfl⟩
    exact ⟨r, hr, rfl, hb, hk⟩
  · rintro ⟨r, hr, rfl, hb, hk⟩
    exact ⟨r, ⟨hr, hb, hk⟩, rfl⟩

theorem versions_insertRow :
    (db.insertRow v).versions b k =
      if b = v.bucket ∧ k = v.key then db.versions b k ++ [v] else db.versions b k := by
  have hrows : (db.insertRow v).rowsOf b k =
      db.rowsOf b k ++ [⟨db.nextOrdinal, v⟩].filter (isOf b k) := filter_append ..
  unfold versions
  rw [hrows, map_append]
  split_ifs with h
  · rw [filter_cons_of_pos (isOf_iff.2 ⟨h.1.symm, h.2.symm⟩)]
    rfl
  · rw [filter_cons_of_neg fun hof => h ⟨(isOf_iff.1 hof).1.symm, (isOf_iff.1 hof).2.symm⟩]
    exact append_nil _

theorem hasID_of_mem (hr : r ∈ db.rowsOf bucket key) :
    r.hasID bucket key versionID = decide (r.version.versionID = versionID) := by
  rw [hasID, (mem_filter.1 hr).2, Bool.true_and]

theorem hasID_of_ne (hr : r ∈ db.rowsOf b k) (h : ¬ (b = bucket ∧ k = key)) :
    r.hasID bucket key versionID = false := by
  have hof := isOf_iff.1 (mem_filter.1 hr).2
  by_contra htrue
  rw [Bool.not_eq_false, hasID, Bool.and_eq_true, isOf_iff] at htrue
  exact h ⟨hof.1.symm.trans htrue.1.1, hof.2.symm.trans htrue.1.2⟩

theorem versions_deleteRows_hasID :
    (db.deleteRows (hasID bucket key versionID)).versions b k =
      if b = bucket ∧ k = key then (db.versions b k).filter fun x => x.versionID ≠ versionID
      else db.versions b k := by
  have hrows : (db.deleteRows (hasID bucket key versionID)).rowsOf b k =
      (db.rowsOf b k).filter fun r => !r.hasID bucket key versionID := filter_comm ..
  unfold versions
  rw [hrows]
  split_ifs with h
  · obtain ⟨rfl, rfl⟩ := h
    rw [filter_map]
    congr 1
    exact filter_congr fun r hr => by simp [hasID_of_mem hr]
  · congr 1
    exact filter_eq_self.2 fun r hr => by simp [hasID_of_ne hr h]

theorem versions_deleteRows_isOf :
    (db.deleteRows (isOf bucket key)).versions b k =
      if b = bucket ∧ k = key then [] else db.versions b k := by
  have hrows : (db.deleteRows (isOf bucket key)).rowsOf b k =
      (db.rowsOf b k).filter fun r => !r.isOf bucket key := filter_comm ..
  unfold versions
  rw [hrows]
  split_ifs with h
  · obtain ⟨rfl, rfl⟩ := h
    rw [filter_eq_nil_iff.2 fun r hr => by simp [(mem_filter.1 hr).2], map_nil]
  congr 1
  refine filter_eq_self.2 fun r hr => ?_
  have hof := isOf_iff.1 (mem_filter.1 hr).2
  rw [Bool.not_eq_true', ← Bool.not_eq_true, isOf_iff]
  exact fun h' => h ⟨hof.1.symm.trans h'.1, hof.2.symm.trans h'.2⟩

theorem versions_setMetadata :
    (db.setMetadata (hasID bucket key versionID) metadata).versions b k =
      if b = bucket ∧ k = key then
        (db.versions b k).map fun x => if x.versionID = versionID then { x with metadata } else x
      else db.versions b k := by
  have hrows : (db.setMetadata (hasID bucket key versionID) metadata).rowsOf b k =
      (db.rowsOf b k).map fun r => if r.hasID bucket key versionID then
        { r with version := { r.version with metadata } } else r := by
    refine filter_map.trans ?_
    congr 1
    refine filter_congr fun r _ => ?_
    dsimp only [comp]
    split_ifs <;> rfl
  unfold versions
  rw [hrows, map_map]
  split_ifs with h
  · obtain ⟨rfl, rfl⟩ := h
    rw [map_map]
    refine map_congr_left fun r hr => ?_
    dsimp only [comp]
    rw [hasID_of_mem hr]
    by_cases hid : r.version.versionID = versionID
    · simp [hid]
    · simp [hid]
  · refine map_congr_left fun r hr => ?_
    dsimp only [comp]
    rw [if_neg (by simp [hasID_of_ne hr h])]

theorem countP_hasID :
    db.objectVersions.countP (hasID bucket key versionID) = 0 ↔
      find ObjectVersion.versionID versionID (db.versions bucket key) = none := by
  rw [countP_eq_zero, find_eq_none]
  simp only [mem_versions, hasID, Bool.and_eq_true, isOf_iff, decide_eq_true_eq]
  constructor
  · rintro h _ ⟨r, hr, rfl, hb, hk⟩ hid
    exact h r hr ⟨⟨hb, hk⟩, hid⟩
  · rintro h r hr ⟨⟨hb, hk⟩, hid⟩
    exact h _ ⟨r, hr, rfl, hb, hk⟩ hid

theorem find_hasID :
    (db.objectVersions.find? (hasID bucket key versionID)).map version =
      find ObjectVersion.versionID versionID (db.versions bucket key) := by
  unfold find versions rowsOf
  rw [find?_map, find?_filter]
  congr 2
  funext r
  simp [hasID]

theorem any_hasID :
    db.objectVersions.any (hasID bucket key versionID) = true ↔
      versionID ∈ (db.versions bucket key).map ObjectVersion.versionID := by
  simp only [any_eq_true, mem_map, mem_versions, hasID, Bool.and_eq_true, isOf_iff,
    decide_eq_true_eq]
  constructor
  · rintro ⟨r, hr, ⟨hb, hk⟩, hid⟩
    exact ⟨r.version, ⟨r, hr, rfl, hb, hk⟩, hid⟩
  · rintro ⟨v, ⟨r, hr, rfl, hb, hk⟩, hid⟩
    exact ⟨r, hr, ⟨hb, hk⟩, hid⟩

/-! ## The methods of the SQL store, on the rows of a key -/

theorem run_getLatestObjectVersion :
    db.run dialect (getLatestObjectVersion bucket key) [] =
      (scanRow (db.versions bucket key).getLast?, db) := by
  rw [getLatestObjectVersion, run_sql, execute, versions, getLast?_map]

theorem run_getObjectVersion :
    db.run dialect (getObjectVersion bucket key versionID) [] =
      (scanRow (if versionID = [] then (db.versions bucket key).getLast?
        else find ObjectVersion.versionID versionID (db.versions bucket key)), db) := by
  unfold getObjectVersion
  split_ifs
  · exact run_getLatestObjectVersion
  · rw [run_sql, execute, find_hasID]

theorem run_putObjectVersion
    (h : v.versionID = nullVersion ∨
      v.versionID ∉ (db.versions v.bucket v.key).map ObjectVersion.versionID) :
    db.run dialect (putObjectVersion v) [] =
      (.ok (), (if v.versionID = nullVersion then db.deleteRows (hasID v.bucket v.key v.versionID)
        else db).insertRow v) := by
  have hinsert {db' : Database} (hb : db'.breaksIdentity dialect v = false) :
      db'.run dialect (do let _ ← sql (.insertVersion v)) [] = (.ok (), db'.insertRow v) := by
    have hexec : db'.run dialect (sql (.insertVersion v)) [] = (.ok 1, db'.insertRow v) := by
      rw [run_sql, execute, hb, if_neg (by decide)]
    rw [run_bind_ok hexec, run_pure]
  unfold putObjectVersion
  split_ifs with hnull
  · refine (run_bind_ok (run_sql _)).trans (hinsert ?_)
    simp [breaksIdentity, hnull]
  · refine hinsert ?_
    have hany := mt any_hasID.1 (h.resolve_left hnull)
    simp only [breaksIdentity, Bool.not_eq_true _ ▸ hany, Bool.and_false]

theorem versions_putObjectVersion :
    ((if v.versionID = nullVersion then db.deleteRows (hasID v.bucket v.key v.versionID)
        else db).insertRow v).versions b k =
      if b = v.bucket ∧ k = v.key then put ObjectVersion.versionID nullVersion v (db.versions b k)
      else db.versions b k := by
  rw [versions_insertRow]
  split_ifs with hkey hnull hnull
  · rw [versions_deleteRows_hasID, if_pos hkey, put, if_pos hnull, hnull]
  · rw [put, if_neg hnull]
  · rw [versions_deleteRows_hasID, if_neg hkey]
  · rfl

theorem run_updateObjectMetadata (hdialect : dialect ≠ .mariaDB) :
    db.run dialect (updateObjectMetadata bucket key versionID metadata) [] =
      (if find ObjectVersion.versionID versionID (db.versions bucket key) = none then .error .notFound
        else .ok (), db.setMetadata (hasID bucket key versionID) metadata) := by
  refine (run_bind_ok (run_sql _)).trans ?_
  rw [run_requireAffected, Dialect.updated]
  simp only [hdialect, ne_eq, not_false_eq_true, decide_true, Bool.true_or, Bool.and_true]
  congr 1
  exact if_congr countP_hasID rfl rfl

/-- The version that is returned is the one read, the rows that go are those with the id. -/
theorem run_deleteObjectVersion :
    db.run dialect (deleteObjectVersion bucket key versionID) [] =
      match if versionID = [] then (db.versions bucket key).getLast?
        else find ObjectVersion.versionID versionID (db.versions bucket key) with
      | none => (.error .notFound, db)
      | some v =>
        (if find ObjectVersion.versionID versionID (db.versions bucket key) = none then .error .notFound
          else .ok v, db.deleteRows (hasID bucket key versionID)) := by
  have hget := @run_getObjectVersion db dialect bucket key versionID
  generalize (if versionID = [] then (db.versions bucket key).getLast?
    else find ObjectVersion.versionID versionID (db.versions bucket key)) = read at hget ⊢
  cases read with
  | none => exact run_bind_error hget
  | some v =>
    refine (run_bind_ok hget).trans ((run_bind_ok (run_sql _)).trans ?_)
    dsimp only
    by_cases hnone : find ObjectVersion.versionID versionID (db.versions bucket key) = none
    · rw [if_pos hnone]
      refine run_bind_error ((run_requireAffected _).trans ?_)
      rw [if_pos (countP_hasID.2 hnone)]
    · rw [if_neg hnone]
      have haffected := @run_requireAffected (db.deleteRows (hasID bucket key versionID)) dialect
        (db.objectVersions.countP (hasID bucket key versionID))
      rw [if_neg fun h => hnone (countP_hasID.1 h)] at haffected
      exact (run_bind_ok haffected).trans (run_pure v)

theorem run_deleteAllObjectVersions :
    db.run dialect (deleteAllObjectVersions bucket key) [] =
      if db.versions bucket key = [] then (.error .notFound, db)
      else (.ok (db.versions bucket key), db.deleteRows (isOf bucket key)) := by
  refine (run_bind_ok (run_sql _)).trans ?_
  change db.run dialect (if db.versions bucket key = [] then _ else _) [] = _
  split_ifs
  · rfl
  · rfl

theorem run_listObjects {b : Bucket} (hb : db.getBucket bucket = .ok b) :
    db.run dialect (listObjects bucket) [] = (.ok (db.latest bucket fun _ => true), db) := by
  have hselect : db.run dialect (sql (.selectBucket bucket)) [] = (.ok b, db) := by
    rw [run_sql, execute, hb]
  exact (run_bind_ok hselect).trans (run_sql _)

theorem ordinal_le_of_getLast {r' : Row} (hlast : (db.rowsOf bucket key).getLast? = some r)
    (hr' : r' ∈ db.rowsOf bucket key) : r'.ordinal ≤ r.ordinal := by
  have hsorted : (db.rowsOf bucket key).Pairwise fun r r' => r.ordinal < r'.ordinal :=
    (pairwise_map.1 db.ordinals_sorted).sublist filter_sublist
  obtain ⟨rows, hrows⟩ := getLast?_eq_some_iff.1 hlast
  rw [hrows] at hsorted hr'
  rcases mem_append.1 hr' with hr' | hr'
  · exact ((pairwise_append.1 hsorted).2.2 r' hr' r (mem_singleton_self r)).le
  · rw [mem_singleton.1 hr']

/-- **The latest version of a key is that of its last row.** -/
theorem visible_iff {obj : ObjectVersion} :
    db.Visible bucket obj ↔
      obj.deleteMarker = false ∧ (db.versions bucket obj.key).getLast? = some obj := by
  constructor
  · rintro ⟨r, hr, rfl, hb, hmarker, hmax⟩
    refine ⟨hmarker, ?_⟩
    have hmem : r ∈ db.rowsOf bucket r.version.key := mem_filter.2 ⟨hr, isOf_iff.2 ⟨hb, rfl⟩⟩
    obtain ⟨last, hlast⟩ : ∃ last, (db.rowsOf bucket r.version.key).getLast? = some last :=
      ⟨_, getLast?_eq_some_getLast (ne_nil_of_mem hmem)⟩
    obtain ⟨hin, hof⟩ := mem_filter.1 (mem_of_getLast? hlast)
    have hle := hmax last hin (isOf_iff.1 hof).1 (isOf_iff.1 hof).2
    have heq := SqliteStore.eq_of_ordinal_eq hr hin (le_antisymm (ordinal_le_of_getLast hlast hmem) hle)
    rw [versions, getLast?_map, hlast, Option.map_some, heq]
  · rintro ⟨hmarker, hlast⟩
    rw [versions, getLast?_map, Option.map_eq_some_iff] at hlast
    obtain ⟨r, hlast, rfl⟩ := hlast
    obtain ⟨hr, hof⟩ := mem_filter.1 (mem_of_getLast? hlast)
    refine ⟨r, hr, rfl, (isOf_iff.1 hof).1, hmarker, fun r' hr' hb hk => ?_⟩
    exact ordinal_le_of_getLast hlast (mem_filter.2 ⟨hr', isOf_iff.2 ⟨hb, hk⟩⟩)

end Database

namespace MemoryState

variable {st : MemoryState} {bucket key b k versionID : Bytes} {v : ObjectVersion} {metadata : StrMap}

theorem getLatestObjectVersion_eq :
    st.getLatestObjectVersion bucket key = scanRow (st.versions bucket key).getLast? := by
  unfold getLatestObjectVersion scanRow
  cases (st.versions bucket key).getLast? <;> rfl

theorem getObjectVersion_eq :
    st.getObjectVersion bucket key versionID =
      scanRow (if versionID = [] then (st.versions bucket key).getLast?
        else find ObjectVersion.versionID versionID (st.versions bucket key)) := by
  unfold getObjectVersion
  split_ifs
  · exact getLatestObjectVersion_eq
  · unfold find scanRow
    cases (st.versions bucket key).find? fun v => v.versionID = versionID <;> rfl

theorem fst_updateObjectMetadata :
    (st.updateObjectMetadata bucket key versionID metadata).1 =
      if find ObjectVersion.versionID versionID (st.versions bucket key) = none then .error .notFound
      else .ok () := by
  have hfind : (st.versions bucket key).findIdx? (fun v => v.versionID = versionID) = none ↔
      find ObjectVersion.versionID versionID (st.versions bucket key) = none := by
    rw [find_eq_none]
    simp
  unfold updateObjectMetadata
  dsimp only
  split
  next h => rw [if_pos (hfind.1 h)]
  next h => rw [if_neg fun hnone => by rw [hfind.2 hnone] at h; cases h]

end MemoryState

/-! ## The two stores side by side -/

/-- The rows of every key are its list of versions. -/
def Mirrors (st : MemoryState) (db : Database) : Prop :=
  ∀ bucket key, db.versions bucket key = st.versions bucket key

/-- The states of the two stores before some calls. -/
structure Agree (st : MemoryState) (db : Database) (calls : List ObjectCall) : Prop where
  mirrors : Mirrors st db
  /-- No key has two versions of one id. -/
  nodup : ∀ bucket key, ((st.versions bucket key).map ObjectVersion.versionID).Nodup
  /-- The ids the calls use up are new, -/
  fresh : ∀ bucket key versionID, (bucket, key, versionID) ∈ calls.filterMap ObjectCall.newID →
    versionID ∉ (st.versions bucket key).map ObjectVersion.versionID
  /-- …and each is used once. -/
  once : (calls.filterMap ObjectCall.newID).Nodup
  buckets : ∀ c ∈ calls, ∃ b, db.getBucket c.bucket = .ok b

/-- The call is not a deletion of the version with the empty id, or that is the latest version. -/
def Straight (st : MemoryState) : ObjectCall → Prop
  | .deleteObjectVersion bucket key versionID =>
    versionID = [] → ∀ v ∈ st.versions bucket key, v.versionID = [] →
      (st.versions bucket key).getLast? = some v
  | _ => True

variable {st : MemoryState} {db : Database} (dialect : Dialect) {calls : List ObjectCall}
  {c : ObjectCall}

theorem ObjectCall.newID_eq_some {x : Bytes × Bytes × Bytes} :
    c.newID = some x ↔ ∃ v, c.row? = some v ∧ v.versionID ≠ nullVersion ∧
      (v.bucket, v.key, v.versionID) = x := by
  rw [newID, Option.bind_eq_some_iff]
  refine exists_congr fun v => and_congr_right fun _ => ?_
  split_ifs with h <;> simp [h]

theorem Agree.once_tail (h : Agree st db (c :: calls)) :
    (calls.filterMap ObjectCall.newID).Nodup ∧ ∀ x ∈ c.newID, x ∉ calls.filterMap ObjectCall.newID := by
  have honce := h.once
  rw [filterMap_cons] at honce
  split at honce
  next hnone =>
    rw [hnone]
    exact ⟨honce, nofun⟩
  next y hy =>
    rw [hy]
    obtain ⟨hy, hrest⟩ := nodup_cons.1 honce
    exact ⟨hrest, fun x hx => Option.some.inj hx ▸ hy⟩

variable {bucket key versionID : Bytes}

theorem Agree.fresh_tail (h : Agree st db (c :: calls))
    (hnew : (bucket, key, versionID) ∈ calls.filterMap ObjectCall.newID) :
    versionID ∉ (st.versions bucket key).map ObjectVersion.versionID := by
  refine h.fresh bucket key versionID ?_
  obtain ⟨c', hc', hid⟩ := mem_filterMap.1 hnew
  exact mem_filterMap.2 ⟨c', mem_cons_of_mem c hc', hid⟩

theorem Agree.buckets_tail (h : Agree st db (c :: calls)) {db' : Database}
    (hbuckets : db'.buckets = db.buckets) : ∀ c ∈ calls, ∃ b, db'.getBucket c.bucket = .ok b := by
  intro c' hc'
  obtain ⟨b, hb⟩ := h.buckets c' (mem_cons_of_mem c hc')
  refine ⟨b, ?_⟩
  unfold SqliteStore.getBucket at hb ⊢
  rwa [hbuckets]

/-- A call that puts no row leaves the ids of a key as they are, or takes some away. -/
theorem Agree.tail (h : Agree st db (c :: calls)) {st' : MemoryState} {db' : Database}
    (hmirrors : Mirrors st' db') (hbuckets : db'.buckets = db.buckets)
    (hids : ∀ bucket key, ((st'.versions bucket key).map ObjectVersion.versionID).Sublist
      ((st.versions bucket key).map ObjectVersion.versionID)) : Agree st' db' calls where
  mirrors := hmirrors
  nodup bucket key := (h.nodup bucket key).sublist (hids bucket key)
  fresh bucket key _ hnew hmem := h.fresh_tail hnew ((hids bucket key).subset hmem)
  once := h.once_tail.1
  buckets := h.buckets_tail hbuckets

theorem Agree.put {v : ObjectVersion} (hc : c.row? = some v) (h : Agree st db (c :: calls)) :
    (db.run dialect (putObjectVersion v) []).1 = .ok () ∧
      Agree (st.putObjectVersion v) (db.run dialect (putObjectVersion v) []).2 calls := by
  have hnew : v.versionID = nullVersion ∨
      v.versionID ∉ (st.versions v.bucket v.key).map ObjectVersion.versionID := by
    refine or_iff_not_imp_left.2 fun hne => h.fresh _ _ _ ?_
    exact mem_filterMap.2 ⟨c, mem_cons_self, ObjectCall.newID_eq_some.2 ⟨v, hc, hne, rfl⟩⟩
  rw [Database.run_putObjectVersion (by rwa [h.mirrors v.bucket v.key])]
  refine ⟨rfl, ?_, fun bucket key => ?_, fun bucket key versionID hid hmem => ?_, h.once_tail.1,
    h.buckets_tail ?_⟩
  · intro bucket key
    rw [Database.versions_putObjectVersion, MemoryState.versions_putObjectVersion, h.mirrors]
  · rw [MemoryState.versions_putObjectVersion]
    split_ifs with hkey
    · obtain ⟨rfl, rfl⟩ := hkey
      exact nodup_put (h.nodup _ _) hnew
    · exact h.nodup bucket key
  · rw [MemoryState.versions_putObjectVersion] at hmem
    split_ifs at hmem with hkey
    · obtain ⟨x, hx, rfl⟩ := mem_map.1 hmem
      rcases mem_put.1 hx with rfl | ⟨hx, -⟩
      -- the row itself: its id would be used twice
      · obtain ⟨c', -, hc'⟩ := mem_filterMap.1 hid
        obtain ⟨v', hv', hne, heq⟩ := ObjectCall.newID_eq_some.1 hc'
        have hid' : v'.versionID = x.versionID := congrArg (fun p => p.2.2) heq
        refine h.once_tail.2 _ (ObjectCall.newID_eq_some.2 ⟨x, hc, hid' ▸ hne, ?_⟩) hid
        rw [hkey.1, hkey.2]
      · exact h.fresh_tail hid (mem_map_of_mem hx)
    · exact h.fresh_tail hid hmem
  · split_ifs <;> rfl

theorem Agree.updateObjectMetadata {metadata : StrMap} (hdialect : dialect ≠ .mariaDB)
    (h : Agree st db (.updateObjectMetadata bucket key versionID metadata :: calls)) :
    (st.updateObjectMetadata bucket key versionID metadata).1 =
        (db.run dialect (updateObjectMetadata bucket key versionID metadata) []).1 ∧
      Agree (st.updateObjectMetadata bucket key versionID metadata).2
        (db.run dialect (updateObjectMetadata bucket key versionID metadata) []).2 calls := by
  rw [Database.run_updateObjectMetadata hdialect, MemoryState.fst_updateObjectMetadata, h.mirrors]
  refine ⟨rfl, h.tail (fun b k => ?_) rfl fun b k => ?_⟩
  · rw [Database.versions_setMetadata,
      MemoryState.versions_updateObjectMetadata_of_nodup (h.nodup bucket key), h.mirrors]
  rw [MemoryState.versions_updateObjectMetadata_of_nodup (h.nodup bucket key)]
  split_ifs
  · have hids : ((st.versions b k).map fun x =>
        if x.versionID = versionID then { x with metadata } else x).map ObjectVersion.versionID =
          (st.versions b k).map ObjectVersion.versionID := by
      rw [map_map]
      refine map_congr_left fun x _ => ?_
      dsimp only [comp]
      split_ifs <;> rfl
    rw [hids]
  · exact .refl _

theorem Agree.deleteAllObjectVersions (h : Agree st db (.deleteAllObjectVersions bucket key :: calls)) :
    (st.deleteAllObjectVersions bucket key).1 =
        (db.run dialect (deleteAllObjectVersions bucket key) []).1 ∧
      Agree (st.deleteAllObjectVersions bucket key).2
        (db.run dialect (deleteAllObjectVersions bucket key) []).2 calls := by
  have hsub (b k : Bytes) :
      (((st.deleteAllObjectVersions bucket key).2.versions b k).map ObjectVersion.versionID).Sublist
        ((st.versions b k).map ObjectVersion.versionID) := by
    rw [MemoryState.versions_deleteAllObjectVersions]
    split_ifs
    · exact nil_sublist _
    · exact .refl _
  rw [Database.run_deleteAllObjectVersions, h.mirrors]
  by_cases hnil : st.versions bucket key = []
  · rw [if_pos hnil]
    refine ⟨by rw [MemoryState.deleteAllObjectVersions, if_pos hnil], h.tail (fun b k => ?_) rfl hsub⟩
    rw [MemoryState.deleteAllObjectVersions, if_pos hnil]
    exact h.mirrors b k
  · rw [if_neg hnil]
    refine ⟨by rw [MemoryState.deleteAllObjectVersions, if_neg hnil], h.tail (fun b k => ?_) rfl hsub⟩
    rw [Database.versions_deleteRows_isOf, MemoryState.versions_deleteAllObjectVersions, h.mirrors]

/-- What the SQL store reads before it deletes: for the empty id, the latest version. -/
theorem read_eq_none {l : List ObjectVersion}
    (h : (if versionID = [] then l.getLast? else find ObjectVersion.versionID versionID l) =
      none) : find ObjectVersion.versionID versionID l = none := by
  split_ifs at h
  · rw [getLast?_eq_none_iff.1 h]
    rfl
  · exact h

theorem Agree.deleteObjectVersion
    (h : Agree st db (.deleteObjectVersion bucket key versionID :: calls)) :
    Agree (st.deleteObjectVersion bucket key versionID).2
      (db.run dialect (deleteObjectVersion bucket key versionID) []).2 calls := by
  have hremove (b k : Bytes) := @MemoryState.versions_deleteObjectVersion st bucket key b k versionID
  have hsub (b k : Bytes) :
      (((st.deleteObjectVersion bucket key versionID).2.versions b k).map
        ObjectVersion.versionID).Sublist ((st.versions b k).map ObjectVersion.versionID) := by
    rw [hremove]
    split_ifs
    · exact eraseP_sublist.map _
    · exact .refl _
  rw [Database.run_deleteObjectVersion, h.mirrors]
  split
  next hread =>
    refine h.tail (fun b k => ?_) rfl hsub
    rw [h.mirrors, hremove]
    split_ifs with hkey
    · rw [hkey.1, hkey.2, remove_eq_self_iff.2 (read_eq_none hread)]
    · rfl
  next =>
    refine h.tail (fun b k => ?_) rfl hsub
    rw [Database.versions_deleteRows_hasID, hremove, h.mirrors]
    exact if_congr .rfl (remove_eq_filter (h.nodup b k)).symm rfl

/-- **Where the two results differ**: the row with the empty id is deleted, the latest version
returned. -/
theorem Agree.deleteObjectVersion_iff
    (h : Agree st db (.deleteObjectVersion bucket key versionID :: calls)) :
    (st.deleteObjectVersion bucket key versionID).1 =
        (db.run dialect (Sqlite.deleteObjectVersion bucket key versionID) []).1 ↔
      Straight st (.deleteObjectVersion bucket key versionID) := by
  rw [Database.run_deleteObjectVersion, h.mirrors, MemoryState.fst_deleteObjectVersion]
  cases hfind : find ObjectVersion.versionID versionID (st.versions bucket key) with
  | none =>
    refine iff_of_true ?_ fun hempty v hv hid => ?_
    · generalize (if versionID = [] then (st.versions bucket key).getLast? else none) = read
      cases read <;> rfl
    · exact absurd (hid.trans hempty.symm) (find_eq_none.1 hfind v hv)
  | some x =>
    obtain ⟨hx, hid⟩ := find_some hfind
    by_cases hempty : versionID = []
    · subst hempty
      obtain ⟨last, hlast⟩ : ∃ last, (st.versions bucket key).getLast? = some last :=
        ⟨_, getLast?_eq_some_getLast (ne_nil_of_mem hx)⟩
      rw [hlast]
      have hsame : Straight st (.deleteObjectVersion bucket key []) ↔ x = last := by
        constructor
        · intro hstraight
          exact (Option.some.inj (hlast.symm.trans (hstraight rfl x hx hid))).symm
        · rintro rfl - v hv hv'
          rw [hlast, inj_on_of_nodup_map (h.nodup bucket key) hv hx (hv'.trans hid.symm)]
      rw [hsame]
      simp
    · rw [if_neg hempty]
      exact iff_of_true rfl fun h => absurd h hempty

theorem Agree.listObjects (h : Agree st db (.listObjects bucket :: calls)) :
    (st.objectCall (.listObjects bucket)).1 = (db.objectCall dialect (.listObjects bucket)).1 ∧
      (db.objectCall dialect (.listObjects bucket)).2 = db := by
  obtain ⟨b, hb⟩ : ∃ b, db.getBucket bucket = .ok b := h.buckets _ mem_cons_self
  have hrun : db.objectCall dialect (.listObjects bucket) =
      (.ok (db.latest bucket fun _ => true).toFinset, db) := by
    rw [Database.objectCall, Database.run_listObjects hb]
    rfl
  rw [hrun]
  refine ⟨congrArg Except.ok (Finset.ext fun v => ?_), rfl⟩
  rw [mem_toFinset, mem_toFinset, MemoryState.mem_listObjects, SqliteStore.mem_latest,
    Database.visible_iff, h.mirrors]
  constructor
  · rintro ⟨key, hmarker, hlast⟩
    have hrow := Database.mem_versions.1 (h.mirrors bucket key ▸ mem_of_getLast? hlast)
    obtain ⟨-, -, -, -, rfl⟩ := hrow
    exact ⟨rfl, hmarker, hlast⟩
  · rintro ⟨-, hmarker, hlast⟩
    exact ⟨v.key, hmarker, hlast⟩

/-- **One call on the two stores.** -/
theorem Agree.step (hdialect : dialect ≠ .mariaDB) (h : Agree st db (c :: calls)) :
    ((st.objectCall c).1 = (db.objectCall dialect c).1 ↔ Straight st c) ∧
      Agree (st.objectCall c).2 (db.objectCall dialect c).2 calls := by
  have hsame : Agree st db calls := h.tail h.mirrors rfl fun _ _ => .refl _
  cases c with
  | putObjectVersion v =>
    obtain ⟨hok, hagree⟩ := h.put dialect rfl
    exact ⟨iff_of_true hok.symm trivial, hagree⟩
  | deleteObject bucket key versionID time =>
    obtain ⟨hok, hagree⟩ := h.put dialect rfl
    exact ⟨iff_of_true hok.symm trivial, hagree⟩
  | updateObjectMetadata bucket key versionID metadata =>
    obtain ⟨heq, hagree⟩ := h.updateObjectMetadata dialect hdialect
    exact ⟨iff_of_true heq trivial, hagree⟩
  | deleteObjectVersion bucket key versionID =>
    exact ⟨h.deleteObjectVersion_iff dialect, h.deleteObjectVersion dialect⟩
  | deleteAllObjectVersions bucket key =>
    obtain ⟨heq, hagree⟩ := h.deleteAllObjectVersions dialect
    exact ⟨iff_of_true heq trivial, hagree⟩
  | getObjectVersion bucket key versionID =>
    rw [Database.objectCall, Database.run_getObjectVersion, h.mirrors]
    exact ⟨iff_of_true MemoryState.getObjectVersion_eq trivial, hsame⟩
  | getLatestObjectVersion bucket key =>
    rw [Database.objectCall, Database.run_getLatestObjectVersion, h.mirrors]
    exact ⟨iff_of_true MemoryState.getLatestObjectVersion_eq trivial, hsame⟩
  | listObjects bucket =>
    obtain ⟨heq, hdb⟩ := h.listObjects dialect
    rw [hdb]
    exact ⟨iff_of_true heq trivial, hsame⟩

def sharedBucket : Bucket := ⟨str "b", str "us-east-1", str "Suspended", 0⟩

def memoryWithBucket : MemoryState := (({} : MemoryState).createBucket sharedBucket).2

def sqliteWithBucket : Database :=
  (Database.empty.run .sqlite (createBucket sharedBucket) []).2

/-- SQLite's `LIKE`: `%` stands for any text and `_` for one character, and the letters of ASCII are
compared without regard to case. -/
def like : Bytes → Bytes → Bool
  | [], s => s.isEmpty
  | p :: pattern, s =>
    if p = 0x25 then s.tails.any fun t => !t.head?.any Utf8.isCont && like pattern t
    else match s with
      | [] => false
      | b :: s =>
        if p = 0x5F then like pattern (s.dropWhile Utf8.isCont)
        else Strings.lowerByte p == Strings.lowerByte b && like pattern s

inductive Column
  | text (s : Bytes)
  | time (t : Time)

/-- `scanMultipartUpload`: `Scan` needs a destination for each column. -/
def scanMultipartUpload : List Column → Except Error MultipartUpload
  | [.text uploadID, .text bucket, .text key, .text sseAlgorithm, .time initiatedAt] =>
    .ok { uploadID, bucket, key, sseAlgorithm, initiatedAt }
  | _ => .error .failed

namespace Database

/-- `WHERE bucket = ? AND (? = '' OR object_key LIKE ?)`. -/
def lists (bucket pre : Bytes) (u : MultipartUpload) : Bool :=
  u.bucket = bucket && (pre = [] || like (pre ++ str "%") u.key)

/-- `SELECT … FROM multipart_uploads WHERE … ORDER BY object_key, upload_id`. -/
def selectUploads (db : Database) (bucket pre : Bytes) : List MultipartUpload :=
  ((db.uploads.entries.map Sigma.snd).filter (lists bucket pre)).insertionSort fun u u' =>
    u.key < u'.key ∨ u.key = u'.key ∧ u.uploadID ≤ u'.uploadID

/-- `ListMultipartUploads`: the query selects `upload_id, bucket, object_key, initiated_at`. -/
def listMultipartUploads (db : Database) (bucket pre : Bytes) :
    Except Error (List MultipartUpload) := do
  let _ ← db.getBucket bucket
  (db.selectUploads bucket pre).mapM fun u =>
    scanMultipartUpload [.text u.uploadID, .text u.bucket, .text u.key, .time u.initiatedAt]

variable {db : Database} {bucket pre : Bytes}

/-- **The listing succeeds if and only if there is nothing to list.** -/
theorem listMultipartUploads_eq_ok_iff {b : Bucket} {uploads : List MultipartUpload}
    (hb : db.getBucket bucket = .ok b) :
    db.listMultipartUploads bucket pre = .ok uploads ↔
      uploads = [] ∧ ∀ uploadID, ∀ u ∈ db.uploads.lookup uploadID, lists bucket pre u = false := by
  have hrows : db.selectUploads bucket pre = [] ↔
      ∀ uploadID, ∀ u ∈ db.uploads.lookup uploadID, lists bucket pre u = false := by
    rw [selectUploads, ← length_eq_zero_iff, length_insertionSort,
      length_eq_zero_iff, MemoryState.filter_values_eq_nil_iff]
  rw [← hrows, listMultipartUploads, hb]
  cases db.selectUploads bucket pre with
  | nil => exact ⟨fun h => ⟨(Except.ok.inj h).symm, rfl⟩, fun h => congrArg Except.ok h.1.symm⟩
  | cons u rows =>
    -- the scan of the first row fails
    exact ⟨nofun, nofun⟩

end Database

variable {st : MemoryState} {db : Database} {bucket : Bytes} {b : Bucket}

/-- **The listings agree if and only if they are empty**: no upload of the bucket has a key that the
prefix, or its pattern, matches. -/
theorem listMultipartUploads_agrees_iff (pre : Bytes) (hst : bucket ∈ st.buckets)
    (hdb : db.getBucket bucket = .ok b)
    (hsame : ∀ uploadID, db.uploads.lookup uploadID = st.multipart.lookup uploadID) :
    (∃ uploads, db.listMultipartUploads bucket pre = .ok uploads ∧
      st.listMultipartUploads bucket pre = .ok uploads) ↔
      ∀ uploadID, ∀ u ∈ st.multipart.lookup uploadID, u.bucket = bucket →
        pre ≠ [] ∧ ¬ pre <+: u.key ∧ like (pre ++ str "%") u.key = false := by
  simp only [Database.listMultipartUploads_eq_ok_iff hdb, and_assoc, exists_eq_left, hsame,
    MemoryState.listMultipartUploads_eq_nil_iff hst, ← forall_and, Database.lists]
  refine forall_congr' fun uploadID => forall_congr' fun u => forall_congr' fun _ => ?_
  by_cases hbucket : u.bucket = bucket
  · simp only [hbucket, decide_true, Bool.true_and, Bool.or_eq_false_iff, decide_eq_false_iff_not]
    tauto
  · simp [hbucket]

/-- An upload of the key `k`. -/
def uploadOfKey : MultipartUpload := ⟨str "u", str "b", str "k", [], 1⟩

def memoryWithUpload : MemoryState := (memoryWithBucket.createMultipartUpload uploadOfKey).2

def sqliteWithUpload : Database :=
  (sqliteWithBucket.run .sqlite (createMultipartUpload uploadOfKey) []).2

theorem listMultipartUploads_agrees_other : ∃ uploads,
    sqliteWithUpload.listMultipartUploads (str "b") (str "K2") = .ok uploads ∧
      memoryWithUpload.listMultipartUploads (str "b") (str "K2") = .ok uploads := by
  refine (listMultipartUploads_agrees_iff (str "K2") (by decide) rfl
    fun _ => rfl).2 fun uploadID u hu _ => ?_
  have hmem : (⟨uploadID, u⟩ : Sigma fun _ : Bytes => MultipartUpload) ∈ [⟨str "u", uploadOfKey⟩] :=
    AList.mem_lookup_iff.1 hu
  cases mem_singleton.1 hmem
  decide

/-- **One store lists the upload, the other fails.** -/
theorem listMultipartUploads_fails :
    sqliteWithUpload.listMultipartUploads (str "b") [] = .error .failed ∧
      memoryWithUpload.listMultipartUploads (str "b") [] = .ok [uploadOfKey] :=
  ⟨rfl, by decide⟩

end S000.Metadata
