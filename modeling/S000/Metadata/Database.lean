import S000.Metadata.Catalog
import S000.Metadata.Sqlite

/-!
# Metadata/Database — the SQL store, statement by statement

The operations of `internal/metadata/sqlite_store.go` are programs of SQL statements.  A `Statement`
is executed atomically on the tables, or fails and changes nothing; a query is a statement together
with the scan of its rows, so that `sql.ErrNoRows` is already `ErrNotFound`.  Text is compared
bytewise, as SQLite and PostgreSQL compare it (the default collation of MariaDB ignores case), and JSON
and RFC 3339 text is what it stands for.

A transaction runs its statements on a copy of the tables, which replaces them at the commit.  Only
the rows of `object_versions` are numbered: `ordinal` is an auto-increment column, so a new row gets
a number no row had before, and the rows are listed by it.
-/

namespace S000.Metadata

open List

/-- `sqlDialect`. -/
inductive Dialect
  | sqlite | postgreSQL | mariaDB
deriving DecidableEq

/-- What a statement that breaks a unique key returns, after `mapSQLiteErr`: that looks for the word
`constraint`, which MariaDB does not use. -/
def Dialect.duplicate : Dialect → Error
  | sqlite | postgreSQL => .conflict
  | mariaDB => .failed

/-- `RowsAffected` of an `UPDATE`: the rows it matches or, with `clientFoundRows` off as in the driver of
MariaDB, those of them it changes. -/
def Dialect.updated {α : Type} [DecidableEq α] (dialect : Dialect) (p : α → Bool) (set : α → α)
    (rows : List α) : ℕ :=
  rows.countP fun r => p r && (dialect ≠ .mariaDB || set r ≠ r)

namespace Row

/-- `bucket = ? AND object_key = ?`. -/
def isOf (bucket key : Bytes) (r : Row) : Bool :=
  r.version.bucket = bucket && r.version.key = key

/-- `bucket = ? AND object_key = ? AND version_id = ?`. -/
def hasID (bucket key versionID : Bytes) (r : Row) : Bool :=
  r.isOf bucket key && r.version.versionID = versionID

end Row

/-- The tables of the SQL store.  A table with a primary key of text is a map from it. -/
structure Database extends SqliteStore where
  /-- The next value of the column `ordinal`. -/
  nextOrdinal : ℕ := 0
  ordinals_lt : ∀ r ∈ objectVersions, r.ordinal < nextOrdinal
  ordinals_sorted : (objectVersions.map Row.ordinal).Pairwise (· < ·)
  uploads : AList fun _ : Bytes => MultipartUpload := ∅
  parts : AList fun _ : Bytes × ℤ => MultipartPart := ∅
  credentials : AList fun _ : Bytes => CredentialRecord := ∅
  configs : (kind : ConfigKind) → AList fun _ : Bytes => kind.Record := fun _ => ∅
  taggings : AList fun _ : Bytes × Bytes × Bytes => ObjectTagging := ∅

namespace Database

/-- The tables `ensureSQLiteSchema` creates. -/
def empty : Database where
  buckets := []
  objectVersions := []
  ordinals_nodup := nodup_nil
  ordinals_lt := nofun
  ordinals_sorted := .nil

variable (db : Database)

/-! ## The object table -/

/-- The rows of a key, by `ordinal`. -/
def rowsOf (bucket key : Bytes) : List Row := db.objectVersions.filter (Row.isOf bucket key)

/-- `INSERT INTO object_versions`. -/
def insertRow (v : ObjectVersion) : Database where
  toSqliteStore :=
    { db.toSqliteStore with
      objectVersions := db.objectVersions ++ [⟨db.nextOrdinal, v⟩]
      ordinals_nodup := by
        rw [map_append, nodup_append]
        refine ⟨db.ordinals_nodup, nodup_singleton _, fun a ha b hb => ?_⟩
        obtain ⟨r, hr, rfl⟩ := mem_map.1 ha
        obtain rfl := mem_singleton.1 hb
        exact (db.ordinals_lt r hr).ne }
  nextOrdinal := db.nextOrdinal + 1
  ordinals_lt r hr := by
    rcases mem_append.1 hr with hr | hr
    · exact Nat.lt_succ_of_lt (db.ordinals_lt r hr)
    · obtain rfl := mem_singleton.1 hr
      exact Nat.lt_succ_self _
  ordinals_sorted := by
    rw [map_append, pairwise_append]
    refine ⟨db.ordinals_sorted, pairwise_singleton _ _, fun a ha b hb => ?_⟩
    obtain ⟨r, hr, rfl⟩ := mem_map.1 ha
    obtain rfl := mem_singleton.1 hb
    exact db.ordinals_lt r hr
  uploads := db.uploads
  parts := db.parts
  credentials := db.credentials
  configs := db.configs
  taggings := db.taggings

/-- `DELETE FROM object_versions WHERE p`. -/
def deleteRows (p : Row → Bool) : Database :=
  have hsub : (db.objectVersions.filter (!p ·)).Sublist db.objectVersions := filter_sublist
  { db with
    objectVersions := db.objectVersions.filter (!p ·)
    ordinals_nodup := db.ordinals_nodup.sublist (hsub.map _)
    ordinals_lt := fun r hr => db.ordinals_lt r (hsub.subset hr)
    ordinals_sorted := db.ordinals_sorted.sublist (hsub.map _) }

/-- `UPDATE object_versions SET metadata_json = ? WHERE p`. -/
def setMetadata (p : Row → Bool) (metadata : StrMap) : Database :=
  have hmap : (db.objectVersions.map fun r =>
      if p r then { r with version := { r.version with metadata } } else r).map Row.ordinal =
        db.objectVersions.map Row.ordinal := by
    rw [map_map]
    refine map_congr_left fun r _ => ?_
    dsimp only [Function.comp]
    split_ifs <;> rfl
  { db with
    objectVersions := db.objectVersions.map fun r =>
      if p r then { r with version := { r.version with metadata } } else r
    ordinals_nodup := hmap ▸ db.ordinals_nodup
    ordinals_lt := by
      intro r hr
      obtain ⟨r', hr', h⟩ := mem_map.1 (hmap ▸ mem_map_of_mem hr)
      exact h ▸ db.ordinals_lt r' hr'
    ordinals_sorted := hmap ▸ db.ordinals_sorted }

/-- The index `ux_object_versions_identity_versioned`, which MariaDB does not have. -/
def breaksIdentity (dialect : Dialect) (v : ObjectVersion) : Bool :=
  dialect ≠ .mariaDB && v.versionID ≠ nullVersion &&
    db.objectVersions.any (Row.hasID v.bucket v.key v.versionID)

end Database

/-! ## Statements -/

/-- The statements of the store, with the scan of what they return. -/
inductive Statement
  | selectBucket (name : Bytes)
  | insertBucket (b : Bucket)
  | updateVersioning (name status : Bytes)
  | deleteBucket (name : Bytes)
  | selectConfig (kind : ConfigKind) (bucket : Bytes)
  | upsertConfig (kind : ConfigKind) (cfg : kind.Record)
  | deleteConfig (kind : ConfigKind) (bucket : Bytes)
  | selectTagging (bucket key versionID : Bytes)
  | upsertTagging (cfg : ObjectTagging)
  | deleteTagging (bucket key versionID : Bytes)
  /-- The join with the largest ordinals. -/
  | selectObjects (bucket : Bytes)
  /-- `ORDER BY ordinal DESC LIMIT 1`. -/
  | selectLatest (bucket key : Bytes)
  | selectVersion (bucket key versionID : Bytes)
  /-- `ORDER BY ordinal`. -/
  | selectVersions (bucket key : Bytes)
  | insertVersion (v : ObjectVersion)
  | updateMetadata (bucket key versionID : Bytes) (metadata : StrMap)
  | deleteVersion (bucket key versionID : Bytes)
  | deleteVersions (bucket key : Bytes)
  | selectUpload (uploadID : Bytes)
  /-- `ORDER BY part_number`. -/
  | selectParts (uploadID : Bytes)
  | insertUpload (u : MultipartUpload)
  | deleteUpload (uploadID : Bytes)
  | upsertPart (p : MultipartPart)
  | deleteParts (uploadID : Bytes)
  | selectCredential (accessKeyID : Bytes)
  | upsertCredential (rec : CredentialRecord)
  | begin
  | commit

/-- What a statement returns beside an error: the rows of a query, or how many rows it affected. -/
@[reducible] def Statement.Val : Statement → Type
  | selectBucket _ => Bucket
  | selectConfig kind _ => kind.Record
  | selectTagging .. => ObjectTagging
  | selectLatest .. | selectVersion .. => ObjectVersion
  | selectObjects _ | selectVersions .. => List ObjectVersion
  | selectUpload _ => MultipartUpload
  | selectParts _ => List MultipartPart
  | selectCredential _ => CredentialRecord
  | _ => ℕ

/-- The rows of a query, or `sql.ErrNoRows` mapped. -/
def scanRow {α : Type} : Option α → Except Error α
  | none => .error .notFound
  | some a => .ok a

/-- What a statement does that does not fail. -/
def Database.execute (db : Database) (dialect : Dialect) :
    (s : Statement) → Except Error s.Val × Database
  | .selectBucket name => (db.getBucket name, db)
  | .insertBucket b =>
    if b.name ∈ db.buckets.map Bucket.name then (.error dialect.duplicate, db)
    else (.ok (1 : ℕ), { db with buckets := db.buckets ++ [b] })
  | .updateVersioning name status =>
    (.ok (dialect.updated (fun b => b.name = name) ({ · with versioningStatus := status }) db.buckets),
      { db with buckets := db.buckets.map fun b =>
        if b.name = name then { b with versioningStatus := status } else b })
  | .deleteBucket name =>
    (.ok (db.buckets.countP fun b => b.name = name),
      { db with buckets := db.buckets.filter fun b => b.name ≠ name })
  | .selectConfig kind bucket => (scanRow ((db.configs kind).lookup bucket), db)
  | .upsertConfig kind cfg =>
    (.ok (1 : ℕ), { db with
      configs := Function.update db.configs kind ((db.configs kind).insert (kind.bucket cfg) cfg) })
  | .deleteConfig kind bucket =>
    (.ok (if bucket ∈ db.configs kind then 1 else 0 : ℕ), { db with
      configs := Function.update db.configs kind ((db.configs kind).erase bucket) })
  | .selectTagging bucket key versionID => (scanRow (db.taggings.lookup (bucket, key, versionID)), db)
  | .upsertTagging cfg =>
    (.ok (1 : ℕ), { db with
      taggings := db.taggings.insert (cfg.bucket, cfg.key, cfg.versionID) cfg })
  | .deleteTagging bucket key versionID =>
    (.ok (if (bucket, key, versionID) ∈ db.taggings then 1 else 0 : ℕ),
      { db with taggings := db.taggings.erase (bucket, key, versionID) })
  | .selectObjects bucket => (.ok (db.latest bucket fun _ => true), db)
  | .selectLatest bucket key =>
    (scanRow ((db.rowsOf bucket key).getLast?.map Row.version), db)
  | .selectVersion bucket key versionID =>
    (scanRow ((db.objectVersions.find? (Row.hasID bucket key versionID)).map Row.version), db)
  | .selectVersions bucket key => (.ok ((db.rowsOf bucket key).map Row.version), db)
  | .insertVersion v =>
    if db.breaksIdentity dialect v then (.error dialect.duplicate, db)
    else (.ok (1 : ℕ), db.insertRow v)
  | .updateMetadata bucket key versionID metadata =>
    (.ok (dialect.updated (Row.hasID bucket key versionID)
        (fun r => { r with version := { r.version with metadata } }) db.objectVersions),
      db.setMetadata (Row.hasID bucket key versionID) metadata)
  | .deleteVersion bucket key versionID =>
    (.ok (db.objectVersions.countP (Row.hasID bucket key versionID)),
      db.deleteRows (Row.hasID bucket key versionID))
  | .deleteVersions bucket key =>
    (.ok (db.objectVersions.countP (Row.isOf bucket key)), db.deleteRows (Row.isOf bucket key))
  | .selectUpload uploadID => (scanRow (db.uploads.lookup uploadID), db)
  | .selectParts uploadID =>
    let rows := (db.parts.entries.map Sigma.snd).filter fun p => p.uploadID = uploadID
    (.ok (rows.insertionSort fun p p' => p.partNumber ≤ p'.partNumber), db)
  | .insertUpload u =>
    if u.uploadID ∈ db.uploads then (.error dialect.duplicate, db)
    else (.ok (1 : ℕ), { db with uploads := db.uploads.insert u.uploadID u })
  | .deleteUpload uploadID =>
    (.ok (if uploadID ∈ db.uploads then 1 else 0 : ℕ),
      { db with uploads := db.uploads.erase uploadID })
  | .upsertPart p =>
    (.ok (1 : ℕ), { db with parts := db.parts.insert (p.uploadID, p.partNumber) p })
  | .deleteParts uploadID =>
    let numbers := db.parts.keys.filter fun k => k.1 = uploadID
    (.ok numbers.length, { db with parts := numbers.foldl (fun parts k => parts.erase k) db.parts })
  | .selectCredential accessKeyID => (scanRow (db.credentials.lookup accessKeyID), db)
  | .upsertCredential rec =>
    (.ok (1 : ℕ), { db with credentials := db.credentials.insert rec.accessKeyID rec })
  | .begin => (.ok (0 : ℕ), db)
  | .commit => (.ok (0 : ℕ), db)

/-- The statements, each of which can fail. -/
abbrev statements : Interface := ⟨Statement, fun s => Except Error s.Val⟩

/-- The database; a statement that fails changes nothing. -/
def database (dialect : Dialect) : Machine statements Bool Database where
  step db fails s := if fails then (.error .failed, db) else db.execute dialect s

/-- A method of the store: statements, up to the first error it returns. -/
abbrev Sql := ExceptT Error (Prog statements)

def sql (s : Statement) : Sql s.Val := .mk (.op (I := statements) s)

/-- `requireAffected`. -/
def requireAffected (n : ℕ) : Sql Unit := if n = 0 then throw .notFound else pure ()

/-- `defaultVersioning`. -/
def defaultVersioning (status : Bytes) : Bytes := if status = [] then str "Suspended" else status

/-! ## Methods -/

namespace Sqlite

/-- `CreateBucket`. -/
def createBucket (b : Bucket) : Sql Unit := do
  let _ ← sql (.insertBucket { b with versioningStatus := defaultVersioning b.versioningStatus })

/-- `DeleteBucket`. -/
def deleteBucket (bucket : Bytes) : Sql Unit := do requireAffected (← sql (.deleteBucket bucket))

/-- `UpdateBucketVersioning`. -/
def updateBucketVersioning (bucket status : Bytes) : Sql Unit := do
  requireAffected (← sql (.updateVersioning bucket status))

/-- `GetBucketWebsite` and its like. -/
def getConfig (kind : ConfigKind) (bucket : Bytes) : Sql kind.Record := sql (.selectConfig kind bucket)

/-- `PutBucketWebsite` and its like. -/
def putConfig (kind : ConfigKind) (cfg : kind.Record) : Sql Unit := do
  let _ ← sql (.selectBucket (kind.bucket cfg))
  let _ ← sql (.upsertConfig kind cfg)

/-- `DeleteBucketWebsite` and its like. -/
def deleteConfig (kind : ConfigKind) (bucket : Bytes) : Sql Unit := do
  requireAffected (← sql (.deleteConfig kind bucket))

/-- `PutObjectTagging`. -/
def putObjectTagging (cfg : ObjectTagging) : Sql Unit := do
  let _ ← sql (.upsertTagging cfg)

/-- `DeleteObjectTagging`. -/
def deleteObjectTagging (bucket key versionID : Bytes) : Sql Unit := do
  requireAffected (← sql (.deleteTagging bucket key versionID))

/-- `sqlitePutObjectVersion`. -/
def putObjectVersion (v : ObjectVersion) : Sql Unit := do
  if v.versionID = nullVersion then
    let _ ← sql (.deleteVersion v.bucket v.key v.versionID)
  let _ ← sql (.insertVersion v)

/-- `DeleteObject`. -/
def deleteObject (bucket key versionID : Bytes) (time : Time) : Sql Unit :=
  putObjectVersion (MemoryState.deleteMarker bucket key versionID time)

/-- `ListObjects`. -/
def listObjects (bucket : Bytes) : Sql (List ObjectVersion) := do
  let _ ← sql (.selectBucket bucket)
  sql (.selectObjects bucket)

/-- `GetLatestObjectVersion`. -/
def getLatestObjectVersion (bucket key : Bytes) : Sql ObjectVersion := sql (.selectLatest bucket key)

/-- `GetObjectVersion`. -/
def getObjectVersion (bucket key versionID : Bytes) : Sql ObjectVersion :=
  if versionID = [] then getLatestObjectVersion bucket key
  else sql (.selectVersion bucket key versionID)

/-- `UpdateObjectMetadata`. -/
def updateObjectMetadata (bucket key versionID : Bytes) (metadata : StrMap) : Sql Unit := do
  requireAffected (← sql (.updateMetadata bucket key versionID metadata))

/-- `DeleteObjectVersion`: the version that is read is returned. -/
def deleteObjectVersion (bucket key versionID : Bytes) : Sql ObjectVersion := do
  let version ← getObjectVersion bucket key versionID
  requireAffected (← sql (.deleteVersion bucket key versionID))
  return version

/-- `DeleteAllObjectVersions`. -/
def deleteAllObjectVersions (bucket key : Bytes) : Sql (List ObjectVersion) := do
  let (versions : List ObjectVersion) ← sql (.selectVersions bucket key)
  if versions = [] then throw .notFound
  else
    let _ ← sql (.deleteVersions bucket key)
    return versions

/-- `CreateMultipartUpload`. -/
def createMultipartUpload (u : MultipartUpload) : Sql Unit := do
  let _ ← sql (.insertUpload u)

/-- `sqliteTxStore.DeleteMultipartUpload`, and the body of the store's own. -/
def deleteMultipartUpload (uploadID : Bytes) : Sql Unit := do
  requireAffected (← sql (.deleteUpload uploadID))
  let _ ← sql (.deleteParts uploadID)

/-- `sqliteStore.UpsertMultipartPart`. -/
def upsertMultipartPart (p : MultipartPart) : Sql Unit := do
  let _ ← sql (.selectUpload p.uploadID)
  let _ ← sql (.selectParts p.uploadID)
  let _ ← sql (.upsertPart p)

/-- `sqliteTxStore.UpsertMultipartPart`, which does not look for the upload. -/
def txUpsertMultipartPart (p : MultipartPart) : Sql Unit := do
  let _ ← sql (.upsertPart p)

/-- `UpsertCredentialRecord`. -/
def upsertCredentialRecord (rec : CredentialRecord) : Sql Unit := do
  let _ ← sql (.upsertCredential rec)

/-- `sqliteTxStore`. -/
def tx : TxCall → Sql Unit
  | .createBucket b => createBucket b
  | .deleteBucket bucket => deleteBucket bucket
  | .updateBucketVersioning bucket status => updateBucketVersioning bucket status
  | .putObjectVersion v => putObjectVersion v
  | .deleteObject bucket key versionID time => deleteObject bucket key versionID time
  | .createMultipartUpload u => createMultipartUpload u
  | .deleteMultipartUpload uploadID => deleteMultipartUpload uploadID
  | .upsertMultipartPart p => txUpsertMultipartPart p
  | .upsertCredentialRecord rec => upsertCredentialRecord rec

/-- `BeginTx`, the method, `Commit`. -/
def inTx {α : Type} (p : Sql α) : Sql α := do
  let _ ← sql .begin
  let a ← p
  let _ ← sql .commit
  return a

/-- The function of a transaction, on a `sqliteTxStore`. -/
def txFunc (fn : TxFunc) : Sql Unit := .mk (fn.translate fun c => (tx c).run)

end Sqlite

/-! ## Runs -/

namespace Database

variable (db : Database) (dialect : Dialect)

/-- A method, with the statements that fail. -/
def run {α : Type} (p : Sql α) (fails : List Bool) : Except Error α × Database :=
  let r := (database dialect).exec p.run fails ⟨db, []⟩
  (r.1, r.2.world)

/-- A method in a transaction of its own, with the deferred `Rollback`. -/
def transact {α : Type} (p : Sql α) (fails : List Bool) : Except Error α × Database :=
  match db.run dialect (Sqlite.inTx p) fails with
  | (.ok a, db') => (.ok a, db')
  | (.error e, _) => (.error e, db)

/-- An operation of the SQL store. -/
def call (fails : List Bool) : (op : StoreOp) → Except Error op.Val × Database
  | .createBucket b => db.run dialect (Sqlite.createBucket b) fails
  | .updateBucketVersioning bucket status =>
    db.run dialect (Sqlite.updateBucketVersioning bucket status) fails
  | .deleteBucket bucket => db.run dialect (Sqlite.deleteBucket bucket) fails
  | .putConfig kind cfg => db.run dialect (Sqlite.putConfig kind cfg) fails
  | .deleteConfig kind bucket => db.run dialect (Sqlite.deleteConfig kind bucket) fails
  | .putObjectTagging cfg => db.run dialect (Sqlite.putObjectTagging cfg) fails
  | .deleteObjectTagging bucket key versionID =>
    db.run dialect (Sqlite.deleteObjectTagging bucket key versionID) fails
  | .putObjectVersion v => db.run dialect (Sqlite.putObjectVersion v) fails
  | .deleteObject bucket key versionID time =>
    db.run dialect (Sqlite.deleteObject bucket key versionID time) fails
  | .updateObjectMetadata bucket key versionID metadata =>
    db.run dialect (Sqlite.updateObjectMetadata bucket key versionID metadata) fails
  | .deleteObjectVersion bucket key versionID =>
    db.run dialect (Sqlite.deleteObjectVersion bucket key versionID) fails
  | .deleteAllObjectVersions bucket key =>
    db.run dialect (Sqlite.deleteAllObjectVersions bucket key) fails
  | .createMultipartUpload u => db.run dialect (Sqlite.createMultipartUpload u) fails
  | .deleteMultipartUpload uploadID =>
    db.transact dialect (Sqlite.deleteMultipartUpload uploadID) fails
  | .upsertMultipartPart p => db.run dialect (Sqlite.upsertMultipartPart p) fails
  | .upsertCredentialRecord rec => db.run dialect (Sqlite.upsertCredentialRecord rec) fails
  | .runInTx fn => db.transact dialect (Sqlite.txFunc fn) fails
  | .repairConsistency => (.ok (0 : ℕ), db)

def txCall (fails : List Bool) (c : TxCall) : Except Error Unit × Database :=
  db.run dialect (Sqlite.tx c) fails

end Database

/-! ## The statements of a method -/

/-- Every statement of the method satisfies `G`, whatever the statements return. -/
def Sql.Uses {α : Type} (G : Statement → Prop) (p : Sql α) : Prop :=
  p.run.Only (fun _ _ => True) G fun _ => True

section Uses

variable {α β : Type} {G : Statement → Prop} {p : Sql α}

theorem uses_pure (a : α) : Sql.Uses G (pure a) := trivial

theorem uses_throw (e : Error) : Sql.Uses G (throw e : Sql α) := trivial

theorem uses_sql {s : Statement} (hs : G s) : Sql.Uses G (sql s) := ⟨hs, fun _ _ => trivial⟩

theorem Sql.Uses.bind {f : α → Sql β} (hp : Uses G p) (hf : ∀ a, Uses G (f a)) :
    Uses G (p >>= f) := by
  refine Prog.only_bind.2 (.mono (fun r _ => ?_) hp)
  cases r with
  | error e => trivial
  | ok a => exact hf a

theorem uses_last {s : Statement} {f : s.Val → α} (hs : G s) :
    Sql.Uses G (sql s >>= fun x => pure (f x)) :=
  (uses_sql hs).bind fun _ => uses_pure _

theorem uses_ite {c : Prop} [Decidable c] {q : Sql α} (hp : c → Sql.Uses G p)
    (hq : ¬ c → Sql.Uses G q) : Sql.Uses G (if c then p else q) := by
  split_ifs with h
  · exact hp h
  · exact hq h

theorem uses_requireAffected (n : ℕ) : Sql.Uses G (requireAffected n) :=
  uses_ite (fun _ => uses_throw _) fun _ => uses_pure _

end Uses

namespace Database

variable {db : Database} {dialect : Dialect} {α β : Type} {p : Sql α}

/-- What the statements of a method preserve, the method preserves, whichever of them fail. -/
theorem run_of_uses {G : Statement → Prop} {P : Database → Prop} {fails : List Bool}
    (hP : ∀ db s, P db → G s → P (db.execute dialect s).2) (hp : Sql.Uses G p) (h : P db) :
    P (db.run dialect p fails).2 := by
  have hstep (x : Run statements Bool Database) (f : Bool) (s : Statement) (hx : P x.world)
      (hs : G s) : P ((database dialect).advance x f s).world := by
    cases f with
    | true => exact hx
    | false => exact hP x.world s hx hs
  exact (Machine.exec_of_only
    (fun x f s hx hs _ => ⟨trivial, hstep x f s hx hs⟩) hp h
    fun es _ => Machine.allowed_of_mem fun _ _ => trivial).2

/-! ### Methods without failures -/

theorem run_nil : db.run dialect p [] = (database dialect).eval p.run db := by
  rw [run, Machine.exec_nil]

theorem run_pure (a : α) : db.run dialect (pure a) [] = (.ok a, db) := rfl

theorem run_sql (s : Statement) : db.run dialect (sql s) [] = db.execute dialect s := rfl

variable {f : α → Sql β}

theorem run_bind :
    db.run dialect (p >>= f) [] = match db.run dialect p [] with
      | (.ok a, db') => db'.run dialect (f a) []
      | (.error e, db') => (.error e, db') := by
  have hbind : (p >>= f).run = p.run >>= ExceptT.bindCont f := rfl
  simp only [run_nil, hbind, Machine.eval_bind]
  rcases (database dialect).eval p.run db with ⟨_ | _, db'⟩ <;> rfl

theorem run_bind_ok {a : α} {db' : Database} (h : db.run dialect p [] = (.ok a, db')) :
    db.run dialect (p >>= f) [] = db'.run dialect (f a) [] := by rw [run_bind, h]

theorem run_bind_error {e : Error} {db' : Database} (h : db.run dialect p [] = (.error e, db')) :
    db.run dialect (p >>= f) [] = (.error e, db') := by rw [run_bind, h]

theorem run_requireAffected (n : ℕ) :
    db.run dialect (requireAffected n) [] = (if n = 0 then .error .notFound else .ok (), db) := by
  unfold requireAffected
  split_ifs <;> rfl

end Database

end S000.Metadata
