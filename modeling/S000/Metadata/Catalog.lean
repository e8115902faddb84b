import S000.Foundations.Prog
import S000.Metadata.Memory

/-!
# Metadata/Catalog — the memory-backed store with all its maps

`memoryBackedStore` keeps everything in maps and saves a snapshot of them after each change.  An
operation is refused before it touches a map, or changes the maps and then saves: `mutate` is what
happens up to the save, `call` the whole operation, where the environment says whether the save
succeeds.  A transaction runs a program of `TxStore` calls on a copy of the state.

What the store tells is the answers to its `Get` and `List` calls (`Query`).  Go's maps are iterated
in no particular order and `sort.Slice` is not stable, so the answer of a listing is a multiset.
-/

namespace S000.Metadata

/-- `memoryState`. -/
structure StoreState extends MemoryState where
  credentials : AList fun _ : Bytes => CredentialRecord := ∅
  /-- The maps `websites`, `cors`, `policies`, `publicAccess`, `lifecycles`, `notifications` and
  `replications`. -/
  configs : (kind : ConfigKind) → AList fun _ : Bytes => kind.Record := fun _ => ∅
  taggings : AList fun _ : Bytes × Bytes => ObjectTagging := ∅

namespace StoreState

variable (st : StoreState)

/-- An operation on the buckets, objects and uploads. -/
def lift {α : Type} (f : MemoryState → Except Error α × MemoryState) : Except Error α × StoreState :=
  ((f st.toMemoryState).1, { st with toMemoryState := (f st.toMemoryState).2 })

/-! ## Bucket configurations -/

/-- `st.websites[bucket] = cfg` and its like. -/
def setConfig (kind : ConfigKind) (bucket : Bytes) (cfg : kind.Record) : StoreState :=
  { st with configs := Function.update st.configs kind ((st.configs kind).insert bucket cfg) }

/-- `delete(st.websites, bucket)` and its like. -/
def eraseConfig (kind : ConfigKind) (bucket : Bytes) : StoreState :=
  { st with configs := Function.update st.configs kind ((st.configs kind).erase bucket) }

/-- `PutBucketWebsite`, `PutBucketCORS`, `PutBucketPolicy`, `PutBucketPublicAccessBlock`,
`PutBucketLifecycle`, `PutBucketNotification`, `PutBucketReplication`. -/
def putConfig (kind : ConfigKind) (cfg : kind.Record) : Except Error Unit × StoreState :=
  if kind.bucket cfg ∈ st.buckets then (.ok (), st.setConfig kind (kind.bucket cfg) cfg)
  else (.error .notFound, st)

/-- `GetBucketWebsite` and its like. -/
def getConfig (kind : ConfigKind) (bucket : Bytes) : Except Error kind.Record :=
  match (st.configs kind).lookup bucket with
  | none => .error .notFound
  | some cfg => .ok cfg

/-- `DeleteBucketWebsite` and its like. -/
def deleteConfig (kind : ConfigKind) (bucket : Bytes) : Except Error Unit × StoreState :=
  if bucket ∈ st.configs kind then (.ok (), st.eraseConfig kind bucket)
  else (.error .notFound, st)

/-- Several `delete(st.…, bucket)` in a row. -/
def eraseConfigs (kinds : List ConfigKind) (bucket : Bytes) : StoreState :=
  kinds.foldl (fun st kind => st.eraseConfig kind bucket) st

/-- `delete(st.buckets, bucket)`, and the deletions that follow it, where there is the bucket. -/
def dropBucket (kinds : List ConfigKind) (bucket : Bytes) : Except Error Unit × StoreState :=
  if bucket ∈ st.buckets then
    (.ok (), { st with buckets := st.buckets.erase bucket }.eraseConfigs kinds bucket)
  else (.error .notFound, st)

/-- `memoryBackedStore.DeleteBucket`, up to the save. -/
def deleteBucket (bucket : Bytes) : Except Error Unit × StoreState :=
  st.dropBucket
    [.website, .cors, .policy, .publicAccessBlock, .lifecycle, .notification, .replication] bucket

/-- `memoryTx.DeleteBucket`, which forgets the last two. -/
def txDeleteBucket (bucket : Bytes) : Except Error Unit × StoreState :=
  st.dropBucket [.website, .cors, .policy, .publicAccessBlock, .lifecycle] bucket

/-! ## Taggings and credentials -/

/-- `objectKey{bucket: bucket, key: key + "\x00" + versionID}`. -/
def taggingKey (bucket key versionID : Bytes) : Bytes × Bytes := (bucket, key ++ 0 :: versionID)

/-- `PutObjectTagging`. -/
def putObjectTagging (cfg : ObjectTagging) : StoreState :=
  { st with taggings := st.taggings.insert (taggingKey cfg.bucket cfg.key cfg.versionID) cfg }

/-- `GetObjectTagging`. -/
def getObjectTagging (bucket key versionID : Bytes) : Except Error ObjectTagging :=
  match st.taggings.lookup (taggingKey bucket key versionID) with
  | none => .error .notFound
  | some cfg => .ok cfg

/-- `DeleteObjectTagging`. -/
def deleteObjectTagging (bucket key versionID : Bytes) : Except Error Unit × StoreState :=
  if taggingKey bucket key versionID ∈ st.taggings then
    (.ok (), { st with taggings := st.taggings.erase (taggingKey bucket key versionID) })
  else (.error .notFound, st)

/-- `UpsertCredentialRecord`. -/
def upsertCredentialRecord (rec : CredentialRecord) : StoreState :=
  { st with credentials := st.credentials.insert rec.accessKeyID rec }

/-- `GetCredentialRecord`. -/
def getCredentialRecord (accessKeyID : Bytes) : Except Error CredentialRecord :=
  match st.credentials.lookup accessKeyID with
  | none => .error .notFound
  | some rec => .ok rec

/-! ## Repair -/

/-- `for k := range keys { if orphan(k) { delete(k); repaired++ } }`. -/
def sweep {κ S : Type} (orphan : κ → Bool) (delete : κ → S → S) (keys : List κ) (x : ℕ × S) : ℕ × S :=
  keys.foldl (fun x k => if orphan k then (x.1 + 1, delete k x.2) else x) x

/-- The loop of `repairState` over one map of configurations. -/
def repairConfigs (kind : ConfigKind) (x : ℕ × StoreState) : ℕ × StoreState :=
  sweep (fun bucket => bucket ∉ x.2.buckets) (fun bucket st => st.eraseConfig kind bucket)
    (x.2.configs kind).keys x

/-- The loop of `repairState` over the objects. -/
def repairObjects (x : ℕ × StoreState) : ℕ × StoreState :=
  sweep (fun key => key.1 ∉ x.2.buckets)
    (fun key st => { st with toMemoryState := st.eraseVersions key.1 key.2 }) x.2.objects.keys x

/-- The loop of `repairState` over the uploads. -/
def repairUploads (x : ℕ × StoreState) : ℕ × StoreState :=
  sweep (fun e => e.2.bucket ∉ x.2.buckets)
    (fun e st =>
      { st with multipart := st.multipart.erase e.1, parts := st.parts.erase e.1 })
    x.2.multipart.entries x

/-- `repairState`: the number of repairs, and the repaired state. -/
def repairState : ℕ × StoreState :=
  let x := repairUploads (repairObjects (0, st))
  [.website, .cors, .policy, .publicAccessBlock].foldl (fun x kind => repairConfigs kind x) x

/-! ### What is kept by all that an operation does -/

section Rules

variable {p : StoreState → Prop} {st : StoreState}

theorem dropBucket_induct (hbuckets : ∀ st buckets, p st → p { st with buckets })
    (hconfig : ∀ st kind bucket, p st → p (st.eraseConfig kind bucket)) (kinds : List ConfigKind)
    (bucket : Bytes) (h : p st) : p (st.dropBucket kinds bucket).2 := by
  unfold dropBucket
  split_ifs
  · exact List.foldlRecOn kinds _ (hbuckets _ _ h) fun _ h _ _ => hconfig _ _ _ h
  · exact h

theorem sweep_induct {κ : Type} {orphan : κ → Bool} {delete : κ → StoreState → StoreState}
    (hdelete : ∀ k st, p st → p (delete k st)) (keys : List κ) {x : ℕ × StoreState} (h : p x.2) :
    p (sweep orphan delete keys x).2 := by
  refine List.foldlRecOn (motive := fun x : ℕ × StoreState => p x.2) keys _ h fun x hx k _ => ?_
  split_ifs
  · exact hdelete k _ hx
  · exact hx

/-- **A rule for repairs**: what every deletion keeps, the repair keeps. -/
theorem repairState_induct
    (hobject : ∀ st bucket key, p st → p { st with toMemoryState := st.eraseVersions bucket key })
    (hupload : ∀ st uploadID, p st → p { st with
      multipart := st.multipart.erase uploadID, parts := st.parts.erase uploadID })
    (hconfig : ∀ st kind bucket, p st → p (st.eraseConfig kind bucket)) (h : p st) :
    p st.repairState.2 := by
  have hobjects : p (repairObjects (0, st)).2 := by
    refine sweep_induct ?_ _ h
    exact fun key st h => hobject st key.1 key.2 h
  have huploads : p (repairUploads (repairObjects (0, st))).2 := by
    refine sweep_induct ?_ _ hobjects
    exact fun e st h => hupload st e.1 h
  refine List.foldlRecOn (motive := fun x : ℕ × StoreState => p x.2) _ _ huploads fun x hx kind _ => ?_
  exact sweep_induct (fun bucket st h => hconfig st kind bucket h) _ hx

end Rules

end StoreState

/-! ## Transactions -/

/-- The calls of a `TxStore`. -/
inductive TxCall
  | createBucket (b : Bucket)
  | deleteBucket (bucket : Bytes)
  | updateBucketVersioning (bucket status : Bytes)
  | putObjectVersion (v : ObjectVersion)
  | deleteObject (bucket key versionID : Bytes) (time : Time)
  | createMultipartUpload (u : MultipartUpload)
  | deleteMultipartUpload (uploadID : Bytes)
  | upsertMultipartPart (p : MultipartPart)
  | upsertCredentialRecord (rec : CredentialRecord)

/-- Every call of a `TxStore` returns an error or nothing. -/
abbrev txCalls : Interface := ⟨TxCall, fun _ => Except Error Unit⟩

/-- `func(tx TxStore) error`. -/
abbrev TxFunc := Prog txCalls (Except Error Unit)

namespace StoreState

/-- `memoryTx`. -/
def memoryTx (st : StoreState) : TxCall → Except Error Unit × StoreState
  | .createBucket b => st.lift (·.createBucket b)
  | .deleteBucket bucket => st.txDeleteBucket bucket
  | .updateBucketVersioning bucket status => st.lift (·.updateBucketVersioning bucket status)
  | .putObjectVersion v => st.lift fun s => (.ok (), s.putObjectVersion v)
  | .deleteObject bucket key versionID time =>
    st.lift fun s => (.ok (), s.putObjectVersion (MemoryState.deleteMarker bucket key versionID time))
  | .createMultipartUpload u => st.lift (·.createMultipartUpload u)
  | .deleteMultipartUpload uploadID => st.lift (·.deleteMultipartUpload uploadID)
  | .upsertMultipartPart p => st.lift (·.upsertMultipartPart p)
  | .upsertCredentialRecord rec => (.ok (), st.upsertCredentialRecord rec)

/-- The copy of the state that a transaction works on. -/
def transaction : Machine txCalls Unit StoreState where
  step st _ c := st.memoryTx c

/-- `RunInTx`, up to the save: the state is replaced by the copy once the function has returned. -/
def runInTx (st : StoreState) (fn : TxFunc) : Except Error Unit × StoreState :=
  match transaction.eval fn st with
  | (.error e, _) => (.error e, st)
  | (.ok (), copy) => (.ok (), copy)

/-- **A rule for transactions**: what every call keeps, the transaction keeps. -/
theorem runInTx_induct {p : StoreState → Prop} (hcall : ∀ st c, p st → p (st.memoryTx c).2)
    {st : StoreState} (h : p st) (fn : TxFunc) : p (st.runInTx fn).2 := by
  have hcopy := transaction.eval_induct (fun st c h => hcall st c h) fn st h
  unfold runInTx
  split
  next => exact h
  next copy heq =>
    rw [heq] at hcopy
    exact hcopy

end StoreState

/-! ## Operations -/

/-- The operations of a `Store` that change it. -/
inductive StoreOp
  | createBucket (b : Bucket)
  | updateBucketVersioning (bucket status : Bytes)
  | deleteBucket (bucket : Bytes)
  | putConfig (kind : ConfigKind) (cfg : kind.Record)
  | deleteConfig (kind : ConfigKind) (bucket : Bytes)
  | putObjectTagging (cfg : ObjectTagging)
  | deleteObjectTagging (bucket key versionID : Bytes)
  | putObjectVersion (v : ObjectVersion)
  | deleteObject (bucket key versionID : Bytes) (time : Time)
  | updateObjectMetadata (bucket key versionID : Bytes) (metadata : StrMap)
  | deleteObjectVersion (bucket key versionID : Bytes)
  | deleteAllObjectVersions (bucket key : Bytes)
  | createMultipartUpload (u : MultipartUpload)
  | deleteMultipartUpload (uploadID : Bytes)
  | upsertMultipartPart (p : MultipartPart)
  | upsertCredentialRecord (rec : CredentialRecord)
  | runInTx (fn : TxFunc)
  | repairConsistency

def StoreOp.Val : StoreOp → Type
  | deleteObjectVersion .. => ObjectVersion
  | deleteAllObjectVersions .. => List ObjectVersion
  | repairConsistency => ℕ
  | _ => Unit

def StoreState.mutate (st : StoreState) : (op : StoreOp) → Except Error op.Val × StoreState
  | .createBucket b => st.lift (·.createBucket b)
  | .updateBucketVersioning bucket status => st.lift (·.updateBucketVersioning bucket status)
  | .deleteBucket bucket => st.deleteBucket bucket
  | .putConfig kind cfg => st.putConfig kind cfg
  | .deleteConfig kind bucket => st.deleteConfig kind bucket
  | .putObjectTagging cfg => (.ok (), st.putObjectTagging cfg)
  | .deleteObjectTagging bucket key versionID => st.deleteObjectTagging bucket key versionID
  | .putObjectVersion v => st.lift fun s => (.ok (), s.putObjectVersion v)
  | .deleteObject bucket key versionID time =>
    st.lift fun s => (.ok (), s.putObjectVersion (MemoryState.deleteMarker bucket key versionID time))
  | .updateObjectMetadata bucket key versionID metadata =>
    st.lift (·.updateObjectMetadata bucket key versionID metadata)
  | .deleteObjectVersion bucket key versionID => st.lift (·.deleteObjectVersion bucket key versionID)
  | .deleteAllObjectVersions bucket key => st.lift (·.deleteAllObjectVersions bucket key)
  | .createMultipartUpload u => st.lift (·.createMultipartUpload u)
  | .deleteMultipartUpload uploadID => st.lift (·.deleteMultipartUpload uploadID)
  | .upsertMultipartPart p => st.lift (·.upsertMultipartPart p)
  | .upsertCredentialRecord rec => (.ok (), st.upsertCredentialRecord rec)
  | .runInTx fn => st.runInTx fn
  | .repairConsistency => (.ok st.repairState.1, st.repairState.2)

theorem StoreState.mutate_repairConsistency (st : StoreState) :
    st.mutate .repairConsistency = (.ok st.repairState.1, st.repairState.2) := rfl

/-- Whether an operation that was not refused goes on to save; a repair that found nothing does
not. -/
def StoreOp.saves : (op : StoreOp) → op.Val → Bool
  | .repairConsistency, (repaired : ℕ) => repaired ≠ 0
  | _, _ => true

/-- `memoryBackedStore` with a persister. -/
structure MemoryBackedStore where
  st : StoreState := {}
  /-- The state of which the persister has the snapshot. -/
  persisted : StoreState := {}

/-- An operation; `saved` says whether `persister.Save` succeeds if it is called. -/
def MemoryBackedStore.call (s : MemoryBackedStore) (op : StoreOp) (saved : Bool) :
    Except Error op.Val × MemoryBackedStore :=
  match s.st.mutate op with
  | (.error e, st) => (.error e, { s with st })
  | (.ok v, st) =>
    if op.saves v then
      if saved then (.ok v, ⟨st, st⟩) else (.error .failed, { s with st })
    else (.ok v, { s with st })

/-- The operations of a history, one after the other, each with what becomes of its save. -/
def MemoryBackedStore.after : MemoryBackedStore → List (StoreOp × Bool) → MemoryBackedStore
  | s, [] => s
  | s, (op, saved) :: history => (s.call op saved).2.after history

namespace MemoryBackedStore

variable {s : MemoryBackedStore}

theorem call_st (op : StoreOp) (saved : Bool) : (s.call op saved).2.st = (s.st.mutate op).2 := by
  unfold call
  split
  next h => rw [h]
  next h => split_ifs <;> rw [h]

/-- **A rule for histories**: what every operation keeps, holds in memory and of the snapshot. -/
theorem after_induct {p : StoreState → Prop} (hmutate : ∀ st op, p st → p (st.mutate op).2)
    (hst : p s.st) (hpersisted : p s.persisted) (history : List (StoreOp × Bool)) :
    p (s.after history).st ∧ p (s.after history).persisted := by
  induction history generalizing s with
  | nil => exact ⟨hst, hpersisted⟩
  | cons x history ih =>
    refine ih ?_ ?_
    · rw [call_st]
      exact hmutate _ _ hst
    unfold call
    split
    · exact hpersisted
    next v st heq =>
    split_ifs
    · have hnext := hmutate s.st x.1 hst
      rw [heq] at hnext
      exact hnext
    · exact hpersisted
    · exact hpersisted

end MemoryBackedStore

/-! ## Answers -/

/-- The `Get` and `List` calls. -/
inductive Query
  | getBucket (name : Bytes)
  | listBuckets
  | getConfig (kind : ConfigKind) (bucket : Bytes)
  | getObjectTagging (bucket key versionID : Bytes)
  | listObjects (bucket : Bytes)
  | listObjectVersions (bucket : Bytes)
  | getLatestObjectVersion (bucket key : Bytes)
  | getObjectVersion (bucket key versionID : Bytes)
  | listMultipartUploads (bucket pre : Bytes)
  | getMultipartUpload (uploadID : Bytes)
  | getCredentialRecord (accessKeyID : Bytes)

def Query.Val : Query → Type
  | getBucket _ => Bucket
  | listBuckets => Multiset Bucket
  | getConfig kind _ => kind.Record
  | getObjectTagging .. => ObjectTagging
  | listObjects _ | listObjectVersions _ => Multiset ObjectVersion
  | getLatestObjectVersion .. | getObjectVersion .. => ObjectVersion
  | listMultipartUploads .. => Multiset MultipartUpload
  | getMultipartUpload _ => MultipartUpload × List MultipartPart
  | getCredentialRecord _ => CredentialRecord

def StoreState.answer (st : StoreState) : (q : Query) → Except Error q.Val
  | .getBucket name => st.getBucket name
  | .listBuckets => .ok (.ofList (st.buckets.entries.map Sigma.snd))
  | .getConfig kind bucket => st.getConfig kind bucket
  | .getObjectTagging bucket key versionID => st.getObjectTagging bucket key versionID
  | .listObjects bucket => .ok (.ofList (st.listObjects bucket))
  | .listObjectVersions bucket => (st.listObjectVersions bucket).map .ofList
  | .getLatestObjectVersion bucket key => st.getLatestObjectVersion bucket key
  | .getObjectVersion bucket key versionID => st.getObjectVersion bucket key versionID
  | .listMultipartUploads bucket pre => (st.listMultipartUploads bucket pre).map .ofList
  | .getMultipartUpload uploadID => st.getMultipartUpload uploadID
  | .getCredentialRecord accessKeyID => st.getCredentialRecord accessKeyID

/-- Two states that no query tells apart. -/
def StoreState.Alike (st st' : StoreState) : Prop := ∀ q, st.answer q = st'.answer q

end S000.Metadata
