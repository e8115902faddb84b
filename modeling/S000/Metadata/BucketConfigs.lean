import S000.Metadata.Database

/-!
# Metadata/BucketConfigs — what a deleted bucket leaves behind

There are four implementations of `DeleteBucket`.  The memory-backed store deletes the seven
configurations with the bucket, its transaction five of them, the SQL store and its transaction none.
A configuration that is absent stays absent until it is put (`Absent`, and one lemma for each way a
store goes on), so the next bucket of the name is bare exactly where what the implementation does not
delete was absent before (`deletedBucket_bare_iff`).
-/

namespace S000.Metadata

open List Function Sqlite

/-- The operation is a put of that configuration, successful or not. -/
def StoreOp.PutsConfig (kind : ConfigKind) (bucket : Bytes) : StoreOp → Prop
  | .putConfig kind' cfg => kind' = kind ∧ kind'.bucket cfg = bucket
  | _ => False

section Maps

variable {configs : (kind : ConfigKind) → AList fun _ : Bytes => kind.Record}
  {kind kind' : ConfigKind} {bucket bucket' : Bytes}

theorem lookup_update_erase :
    (update configs kind' ((configs kind').erase bucket') kind).lookup bucket =
      if kind = kind' ∧ bucket = bucket' then none else (configs kind).lookup bucket := by
  by_cases hkind : kind = kind'
  · subst hkind
    rw [update_self]
    split_ifs with h
    · rw [h.2, AList.lookup_erase]
    · exact AList.lookup_erase_ne fun hb => h ⟨rfl, hb⟩
  · rw [update_of_ne hkind, if_neg fun h => hkind h.1]

theorem lookup_update_insert {cfg : kind'.Record} (h : ¬ (kind' = kind ∧ bucket' = bucket)) :
    (update configs kind' ((configs kind').insert bucket' cfg) kind).lookup bucket =
      (configs kind).lookup bucket := by
  by_cases hkind : kind = kind'
  · subst hkind
    rw [update_self, AList.lookup_insert_ne fun hb => h ⟨rfl, hb.symm⟩]
  · rw [update_of_ne hkind]

end Maps

/-! ## The memory-backed store -/

namespace StoreState

def Absent (st : StoreState) (kind : ConfigKind) (bucket : Bytes) : Prop :=
  (st.configs kind).lookup bucket = none

variable {st : StoreState} {kind : ConfigKind} {bucket : Bytes}

theorem getConfig_eq_notFound_iff :
    st.getConfig kind bucket = .error .notFound ↔ st.Absent kind bucket := by
  unfold getConfig Absent
  split <;> simp [*]

variable {kind' : ConfigKind} {bucket' : Bytes}

theorem Absent.eraseConfig (h : st.Absent kind bucket) :
    (st.eraseConfig kind' bucket').Absent kind bucket := by
  rw [Absent, StoreState.eraseConfig, lookup_update_erase, h, ite_self]

theorem lookup_eraseConfigs (kinds : List ConfigKind) :
    ((st.eraseConfigs kinds bucket).configs kind).lookup bucket =
      if kind ∈ kinds then none else (st.configs kind).lookup bucket := by
  induction kinds generalizing st with
  | nil => rfl
  | cons k kinds ih =>
    rw [eraseConfigs, foldl_cons, ← eraseConfigs, ih, eraseConfig, lookup_update_erase]
    by_cases hk : kind = k
    · simp [hk]
    · simp [hk]

variable {kinds : List ConfigKind}

theorem absent_dropBucket_iff {u : Unit} (h : (st.dropBucket kinds bucket).1 = .ok u) :
    (st.dropBucket kinds bucket).2.Absent kind bucket ↔ kind ∈ kinds ∨ st.Absent kind bucket := by
  unfold dropBucket at h ⊢
  split_ifs at h ⊢
  rw [Absent, lookup_eraseConfigs]
  split_ifs with hk
  · simp [hk]
  · simp [hk, Absent]

theorem Absent.dropBucket (h : st.Absent kind bucket) :
    (st.dropBucket kinds bucket').2.Absent kind bucket :=
  dropBucket_induct (p := fun st => st.Absent kind bucket) (fun _ _ h => h)
    (fun _ _ _ h => h.eraseConfig) kinds bucket' h

theorem Absent.memoryTx (h : st.Absent kind bucket) (c : TxCall) :
    (st.memoryTx c).2.Absent kind bucket := by
  cases c with
  | deleteBucket bucket' => exact h.dropBucket
  | _ => exact h

variable {op : StoreOp}

/-- **What is absent stays absent until it is put.** -/
theorem Absent.mutate (h : st.Absent kind bucket) (hop : ¬ op.PutsConfig kind bucket) :
    (st.mutate op).2.Absent kind bucket := by
  cases op with
  | deleteBucket bucket' => exact h.dropBucket
  | putConfig kind' cfg =>
    unfold StoreState.mutate StoreState.putConfig
    dsimp only
    split_ifs
    · exact (lookup_update_insert hop).trans h
    · exact h
  | deleteConfig kind' bucket' =>
    unfold StoreState.mutate StoreState.deleteConfig
    dsimp only
    split_ifs
    · exact h.eraseConfig
    · exact h
  | deleteObjectTagging bucket' key versionID =>
    unfold StoreState.mutate StoreState.deleteObjectTagging
    dsimp only
    split_ifs <;> exact h
  | runInTx fn =>
    exact runInTx_induct (p := fun st => st.Absent kind bucket) (fun _ c h => h.memoryTx c) h fn
  | repairConsistency =>
    rw [StoreState.mutate_repairConsistency]
    dsimp only
    exact repairState_induct (p := fun st => st.Absent kind bucket) (fun _ _ _ h => h) (fun _ _ h => h)
      (fun _ _ _ h => h.eraseConfig) h
  | _ => exact h

end StoreState

namespace MemoryBackedStore

variable {s : MemoryBackedStore} {kind : ConfigKind} {bucket : Bytes}

theorem mutate_of_call {saved : Bool} {v : op.Val}
    (h : (s.call op saved).1 = .ok v) : (s.st.mutate op).1 = .ok v := by
  unfold call at h
  split at h
  next => cases h
  next heq =>
    rw [heq]
    split_ifs at h <;> exact h

theorem absent_after (h : s.st.Absent kind bucket) {history : List (StoreOp × Bool)}
    (hputs : ∀ x ∈ history, ¬ x.1.PutsConfig kind bucket) :
    (s.after history).st.Absent kind bucket := by
  induction history generalizing s with
  | nil => exact h
  | cons x history ih =>
    refine ih ?_ fun y hy => hputs y (mem_cons_of_mem x hy)
    rw [call_st]
    exact h.mutate (hputs x mem_cons_self)

/-- Until it is put, the `Get` call of every kind of configuration returns `ErrNotFound`. -/
def Bare (s : MemoryBackedStore) (bucket : Bytes) : Prop :=
  ∀ kind (history : List (StoreOp × Bool)), (∀ x ∈ history, ¬ x.1.PutsConfig kind bucket) →
    (s.after history).st.answer (.getConfig kind bucket) = .error .notFound

theorem bare_iff : s.Bare bucket ↔ ∀ kind, s.st.Absent kind bucket := by
  constructor
  · exact fun h kind => StoreState.getConfig_eq_notFound_iff.1 (h kind [] nofun)
  · exact fun h kind history hputs =>
      StoreState.getConfig_eq_notFound_iff.2 (absent_after (h kind) hputs)

end MemoryBackedStore

/-- A transaction goes on with any calls, commits, and the bucket is bare from then on. -/
def StoreState.TxBare (st : StoreState) (bucket : Bytes) : Prop :=
  ∀ (calls : List TxCall) (persisted : StoreState),
    MemoryBackedStore.Bare ⟨calls.foldl (fun st c => (st.memoryTx c).2) st, persisted⟩ bucket

theorem StoreState.txBare_iff {st : StoreState} {bucket : Bytes} :
    st.TxBare bucket ↔ ∀ kind, st.Absent kind bucket := by
  constructor
  · exact fun h => MemoryBackedStore.bare_iff.1 (h [] {})
  intro h calls persisted
  refine MemoryBackedStore.bare_iff.2 fun kind => ?_
  exact foldlRecOn (motive := fun st : StoreState => st.Absent kind bucket) calls _ (h kind)
    fun _ h c _ => h.memoryTx c

/-! ## The SQL store -/

def Statement.PutsConfig (kind : ConfigKind) (bucket : Bytes) : Statement → Prop
  | .upsertConfig kind' cfg => kind' = kind ∧ kind'.bucket cfg = bucket
  | _ => False

namespace Database

def Absent (db : Database) (kind : ConfigKind) (bucket : Bytes) : Prop :=
  (db.configs kind).lookup bucket = none

variable {db : Database} {dialect : Dialect} {kind : ConfigKind} {bucket : Bytes}

theorem Absent.execute (h : db.Absent kind bucket) {s : Statement}
    (hs : ¬ s.PutsConfig kind bucket) : (db.execute dialect s).2.Absent kind bucket := by
  cases s with
  | upsertConfig kind' cfg => exact (lookup_update_insert hs).trans h
  | deleteConfig kind' bucket' => exact lookup_update_erase.trans (by rw [h, ite_self])
  | insertBucket | insertVersion | insertUpload =>
    unfold Database.execute
    dsimp only
    split_ifs <;> exact h
  | _ => exact h

end Database

namespace Sqlite

variable {kind : ConfigKind} {bucket : Bytes}

/-- The method puts no configuration of the kind for the bucket. -/
abbrev PutsNone {α : Type} (kind : ConfigKind) (bucket : Bytes) (p : Sql α) : Prop :=
  Sql.Uses (fun s => ¬ s.PutsConfig kind bucket) p

theorem putsNone_putObjectVersion (v : ObjectVersion) : PutsNone kind bucket (putObjectVersion v) := by
  refine uses_ite (fun _ => (uses_sql id).bind fun _ => ?_) fun _ => ?_
  all_goals exact uses_last id

theorem putsNone_tx : ∀ c, PutsNone kind bucket (tx c)
  | .createBucket _ | .createMultipartUpload _ | .upsertMultipartPart _ | .upsertCredentialRecord _ =>
    uses_last id
  | .deleteBucket _ | .updateBucketVersioning .. => (uses_sql id).bind fun _ => uses_requireAffected _
  | .putObjectVersion v => putsNone_putObjectVersion v
  | .deleteObject .. => putsNone_putObjectVersion _
  | .deleteMultipartUpload _ => (uses_sql id).bind fun _ => (uses_requireAffected _).bind fun _ =>
    uses_last id

theorem putsNone_txFunc (fn : TxFunc) : PutsNone kind bucket (txFunc fn) := by
  have htx : ∀ c, Prog.Only (fun _ _ => True)
      (fun s => ¬ Statement.PutsConfig kind bucket s) (fun _ => True) (tx c).run := putsNone_tx
  exact Prog.only_translate htx fn

variable {α : Type}

theorem putsNone_inTx {p : Sql α} (hp : PutsNone kind bucket p) : PutsNone kind bucket (inTx p) :=
  (uses_sql id).bind fun _ => hp.bind fun _ => uses_last id

end Sqlite

namespace Database

variable {db : Database} {dialect : Dialect} {kind : ConfigKind} {bucket : Bytes} {fails : List Bool}

theorem Absent.run {p : Sql α} (h : db.Absent kind bucket)
    (hp : PutsNone kind bucket p) : (db.run dialect p fails).2.Absent kind bucket :=
  run_of_uses (P := fun db => db.Absent kind bucket) (fun _ _ h hs => execute h hs) hp h

theorem Absent.transact {p : Sql α} (h : db.Absent kind bucket)
    (hp : PutsNone kind bucket p) : (db.transact dialect p fails).2.Absent kind bucket := by
  have hrun : (db.run dialect (inTx p) fails).2.Absent kind bucket := h.run (putsNone_inTx hp)
  unfold Database.transact
  split
  next heq =>
    rw [heq] at hrun
    exact hrun
  next => exact h

/-- **What is absent stays absent until it is put**, in the SQL store. -/
theorem Absent.call (h : db.Absent kind bucket) (hop : ¬ op.PutsConfig kind bucket) :
    (db.call dialect fails op).2.Absent kind bucket := by
  cases op with
  | createBucket b => exact h.run (putsNone_tx (.createBucket b))
  | updateBucketVersioning b status => exact h.run (putsNone_tx (.updateBucketVersioning b status))
  | deleteBucket b => exact h.run (putsNone_tx (.deleteBucket b))
  | putConfig kind' cfg =>
    exact h.run ((uses_sql id).bind fun _ => uses_last hop)
  | deleteConfig kind' b => exact h.run ((uses_sql id).bind fun _ => uses_requireAffected _)
  | putObjectTagging cfg => exact h.run (uses_last id)
  | deleteObjectTagging b key versionID =>
    exact h.run ((uses_sql id).bind fun _ => uses_requireAffected _)
  | putObjectVersion v => exact h.run (putsNone_putObjectVersion v)
  | deleteObject b key versionID time => exact h.run (putsNone_putObjectVersion _)
  | updateObjectMetadata b key versionID metadata =>
    exact h.run ((uses_sql id).bind fun _ => uses_requireAffected _)
  | deleteObjectVersion b key versionID =>
    have hget : PutsNone kind bucket (getObjectVersion b key versionID) :=
      uses_ite (fun _ => uses_sql id) fun _ => uses_sql id
    exact h.run (hget.bind fun _ => (uses_sql id).bind fun _ => (uses_requireAffected _).bind fun _ =>
      uses_pure _)
  | deleteAllObjectVersions b key =>
    exact h.run ((uses_sql id).bind fun _ => uses_ite (fun _ => uses_throw _)
      fun _ => uses_last id)
  | createMultipartUpload u => exact h.run (putsNone_tx (.createMultipartUpload u))
  | deleteMultipartUpload uploadID => exact h.transact (putsNone_tx (.deleteMultipartUpload uploadID))
  | upsertMultipartPart p =>
    exact h.run ((uses_sql id).bind fun _ => (uses_sql id).bind fun _ =>
      uses_last id)
  | upsertCredentialRecord rec => exact h.run (putsNone_tx (.upsertCredentialRecord rec))
  | runInTx fn => exact h.transact (putsNone_txFunc fn)
  | repairConsistency => exact h

variable (dialect)

/-- The operations of a history, one after the other, each with the statements that fail. -/
def after : Database → List (StoreOp × List Bool) → Database
  | db, [] => db
  | db, (op, fails) :: history => after (db.call dialect fails op).2 history

/-- `GetBucketWebsite` and its like, where no statement fails. -/
def getConfig (db : Database) (kind : ConfigKind) (bucket : Bytes) : Except Error kind.Record :=
  (db.run dialect (Sqlite.getConfig kind bucket) []).1

/-- Until it is put, the `Get` call of every kind of configuration returns `ErrNotFound`. -/
def Bare (db : Database) (bucket : Bytes) : Prop :=
  ∀ kind (history : List (StoreOp × List Bool)), (∀ x ∈ history, ¬ x.1.PutsConfig kind bucket) →
    (after dialect db history).getConfig dialect kind bucket = .error .notFound

/-- A transaction goes on with any calls, commits, and the bucket is bare from then on. -/
def TxBare (db : Database) (bucket : Bytes) : Prop :=
  ∀ calls : List (TxCall × List Bool),
    Bare dialect (calls.foldl (fun db x => (db.txCall dialect x.2 x.1).2) db) bucket

variable {dialect}

theorem getConfig_eq_notFound_iff :
    db.getConfig dialect kind bucket = .error .notFound ↔ db.Absent kind bucket := by
  have hget : db.getConfig dialect kind bucket = scanRow ((db.configs kind).lookup bucket) := rfl
  rw [hget, Absent]
  cases (db.configs kind).lookup bucket <;> simp [scanRow]

theorem absent_after (h : db.Absent kind bucket) {history : List (StoreOp × List Bool)}
    (hputs : ∀ x ∈ history, ¬ x.1.PutsConfig kind bucket) :
    (after dialect db history).Absent kind bucket := by
  induction history generalizing db with
  | nil => exact h
  | cons x history ih =>
    exact ih (h.call (hputs x mem_cons_self)) fun y hy => hputs y (mem_cons_of_mem x hy)

theorem bare_iff : db.Bare dialect bucket ↔ ∀ kind, db.Absent kind bucket := by
  constructor
  · exact fun h kind => getConfig_eq_notFound_iff.1 (h kind [] nofun)
  · exact fun h kind history hputs => getConfig_eq_notFound_iff.2 (absent_after (h kind) hputs)

theorem txBare_iff : db.TxBare dialect bucket ↔ ∀ kind, db.Absent kind bucket := by
  constructor
  · exact fun h => bare_iff.1 (h [])
  intro h calls
  refine bare_iff.2 fun kind => ?_
  exact foldlRecOn (motive := fun db : Database => db.Absent kind bucket) calls _ (h kind)
    fun _ h x _ => h.run (putsNone_tx x.1)

/-- **`DELETE FROM buckets` deletes from no other table.** -/
theorem configs_deleteBucket : (db.run dialect (deleteBucket bucket) fails).2.configs = db.configs := by
  have huses : Sql.Uses (fun s => s = .deleteBucket bucket) (deleteBucket bucket) :=
    (uses_sql (G := fun s => s = .deleteBucket bucket) rfl).bind fun _ => uses_requireAffected _
  refine run_of_uses (P := fun db' => db'.configs = db.configs) (fun db' s h hs => ?_) huses rfl
  obtain rfl : s = .deleteBucket bucket := hs
  exact h

theorem absent_deleteBucket_iff :
    (db.run dialect (deleteBucket bucket) fails).2.Absent kind bucket ↔ db.Absent kind bucket := by
  rw [Absent, configs_deleteBucket, ← Absent]

end Database

/-! ## Deleted buckets -/

/-- The configurations that the transaction of the memory-backed store does not delete. -/
theorem StoreState.absent_txDeleteBucket_iff {st : StoreState} {bucket : Bytes} {u : Unit}
    (h : (st.txDeleteBucket bucket).1 = .ok u) :
    (∀ kind, (st.txDeleteBucket bucket).2.Absent kind bucket) ↔
      st.Absent .notification bucket ∧ st.Absent .replication bucket := by
  have hiff (kind : ConfigKind) : (st.txDeleteBucket bucket).2.Absent kind bucket ↔ _ :=
    absent_dropBucket_iff h
  constructor
  · intro hall
    exact ⟨((hiff _).1 (hall .notification)).resolve_left (by decide),
      ((hiff _).1 (hall .replication)).resolve_left (by decide)⟩
  rintro ⟨hnotification, hreplication⟩ kind
  refine (hiff kind).2 ?_
  cases kind with
  | notification => exact .inr hnotification
  | replication => exact .inr hreplication
  | _ => exact .inl (by decide)

/-- **When a deleted bucket leaves no configuration behind.**  In the memory-backed store, always; in
its transaction, if there is no notification and no replication; in the SQL store and in its
transaction, if there is no configuration at all. -/
theorem deletedBucket_bare_iff (bucket : Bytes) :
    (∀ (s : MemoryBackedStore) saved, (s.call (.deleteBucket bucket) saved).1 = .ok () →
      (s.call (.deleteBucket bucket) saved).2.Bare bucket) ∧
    (∀ st : StoreState, (st.memoryTx (.deleteBucket bucket)).1 = .ok () →
      ((st.memoryTx (.deleteBucket bucket)).2.TxBare bucket ↔
        st.getConfig .notification bucket = .error .notFound ∧
          st.getConfig .replication bucket = .error .notFound)) ∧
    (∀ dialect (db : Database) fails, (db.call dialect fails (.deleteBucket bucket)).1 = .ok () →
      ((db.call dialect fails (.deleteBucket bucket)).2.Bare dialect bucket ↔
        ∀ kind, db.getConfig dialect kind bucket = .error .notFound)) ∧
    (∀ dialect (db : Database) fails, (db.txCall dialect fails (.deleteBucket bucket)).1 = .ok () →
      ((db.txCall dialect fails (.deleteBucket bucket)).2.TxBare dialect bucket ↔
        ∀ kind, db.getConfig dialect kind bucket = .error .notFound)) := by
  refine ⟨fun s saved h => ?_, fun st h => ?_, fun dialect db fails _ => ?_,
    fun dialect db fails _ => ?_⟩
  · rw [MemoryBackedStore.bare_iff, MemoryBackedStore.call_st]
    have hok : (s.st.deleteBucket bucket).1 = .ok () := MemoryBackedStore.mutate_of_call h
    exact fun kind => (StoreState.absent_dropBucket_iff hok).2 (.inl (by cases kind <;> decide))
  · rw [StoreState.txBare_iff, StoreState.getConfig_eq_notFound_iff,
      StoreState.getConfig_eq_notFound_iff]
    exact StoreState.absent_txDeleteBucket_iff h
  · rw [Database.bare_iff]
    exact forall_congr' fun kind => by
      rw [Database.getConfig_eq_notFound_iff]
      exact Database.absent_deleteBucket_iff
  · rw [Database.txBare_iff]
    exact forall_congr' fun kind => by
      rw [Database.getConfig_eq_notFound_iff]
      exact Database.absent_deleteBucket_iff

/-! ### A name that is used again -/

/-- A bucket `b`. -/
def plainBucket : Bucket := ⟨str "b", str "us-east-1", str "Suspended", 0⟩

def publicPolicy : BucketPolicy := ⟨plainBucket.name, str "Allow *", true⟩

def notifyAll : BucketDocument := ⟨plainBucket.name, str "NotificationConfiguration", true⟩

/-- The theorem at a bucket with a policy, in each of the four: the policy is gone where
configurations are deleted, and without it the SQL store has a bare bucket, too. -/
theorem deletedBucket_bare_policy :
    let s := MemoryBackedStore.after {}
      [(.createBucket plainBucket, true), (.putConfig .policy publicPolicy, true)]
    let db := Database.after .sqlite .empty [(.createBucket plainBucket, [])]
    (s.call (.deleteBucket plainBucket.name) true).2.Bare plainBucket.name ∧
      (s.st.memoryTx (.deleteBucket plainBucket.name)).2.TxBare plainBucket.name ∧
      (db.call .sqlite [] (.deleteBucket plainBucket.name)).2.Bare .sqlite plainBucket.name ∧
      (db.txCall .sqlite [] (.deleteBucket plainBucket.name)).2.TxBare .sqlite plainBucket.name := by
  have h := deletedBucket_bare_iff plainBucket.name
  refine ⟨h.1 _ true rfl, (h.2.1 _ rfl).2 ⟨rfl, rfl⟩, (h.2.2.1 .sqlite _ [] rfl).2 fun kind => ?_,
    (h.2.2.2 .sqlite _ [] rfl).2 fun kind => ?_⟩
  all_goals cases kind <;> rfl

/-- **An old policy is the policy of the next bucket of the name.**  `CreateBucket`,
`PutBucketPolicy`, `DeleteBucket` and `CreateBucket` succeed in the SQL store, and then
`GetBucketPolicy` finds the policy; in a transaction of the memory-backed store the same happens to a
notification. -/
theorem policy_outlives_bucket :
    (let db := Database.after .sqlite .empty
        [(.createBucket plainBucket, []), (.putConfig .policy publicPolicy, [])]
      let deleted := db.call .sqlite [] (.deleteBucket plainBucket.name)
      let created := deleted.2.call .sqlite [] (.createBucket plainBucket)
      deleted.1 = .ok () ∧ created.1 = .ok () ∧
        created.2.getConfig .sqlite .policy plainBucket.name = .ok publicPolicy) ∧
    (let s := MemoryBackedStore.after {}
        [(.createBucket plainBucket, true), (.putConfig .notification notifyAll, true)]
      let deleted := s.st.memoryTx (.deleteBucket plainBucket.name)
      let created := deleted.2.memoryTx (.createBucket plainBucket)
      deleted.1 = .ok () ∧ created.1 = .ok () ∧
        created.2.getConfig .notification plainBucket.name = .ok notifyAll) :=
  ⟨⟨rfl, rfl, rfl⟩, ⟨rfl, rfl, rfl⟩⟩

end S000.Metadata
