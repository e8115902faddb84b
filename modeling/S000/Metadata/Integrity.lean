import S000.Metadata.BucketConfigs

/-!
# Metadata/Integrity — parts and their uploads

A part belongs to an upload.  The memory-backed store keeps it so: `UpsertMultipartPart` looks for the
upload under the lock, in a transaction as well.  The SQL store has no foreign key.  Outside a
transaction it looks for the upload in a statement of its own, so that the upload can go before the
part comes; in a transaction it does not look.  What it takes is that **every `INSERT` of a part finds
the upload** (`PartGuard`, `SharedGuard`), and no more (`parts_owned`).
-/

namespace S000.Metadata

open Prog Sqlite

/-! ## The memory-backed store -/

namespace MemoryState

def PartsOwned (st : MemoryState) : Prop := ∀ uploadID ∈ st.parts, uploadID ∈ st.multipart

variable {st : MemoryState}

theorem PartsOwned.putObjectVersion (h : st.PartsOwned) (v : ObjectVersion) :
    (st.putObjectVersion v).PartsOwned := by
  unfold MemoryState.putObjectVersion dropNullVersion
  split_ifs <;> exact h

theorem PartsOwned.erase (h : st.PartsOwned) (uploadID : Bytes) :
    PartsOwned { st with
      multipart := st.multipart.erase uploadID, parts := st.parts.erase uploadID } := by
  intro uploadID' hid
  rw [AList.mem_erase] at hid ⊢
  exact ⟨hid.1, h uploadID' hid.2⟩

theorem upsertMultipartPart_of_notMem {p : MultipartPart} (hp : p.uploadID ∉ st.multipart) :
    st.upsertMultipartPart p = (.error .notFound, st) := if_neg hp

end MemoryState

namespace StoreState

variable {st : StoreState}

theorem partsOwned_dropBucket (h : st.PartsOwned) (kinds : List ConfigKind) (bucket : Bytes) :
    (st.dropBucket kinds bucket).2.PartsOwned :=
  dropBucket_induct (p := fun st => st.PartsOwned) (fun _ _ h => h) (fun _ _ _ h => h) kinds bucket h

theorem partsOwned_memoryTx (h : st.PartsOwned) (c : TxCall) : (st.memoryTx c).2.PartsOwned := by
  cases c with
  | createBucket b =>
    unfold memoryTx lift MemoryState.createBucket
    dsimp only
    split_ifs <;> exact h
  | deleteBucket bucket => exact partsOwned_dropBucket h _ bucket
  | updateBucketVersioning bucket status =>
    unfold memoryTx lift MemoryState.updateBucketVersioning
    dsimp only
    split <;> exact h
  | putObjectVersion v => exact h.putObjectVersion v
  | deleteObject bucket key versionID time => exact h.putObjectVersion _
  | createMultipartUpload u =>
    unfold memoryTx lift MemoryState.createMultipartUpload
    dsimp only
    split_ifs
    · exact h
    · exact fun uploadID hid => (AList.mem_insert _).2 (.inr (h uploadID hid))
  | deleteMultipartUpload uploadID =>
    unfold memoryTx lift MemoryState.deleteMultipartUpload
    dsimp only
    split_ifs
    · exact h.erase uploadID
    · exact h
  | upsertMultipartPart p =>
    unfold memoryTx lift MemoryState.upsertMultipartPart
    dsimp only
    split_ifs with hp
    · intro uploadID hid
      rcases (AList.mem_insert _).1 hid with rfl | hid
      · exact hp
      · exact h uploadID hid
    · exact h
  | upsertCredentialRecord rec => exact h

theorem partsOwned_mutate (h : st.PartsOwned) (op : StoreOp) : (st.mutate op).2.PartsOwned := by
  cases op with
  | createBucket b => exact partsOwned_memoryTx h (.createBucket b)
  | updateBucketVersioning bucket status =>
    exact partsOwned_memoryTx h (.updateBucketVersioning bucket status)
  | createMultipartUpload u => exact partsOwned_memoryTx h (.createMultipartUpload u)
  | deleteMultipartUpload uploadID => exact partsOwned_memoryTx h (.deleteMultipartUpload uploadID)
  | upsertMultipartPart p => exact partsOwned_memoryTx h (.upsertMultipartPart p)
  | deleteBucket bucket => exact partsOwned_dropBucket h _ bucket
  | putConfig kind cfg =>
    unfold mutate putConfig
    dsimp only
    split_ifs <;> exact h
  | deleteConfig kind bucket =>
    unfold mutate deleteConfig
    dsimp only
    split_ifs <;> exact h
  | deleteObjectTagging bucket key versionID =>
    unfold mutate deleteObjectTagging
    dsimp only
    split_ifs <;> exact h
  | putObjectVersion v => exact h.putObjectVersion v
  | deleteObject bucket key versionID time => exact h.putObjectVersion _
  | updateObjectMetadata bucket key versionID metadata =>
    unfold mutate lift MemoryState.updateObjectMetadata
    dsimp only
    split <;> exact h
  | deleteObjectVersion bucket key versionID =>
    unfold mutate lift MemoryState.deleteObjectVersion
    dsimp only
    split
    · exact h
    · split_ifs <;> exact h
  | deleteAllObjectVersions bucket key =>
    unfold mutate lift MemoryState.deleteAllObjectVersions
    dsimp only
    split_ifs <;> exact h
  | putObjectTagging | upsertCredentialRecord => exact h
  | runInTx fn =>
    exact runInTx_induct (p := fun st => st.PartsOwned) (fun _ c h => partsOwned_memoryTx h c) h fn
  | repairConsistency =>
    rw [mutate_repairConsistency]
    dsimp only
    exact repairState_induct (p := fun st => st.PartsOwned) (fun _ _ _ h => h)
      (fun _ uploadID h => h.erase uploadID) (fun _ _ _ h => h) h

end StoreState

/-- **In the memory-backed store every part belongs to an upload**, whatever is called. -/
theorem MemoryBackedStore.partsOwned_after {s : MemoryBackedStore} (h : s.st.PartsOwned)
    (history : List (StoreOp × Bool)) : (s.after history).st.PartsOwned := by
  induction history generalizing s with
  | nil => exact h
  | cons x history ih =>
    refine ih ?_
    rw [call_st]
    exact StoreState.partsOwned_mutate h x.1

/-! ## Statements -/

namespace Database

def PartsOwned (db : Database) : Prop := ∀ k ∈ db.parts, k.1 ∈ db.uploads

end Database

/-- A statement that deletes uploads and leaves their parts. -/
def Statement.DropsUpload : Statement → Prop
  | .deleteUpload _ => True
  | _ => False

/-- The `INSERT` of a part finds the upload, and the `DELETE` of parts does not fail. -/
def PartGuard (db : Database) (e : Event statements Bool) : Prop :=
  match e.op with
  | .upsertPart p => p.uploadID ∈ db.uploads
  | .deleteParts _ => e.fault = false
  | _ => True

namespace Database

variable {db : Database} {dialect : Dialect}

theorem mem_foldl_erase {k : Bytes × ℤ} {keys : List (Bytes × ℤ)}
    {parts : AList fun _ : Bytes × ℤ => MultipartPart}
    (h : k ∈ keys.foldl (fun parts k => parts.erase k) parts) : k ∈ parts ∧ k ∉ keys := by
  induction keys generalizing parts with
  | nil => exact ⟨h, List.not_mem_nil⟩
  | cons k' keys ih =>
    obtain ⟨hmem, hkeys⟩ := ih h
    rw [AList.mem_erase] at hmem
    exact ⟨hmem.2, by simp [hmem.1, hkeys]⟩

theorem mem_parts_deleteParts {uploadID : Bytes} {k : Bytes × ℤ}
    (h : k ∈ (db.execute dialect (.deleteParts uploadID)).2.parts) : k ∈ db.parts ∧ k.1 ≠ uploadID := by
  obtain ⟨hmem, hkeys⟩ := mem_foldl_erase h
  refine ⟨hmem, fun hk => hkeys ?_⟩
  exact List.mem_filter.2 ⟨AList.mem_keys.1 hmem, by simpa using hk⟩

variable {s : Statement}

/-- **A statement that deletes no upload keeps the parts owned**, if a part it inserts is. -/
theorem PartsOwned.execute (h : db.PartsOwned) (hs : ¬ s.DropsUpload)
    (hpart : ∀ p, s = .upsertPart p → p.uploadID ∈ db.uploads) :
    (db.execute dialect s).2.PartsOwned := by
  cases s with
  | upsertPart p =>
    intro k hk
    rcases (AList.mem_insert _).1 hk with rfl | hk
    · exact hpart p rfl
    · exact h k hk
  | deleteParts uploadID => exact fun k hk => h k (mem_parts_deleteParts hk).1
  | insertUpload u =>
    unfold execute
    dsimp only
    split_ifs
    · exact h
    · exact fun k hk => (AList.mem_insert _).2 (.inr (h k hk))
  | deleteUpload uploadID => exact absurd trivial hs
  | insertBucket b =>
    unfold execute
    dsimp only
    split_ifs <;> exact h
  | insertVersion v =>
    unfold execute
    dsimp only
    split_ifs <;> exact h
  | _ => exact h

end Database

/-! ## Transactions -/

/-- The method keeps the parts owned, in every run that the guard allows. -/
def Sql.Keeps {α : Type} (dialect : Dialect) (p : Sql α) : Prop :=
  ∀ db, db.PartsOwned →
    (database dialect).EnsuresWhen PartGuard (fun _ db => db.PartsOwned) p.run db

section Keeps

variable {α β : Type} {dialect : Dialect} {p : Sql α}

theorem keeps_pure (a : α) : Sql.Keeps dialect (pure a) := fun _ h => h

theorem keeps_sql (hs : ¬ s.DropsUpload) : Sql.Keeps dialect (sql s) := by
  intro db h f hguard
  cases f with
  | true => exact h
  | false =>
    refine h.execute hs ?_
    rintro p rfl
    exact hguard

theorem Sql.Keeps.bind {f : α → Sql β} (hp : Keeps dialect p) (hf : ∀ a, Keeps dialect (f a)) :
    Keeps dialect (p >>= f) := by
  intro db h
  refine (Machine.ensuresWhen_bind (database dialect)).2 ((hp db h).mono fun r db' h' => ?_)
  cases r with
  | error e => exact h'
  | ok a => exact hf a db' h'

theorem keeps_requireAffected (n : ℕ) : Sql.Keeps dialect (requireAffected n) := by
  intro db h
  unfold requireAffected
  split_ifs <;> exact h

theorem keeps_putObjectVersion (v : ObjectVersion) : Sql.Keeps dialect (putObjectVersion v) := by
  unfold putObjectVersion
  split_ifs
  · exact (keeps_sql id).bind fun _ => (keeps_sql id).bind fun _ => keeps_pure _
  · exact (keeps_sql id).bind fun _ => keeps_pure _

variable {db : Database}

/-- The second half of `DeleteMultipartUpload`: nothing, or the parts go. -/
theorem ensuresWhen_deleteParts {uploadID : Bytes} {n : ℕ} (hnone : n = 0 → db.PartsOwned)
    (hrest : ∀ k ∈ db.parts, k.1 ≠ uploadID → k.1 ∈ db.uploads) :
    (database dialect).EnsuresWhen PartGuard (fun _ db => db.PartsOwned)
      (requireAffected n >>= fun _ => do let _ ← sql (.deleteParts uploadID)).run db := by
  unfold requireAffected
  split_ifs with hn
  · exact hnone hn
  intro f hguard
  obtain rfl : f = false := hguard
  intro k hk
  have hkept : k ∈ (db.execute dialect (.deleteParts uploadID)).2.parts := hk
  obtain ⟨hmem, hne⟩ := Database.mem_parts_deleteParts hkept
  exact hrest k hmem hne

/-- **The parts of an upload go in the statement after the one that deletes the upload.** -/
theorem keeps_deleteMultipartUpload (uploadID : Bytes) :
    Sql.Keeps dialect (deleteMultipartUpload uploadID) := by
  intro db h f _
  cases f with
  | true => exact h
  | false =>
    refine ensuresWhen_deleteParts (fun hn k hk => ?_) fun k hk hne => ?_
    · have hmem : uploadID ∉ db.uploads := by
        intro hmem
        simp [hmem] at hn
      exact AList.mem_erase.2 ⟨fun hk' => hmem (hk' ▸ h k hk), h k hk⟩
    · exact AList.mem_erase.2 ⟨hne, h k hk⟩

theorem keeps_tx : ∀ c, Sql.Keeps dialect (tx c)
  | .createBucket _ | .createMultipartUpload _ | .upsertMultipartPart _ | .upsertCredentialRecord _ =>
    (keeps_sql id).bind fun _ => keeps_pure _
  | .deleteBucket _ | .updateBucketVersioning .. => (keeps_sql id).bind fun _ => keeps_requireAffected _
  | .putObjectVersion v => keeps_putObjectVersion v
  | .deleteObject .. => keeps_putObjectVersion _
  | .deleteMultipartUpload uploadID => keeps_deleteMultipartUpload uploadID

theorem keeps_txFunc (fn : TxFunc) : Sql.Keeps dialect (txFunc fn) := by
  intro db h
  exact Machine.ensuresWhen_translate (fun c db h => keeps_tx c db h) fn h

theorem keeps_inTx (hp : Sql.Keeps dialect p) : Sql.Keeps dialect (inTx p) :=
  (keeps_sql id).bind fun _ => hp.bind fun _ => (keeps_sql id).bind fun _ => keeps_pure _

end Keeps

namespace Database

variable {db : Database} {dialect : Dialect}

def txEvents (dialect : Dialect) (db : Database) (p : Sql Unit) (fails : List Bool) :
    List (Event statements Bool) :=
  ((database dialect).exec (inTx p).run fails ⟨db, []⟩).2.events

variable {fails : List Bool}

/-- **A transaction whose statements the guard allows keeps the parts owned**; it may also not be
committed. -/
theorem PartsOwned.transact (h : db.PartsOwned) {p : Sql Unit} (hp : Sql.Keeps dialect p)
    (hguard : (db.transact dialect p fails).1 = .ok () →
      (database dialect).Allowed PartGuard db (db.txEvents dialect p fails)) :
    (db.transact dialect p fails).2.PartsOwned := by
  unfold Database.transact at hguard ⊢
  split
  next db' heq =>
    rw [heq] at hguard
    have hrun : ((database dialect).exec (inTx p).run fails ⟨db, []⟩).2.world.PartsOwned :=
      Machine.exec_of_ensuresWhen (keeps_inTx hp db h) fun es hes => by
        obtain rfl : db.txEvents dialect p fails = es := hes
        exact hguard rfl
    have hworld := congrArg Prod.snd heq
    exact hworld ▸ hrun
  next => exact h

end Database

/-! ## Operations that share a database

An operation outside a transaction is a row of statements, and other operations come between them.  The
database is SQLite, where transactions are serializable: from its first write to its commit a transaction
keeps all other writers out, and readers see what was there before it, so that its statements take effect
together. -/

inductive SharedCall
  | statement (s : Statement)
  | transaction (p : Sql Unit)

def SharedCall.Val : SharedCall → Type
  | statement s => Except Error s.Val
  | transaction _ => Except Error Unit

abbrev sharedCalls : Interface := ⟨SharedCall, SharedCall.Val⟩

/-- The shared database; for each call the statements that fail. -/
def shared : Machine sharedCalls (List Bool) Database where
  step db fails
    | .statement s => (database .sqlite).step db (fails.headD false) s
    | .transaction p => db.transact .sqlite p fails

namespace Sqlite

/-- A method, statement by statement. -/
def direct {α : Type} (p : Sql α) : Prog sharedCalls (Except Error α) :=
  p.run.translate fun s => op (I := sharedCalls) (.statement s)

/-- A method in a transaction of its own. -/
def isolated (p : Sql Unit) : Prog sharedCalls (Except Error Unit) :=
  op (I := sharedCalls) (.transaction p)

def operation : (op : StoreOp) → Prog sharedCalls (Except Error op.Val)
  | .createBucket b => direct (createBucket b)
  | .updateBucketVersioning bucket status => direct (updateBucketVersioning bucket status)
  | .deleteBucket bucket => direct (deleteBucket bucket)
  | .putConfig kind cfg => direct (putConfig kind cfg)
  | .deleteConfig kind bucket => direct (deleteConfig kind bucket)
  | .putObjectTagging cfg => direct (putObjectTagging cfg)
  | .deleteObjectTagging bucket key versionID => direct (deleteObjectTagging bucket key versionID)
  | .putObjectVersion v => direct (putObjectVersion v)
  | .deleteObject bucket key versionID time => direct (deleteObject bucket key versionID time)
  | .updateObjectMetadata bucket key versionID metadata =>
    direct (updateObjectMetadata bucket key versionID metadata)
  | .deleteObjectVersion bucket key versionID => direct (deleteObjectVersion bucket key versionID)
  | .deleteAllObjectVersions bucket key => direct (deleteAllObjectVersions bucket key)
  | .createMultipartUpload u => direct (createMultipartUpload u)
  | .deleteMultipartUpload uploadID => isolated (deleteMultipartUpload uploadID)
  | .upsertMultipartPart p => direct (upsertMultipartPart p)
  | .upsertCredentialRecord rec => direct (upsertCredentialRecord rec)
  | .runInTx fn => isolated (txFunc fn)
  | .repairConsistency => pure (.ok (0 : ℕ))

/-- Several operations, of which only the effects count. -/
def operations (ops : List StoreOp) : List (Prog sharedCalls Unit) :=
  ops.map fun op => operation op >>= fun _ => pure ()

end Sqlite

/-- The `INSERT` of a part finds the upload; and so it is in a transaction that is committed, where
no `DELETE` of parts fails. -/
def SharedGuard (db : Database) (fails : List Bool) : SharedCall → Prop
  | .statement (.upsertPart p) => p.uploadID ∈ db.uploads
  | .statement _ => True
  | .transaction p => (db.transact .sqlite p fails).1 = .ok () →
      (database .sqlite).Allowed PartGuard db (db.txEvents .sqlite p fails)

/-- The calls of the operations: no statement outside a transaction deletes an upload, and what
transactions do keeps the parts owned. -/
def SharedCall.Fair : SharedCall → Prop
  | .statement s => ¬ s.DropsUpload
  | .transaction p => Sql.Keeps .sqlite p

section Operations

/-- The program makes only such calls. -/
abbrev Fair {α : Type} (p : Prog sharedCalls α) : Prop :=
  p.Only (fun _ _ => True) SharedCall.Fair fun _ => True

theorem fair_direct {α : Type} {p : Sql α} (hp : Sql.Uses (fun s => ¬ s.DropsUpload) p) :
    Fair (direct p) := by
  unfold direct
  have hrun : Only (fun _ _ => True) (fun s => ¬ Statement.DropsUpload s)
    (fun _ => True) p.run := hp
  revert hrun
  generalize p.run = q
  intro hq
  induction q with
  | ret a => trivial
  | call s k ih => exact ⟨hq.1, fun v _ => ih v (hq.2 v trivial)⟩

theorem fair_isolated {p : Sql Unit} (hp : Sql.Keeps .sqlite p) :
    Fair (isolated p) := ⟨hp, fun _ _ => trivial⟩

theorem uses_putObjectVersion (v : ObjectVersion) :
    Sql.Uses (fun s => ¬ s.DropsUpload) (putObjectVersion v) := by
  refine uses_ite (fun _ => (uses_sql id).bind fun _ => ?_) fun _ => ?_
  all_goals exact uses_last id

theorem uses_getObjectVersion (bucket key versionID : Bytes) :
    Sql.Uses (fun s => ¬ s.DropsUpload) (getObjectVersion bucket key versionID) :=
  uses_ite (fun _ => uses_sql id) fun _ => uses_sql id

/-- **Every operation is fair.** -/
theorem fair_operation : ∀ op, Fair (operation op)
  | .createBucket _ | .putObjectTagging _ | .createMultipartUpload _ | .upsertCredentialRecord _ =>
    fair_direct (uses_last id)
  | .updateBucketVersioning .. | .deleteBucket _ | .deleteConfig .. | .deleteObjectTagging ..
  | .updateObjectMetadata .. => fair_direct ((uses_sql id).bind fun _ => uses_requireAffected _)
  | .putConfig .. => fair_direct ((uses_sql id).bind fun _ => uses_last id)
  | .putObjectVersion v => fair_direct (uses_putObjectVersion v)
  | .deleteObject .. => fair_direct (uses_putObjectVersion _)
  | .deleteObjectVersion .. =>
    fair_direct ((uses_getObjectVersion _ _ _).bind fun _ => (uses_sql id).bind fun _ =>
      (uses_requireAffected _).bind fun _ => uses_pure _)
  | .deleteAllObjectVersions .. =>
    fair_direct ((uses_sql id).bind fun _ => uses_ite (fun _ => uses_throw _)
      fun _ => uses_last id)
  | .deleteMultipartUpload uploadID => fair_isolated (keeps_deleteMultipartUpload uploadID)
  | .upsertMultipartPart _ =>
    fair_direct ((uses_sql id).bind fun _ => (uses_sql id).bind fun _ =>
      uses_last id)
  | .runInTx fn => fair_isolated (keeps_txFunc fn)
  | .repairConsistency => trivial

theorem Database.PartsOwned.shared (h : db.PartsOwned)
    {c : SharedCall} (hc : c.Fair) (hguard : SharedGuard db fails c) :
    (shared.step db fails c).2.PartsOwned := by
  cases c with
  | statement s =>
    change ((database .sqlite).step db (fails.headD false) s).2.PartsOwned
    unfold database
    dsimp only
    split_ifs
    · exact h
    refine h.execute hc ?_
    rintro p rfl
    exact hguard
  | transaction p => exact h.transact hc hguard

/-- **Operations that take turns keep the parts owned**, as long as the guard allows each turn. -/
theorem Database.PartsOwned.runPool (h : db.PartsOwned) {ops : List StoreOp}
    {schedule : List (ℕ × List Bool)}
    (hguard : Metadata.shared.Meets (fun x _ e => SharedGuard x.world e.fault e.op)
      ⟨operations ops, db, []⟩ schedule) :
    (Metadata.shared.runPool ⟨operations ops, db, []⟩ schedule).world.PartsOwned := by
  refine (Machine.runPool_of_guarded (A := fun _ _ _ => True)
    (G := fun _ _ => SharedCall.Fair) (Q := fun _ _ _ => True) (K := fun db _ => db.PartsOwned)
    (fun x i fails c hx hc hguard => ⟨trivial, hx.shared hc hguard⟩) (fun i p hp => ?_) h hguard).2
  obtain ⟨op, -, rfl⟩ := List.mem_map.1 (List.mem_of_getElem? hp)
  exact (only_bind.2 ((fair_operation op).mono fun _ _ => trivial)).guarded

end Operations

/-! ## Unknown uploads -/

namespace Database

variable {db : Database} {dialect : Dialect}

theorem run_sql_bind_error {α : Type} {f : s.Val → Sql α}
    {e : Error} (h : (database dialect).step db (fails.headD false) s = (.error e, db)) :
    db.run dialect (sql s >>= f) fails = (.error e, db) := by
  have hrun : (sql s >>= f).run = .call s fun v => ExceptT.bindCont f v := rfl
  have hdefault : fails.headD default = fails.headD false := rfl
  unfold run
  rw [hrun, Machine.exec, hdefault]
  simp only [Machine.advance, h]
  rfl

theorem upsertMultipartPart_of_notMem {p : MultipartPart} (hp : p.uploadID ∉ db.uploads)
    (fails : List Bool) : db.call dialect fails (.upsertMultipartPart p) =
      (.error (if fails.headD false then .failed else .notFound), db) := by
  have hselect : db.execute dialect (.selectUpload p.uploadID) = (.error .notFound, db) := by
    rw [execute, AList.lookup_eq_none.2 hp]
    rfl
  refine run_sql_bind_error ?_
  change (if fails.headD false then _ else _) = _
  rw [hselect]
  split_ifs <;> rfl

end Database

/-- **When parts have uploads.**  The memory-backed store refuses the part of an unknown upload and
keeps every part owned.  The SQL store refuses it outside a transaction only; on SQLite, operations that
take turns keep every part owned as long as each `INSERT` of a part finds the upload and no `DELETE` of
parts fails in a transaction that is committed. -/
theorem parts_owned (dialect : Dialect) :
    (∀ (history : List (StoreOp × Bool)) (s : MemoryBackedStore), s.st.PartsOwned →
      (s.after history).st.PartsOwned) ∧
    (∀ (st : StoreState) (p : MultipartPart), p.uploadID ∉ st.multipart →
      st.mutate (.upsertMultipartPart p) = (.error .notFound, st) ∧
        st.memoryTx (.upsertMultipartPart p) = (.error .notFound, st)) ∧
    (∀ (db : Database) (fails : List Bool) (p : MultipartPart),
      p.uploadID ∉ db.uploads → db.call dialect fails (.upsertMultipartPart p) =
        (.error (if fails.headD false then .failed else .notFound), db)) ∧
    (∀ (db : Database) (p : MultipartPart),
      (p.uploadID ∉ db.uploads →
        db.txCall dialect [] (.upsertMultipartPart p) = (.error .notFound, db)) ↔
      p.uploadID ∈ db.uploads) ∧
    ∀ db, db.PartsOwned →
      ∀ (ops : List StoreOp) (schedule : List (ℕ × List Bool)),
        shared.Meets (fun x _ e => SharedGuard x.world e.fault e.op)
          ⟨operations ops, db, []⟩ schedule →
        (shared.runPool ⟨operations ops, db, []⟩ schedule).world.PartsOwned := by
  refine ⟨fun history s h => MemoryBackedStore.partsOwned_after h history, fun st p hp => ?_,
    fun db fails p hp => Database.upsertMultipartPart_of_notMem hp fails,
    fun db p => ?_, fun db h ops schedule hguard => h.runPool hguard⟩
  · have hlift : st.lift (·.upsertMultipartPart p) = (.error .notFound, st) := by
      unfold StoreState.lift
      dsimp only
      rw [MemoryState.upsertMultipartPart_of_notMem hp]
    exact ⟨hlift, hlift⟩
  · refine ⟨fun h => ?_, fun h hnot => absurd h hnot⟩
    by_contra hnot
    cases congrArg Prod.fst (h hnot)

/-! ### Parts without an upload -/

def oneUpload : MultipartUpload := ⟨str "u", str "b", str "k", [], 0⟩

def onePart : MultipartPart := ⟨str "u", 1, [], 0, [], [], [], [], [], 0⟩

/-- The theorem at a part that comes before its upload, and at one that comes after it and goes with
it. -/
theorem parts_owned_onePart :
    (MemoryBackedStore.after {} [(.upsertMultipartPart onePart, true),
      (.createMultipartUpload oneUpload, true), (.upsertMultipartPart onePart, true)]).st.PartsOwned ∧
    ({} : StoreState).mutate (.upsertMultipartPart onePart) = (.error .notFound, {}) ∧
    Database.empty.call .sqlite [] (.upsertMultipartPart onePart) = (.error .notFound, .empty) ∧
    ¬ (onePart.uploadID ∉ Database.empty.uploads →
      Database.empty.txCall .sqlite [] (.upsertMultipartPart onePart) =
        (.error .notFound, .empty)) ∧
    (shared.runPool ⟨operations [.createMultipartUpload oneUpload,
        .upsertMultipartPart onePart, .deleteMultipartUpload oneUpload.uploadID], .empty, []⟩
      [(0, []), (1, []), (1, []), (1, []), (2, [])]).world.PartsOwned := by
  obtain ⟨hmemory, hrefuses, hsql, htx, hshared⟩ := parts_owned .sqlite
  have hknown : onePart.uploadID ∈ (Database.empty.execute .sqlite (.insertUpload oneUpload)).2.uploads := by
    decide
  refine ⟨hmemory _ {} nofun, (hrefuses {} onePart (by decide)).1,
    hsql .empty [] onePart (by decide), fun h => absurd ((htx _ _).1 h) (by decide),
    hshared .empty nofun _ _ ?_⟩
  exact .intro trivial (.intro trivial (.intro trivial (.intro hknown (.intro
    (fun _ => .intro trivial (.intro trivial (.intro rfl (.intro trivial trivial))))
    trivial))))

/-- **Parts without an upload.**  In the SQL store a transaction puts the part of an upload that was
never created; and an upload that is deleted after `UpsertMultipartPart` has looked for it leaves a
part behind. -/
theorem orphaned_part :
    (let tx := Database.empty.call .sqlite []
        (.runInTx (op (I := txCalls) (.upsertMultipartPart onePart)));
      tx.1 = .ok () ∧ (str "u", 1) ∈ tx.2.parts ∧ str "u" ∉ tx.2.uploads) ∧
    (let db := (Database.empty.call .sqlite [] (.createMultipartUpload oneUpload)).2
      let last := (shared.runPool ⟨operations [.upsertMultipartPart onePart,
          .deleteMultipartUpload oneUpload.uploadID], db, []⟩
        [(0, []), (0, []), (1, []), (0, [])]).world;
      (str "u", 1) ∈ last.parts ∧ str "u" ∉ last.uploads) :=
  ⟨⟨rfl, by decide, by decide⟩, by decide, by decide⟩

end S000.Metadata
