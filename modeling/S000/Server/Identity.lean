import S000.Server.Actions
import S000.Server.WellFormed

/-!
# Server/Identity — version ids identify versions

The store replaces a row only where its id is `null`; every other row is appended, whatever its id.  So
that ids tell the versions of a key apart rests on the writers: each of them puts its row under `null`
or under an id that was drawn for it (`DrawGuard`), and then, however requests and actions of the web UI
take turns, the rows of a key keep distinct ids.  All writers do so but one.  A change of the MIME type
puts the latest version again under the id it has, unless it finds versioning enabled; where the latest
version was written while versioning was enabled and versioning is suspended since, two rows have one
id.  The unique index of the SQL stores refuses such a row, the memory-backed store takes it.
-/

namespace S000

open Strings Metadata Blob Machine Prog MemoryState List

/-! ## Requests and actions that take turns -/

/-- A request of the S3 API, or an action of the web UI. -/
inductive ServerTask
  | s3 (request : S3Request)
  | ui (action : UIAction)

/-- A task and its environment. -/
structure ServerJob where
  ctx : Ctx
  task : ServerTask

def ServerJob.program (a : S3API) (j : ServerJob) : Act Unit :=
  match j.task with
  | .s3 request => handle a j.ctx request >>= fun _ => pure ()
  | .ui action => uiHandle a j.ctx action >>= fun _ => pure ()

/-- Jobs that start on an empty server. -/
def serverPool (a : S3API) (jobs : List ServerJob) : Pool calls Fault World Unit where
  threads := jobs.map (ServerJob.program a)
  world := {}

def ServerTask.changesMimetype : ServerTask → Bool
  | ui (.updateObjectMimetype ..) => true
  | _ => false

def latestRead (e : CallEvent) : Option ObjectVersion :=
  match e.op, e.val with
  | .getLatestObjectVersion .., .ok v => some v
  | _, _ => none

def bucketRead (e : CallEvent) : Option Bucket :=
  match e.op, e.val with
  | .getBucket _, .ok b => some b
  | _, _ => none

/-- What was read: the latest version is the `null` version, or versioning is enabled. -/
def MayReplace (es : List CallEvent) : Prop :=
  (∀ v ∈ es.filterMap latestRead, v.versionID = nullVersion) ∨
    ∃ b ∈ es.filterMap bucketRead, b.versioningStatus = str "Enabled"

instance (es : List CallEvent) : Decidable (MayReplace es) := by
  unfold MayReplace
  infer_instance

/-- No id comes from two draws. -/
def DrawnOnce (jobs : List ServerJob) (x : Pool calls Fault World Unit) (i : ℕ) (e : CallEvent) :
    Prop :=
  ∀ v ∈ e.op.row?, ∀ p ∈ x.events, ∀ v' ∈ p.2.op.row?, v'.versionID = v.versionID →
    ∀ j j', jobs[i]? = some j → jobs[p.1]? = some j' → ∀ n n', v.versionID = newVersionID j.ctx n →
      v'.versionID = newVersionID j'.ctx n' → p.1 = i ∧ n' = n

/-- A change of the MIME type puts a row only where it read that it may. -/
def MimetypeInPlace (jobs : List ServerJob) (x : Pool calls Fault World Unit) (i : ℕ)
    (e : CallEvent) : Prop :=
  (jobs[i]?.any fun j => j.task.changesMimetype) = true → e.op.row?.isSome = true →
    MayReplace (eventsOf x i)

instance (jobs : List ServerJob) (x : Pool calls Fault World Unit) (i : ℕ) (e : CallEvent) :
    Decidable (MimetypeInPlace jobs x i e) := by
  unfold MimetypeInPlace
  infer_instance

/-- **When version ids identify versions.** -/
structure IdentityCondition (jobs : List ServerJob) (x : Pool calls Fault World Unit) (i : ℕ)
    (e : CallEvent) : Prop where
  drawn : DrawnOnce jobs x i e
  inPlace : MimetypeInPlace jobs x i e

/-! ## A row is put under an id that was drawn for it -/

/-- The rows that were put have the `null` id or one of the first `n` ids that were drawn. -/
def RowsBelow (c : Ctx) (n : ℕ) (es : List CallEvent) : Prop :=
  ∀ e ∈ es, ∀ v ∈ e.op.row?, v.versionID = nullVersion ∨ ∃ i < n, v.versionID = newVersionID c i

/-- **A row is put under `null`, or under an id that no earlier row of the job has used.** -/
def DrawGuard (c : Ctx) (es : List CallEvent) (o : Call) : Prop :=
  ∀ v ∈ o.row?, v.versionID = nullVersion ∨
    ∃ n, RowsBelow c n es ∧ v.versionID = newVersionID c n

def Call.Still (o : Call) : Prop := o.row? = none

variable {o : Call}

theorem Call.Quiet.still (ho : o.Quiet) : o.Still := by
  cases o with
  | putObjectVersion v => exact ho.elim
  | _ => rfl

variable {a : S3API} {c : Ctx} {r : Request} {bucket key uploadID : Bytes} {body : Stream}
  {es : List CallEvent} {n : ℕ} {α : Type}

theorem rowsBelow_nil : RowsBelow c n [] := nofun

variable {m i : ℕ}

theorem RowsBelow.mono (h : RowsBelow c n es) (hnm : n ≤ m) : RowsBelow c m es := by
  intro e he v hv
  rcases h e he v hv with hnull | ⟨i, hi, hid⟩
  · exact .inl hnull
  · exact .inr ⟨i, lt_of_lt_of_le hi hnm, hid⟩

variable {f : Fault}

theorem RowsBelow.still {v : o.Val} (h : RowsBelow c n es) (ho : o.Still) :
    RowsBelow c n (es ++ [⟨o, f, v⟩]) := by
  intro e he row hrow
  rcases mem_append.1 he with he | he
  · exact h e he row hrow
  · rw [mem_singleton.1 he, ho] at hrow
    cases hrow

theorem RowsBelow.put {row : ObjectVersion} {v : Except Error Unit} (h : RowsBelow c n es)
    (hid : row.versionID = nullVersion ∨ row.versionID = newVersionID c n) :
    RowsBelow c (n + 1) (es ++ [⟨.putObjectVersion row, f, v⟩]) := by
  intro e he row' hrow'
  rcases mem_append.1 he with he | he
  · exact h.mono (Nat.le_succ n) e he row' hrow'
  rw [mem_singleton.1 he] at hrow'
  cases hrow'
  exact hid.imp_right fun hid => ⟨n, Nat.lt_succ_self n, hid⟩

section Walk

/-- The programs that put rows as they should, where they start after the first `n` draws. -/
abbrev Draws (c : Ctx) (Q : List CallEvent → α → Prop) (es : List CallEvent) (p : Act α) : Prop :=
  p.Guarded (fun _ _ => True) (DrawGuard c) Q es

theorem draws_of_still {p : Act α} {Q : List CallEvent → α → Prop} {P : α → Prop}
    (h : p.Only (fun _ _ => True) Call.Still P) (hes : RowsBelow c n es)
    (hQ : ∀ es x, RowsBelow c n es → P x → Q es x) : Draws c Q es p := by
  refine (((Only.guarded h).keeping (fun es o f v hes ho _ =>
    hes.still ho) hes).weaken (fun _ _ h => h) fun es o ho v hv => ?_).mono fun es x hx =>
      hQ es x hx.1 hx.2
  rw [ho.2] at hv
  cases hv

theorem draws_still {p : Act α} (h : p.Only (fun _ _ => True) Call.Still fun _ => True)
    (hes : RowsBelow c n es) : Draws c (fun _ _ => True) es p :=
  draws_of_still h hes fun _ _ _ _ => trivial

theorem draws_ask {k : o.Val → Act α} {Q : List CallEvent → α → Prop} (ho : o.Still)
    (hes : RowsBelow c n es) (hk : ∀ es v, RowsBelow c n es → Draws c Q es (k v)) :
    Draws c Q es (ask o >>= k) := by
  rw [Draws, guarded_bind]
  exact draws_of_still (only_ask o |>.2 ⟨ho, fun _ _ => trivial⟩) hes fun es v hes _ => hk es v hes

theorem draws_put {row : ObjectVersion} {Q : List CallEvent → Except Error Unit → Prop}
    (hid : row.versionID = nullVersion ∨ row.versionID = newVersionID c n) (hes : RowsBelow c n es)
    (hQ : ∀ es v, RowsBelow c (n + 1) es → Q es v) : Draws c Q es (ask (.putObjectVersion row)) := by
  refine ⟨?_, fun f v _ => hQ _ v (hes.put hid)⟩
  rintro _ ⟨⟩
  exact hid.imp_right fun hid => ⟨n, hes, hid⟩

theorem Target.versionID_cases {A : (o : Call) → o.Val → Prop} {ref : ObjectRef}
    (h : Target A c bucket key ref) :
    ref.versionID = nullVersion ∨ ref.versionID = newVersionID c 0 := by
  obtain ⟨b, -, hid⟩ := h.versionID_eq
  rw [hid]
  exact writtenVersionID_cases c b

theorem still_of_idle (o : Call) (ho : o.Idle) : o.Still := ho.quiet.still

/-! ### Requests -/

theorem inBucket_draws {fn : Act Reply} (hes : RowsBelow c n es)
    (h : ∀ {es}, RowsBelow c n es → Draws c (fun _ _ => True) es fn) :
    Draws c (fun _ _ => True) es (inBucket bucket fn) := by
  refine draws_ask rfl hes fun es v hes => ?_
  rcases v with _ | _
  · trivial
  · exact h hes

/-- **A handler that ends in a write.** -/
theorem commit_draws {stage : Act (Except Reply ObjectVersion)} {failure : Reply}
    {success : ObjectVersion → Act Reply} (hes : RowsBelow c 0 es)
    (hsuccess : ∀ row, (success row).Only (fun _ _ => True) Call.Still fun _ => True)
    (hstage : stage.Only (fun _ _ => True) Call.Still fun x => ∀ row, x = .ok row →
      row.versionID = nullVersion ∨ row.versionID = newVersionID c 0) :
    Draws c (fun _ _ => True) es (runHeavy a bucket key (stage >>= fun x => match x with
      | .error e => pure e
      | .ok row => insertVersion a row failure (success row))) := by
  have hrest {es : List CallEvent} (hes : RowsBelow c 0 es) :
      Draws c (fun _ _ => True) es (stage >>= fun x => match x with
        | .error e => pure e
        | .ok row => insertVersion a row failure (success row)) := by
    rw [Draws, guarded_bind]
    refine draws_of_still hstage hes fun es x hes hx => ?_
    rcases x with e | row
    · trivial
    dsimp only
    rw [insertVersion, guarded_bind]
    refine draws_put (hx row rfl) hes fun es v hes => ?_
    rcases v with _ | _
    · exact draws_still ⟨rfl, fun _ _ => trivial⟩ hes
    · exact draws_still (hsuccess row) hes
  refine guarded_ite (fun _ => hrest hes) fun _ => ?_
  refine draws_ask rfl hes fun es v hes => ?_
  exact guarded_ite (fun _ => trivial) fun _ => hrest hes

section Single

variable {parts : XmlBody (List CompletedPart)} (hes : RowsBelow c 0 es)

include hes

theorem handlePutObject_draws :
    Draws c (fun _ _ => True) es (handlePutObject a c r bucket key body) :=
  commit_draws hes (fun _ => trivial) <| (stagePut_only still_of_idle (fun _ _ _ => rfl)
    fun _ _ _ => rfl).mono fun x hx row hrow => by
      obtain ⟨ref, htarget, rfl, -⟩ := hx row hrow
      exact htarget.versionID_cases

theorem handleCopyObject_draws :
    Draws c (fun _ _ => True) es (handleCopyObject a c r bucket key) :=
  commit_draws hes (fun _ => trivial) <| (stageCopy_only still_of_idle (fun _ _ _ => rfl)
    fun _ _ _ _ => rfl).mono fun _ hx row hrow => (hx row hrow).target.versionID_cases

theorem handleCompleteMultipartUpload_draws :
    Draws c (fun _ _ => True) es (handleCompleteMultipartUpload a c r bucket key uploadID parts) :=
  commit_draws hes (fun _ => ⟨rfl, fun _ _ => trivial⟩) <| (stageComplete_only still_of_idle rfl
    (fun _ _ _ _ => rfl) fun _ _ _ => rfl).mono fun _ hx row hrow => (hx row hrow).target.versionID_cases

/-- **A deletion.** -/
theorem handleDeleteObject_draws :
    Draws c (fun _ _ => True) es (handleDeleteObject a c r bucket key) := by
  have haudit {action outcome reason : String} {reply : Reply} :
      ((emitAudit a r action outcome bucket key reason) >>= fun _ => pure reply).Only
        (fun _ _ => True) Call.Still fun _ => True := audited_only still_of_idle
  refine draws_ask rfl hes fun es v hes => ?_
  rcases v with _ | b
  · exact draws_still haudit hes
  refine guarded_ite (fun _ => draws_still ?_ hes)
    fun _ => guarded_ite (fun _ => ?_)
    fun _ => draws_still ?_ hes
  · refine (versionLocked_only still_of_idle).bind fun locked _ => ?_
    refine only_ite (fun _ => haudit) fun _ => ⟨rfl, fun v _ => ?_⟩
    rcases v with e | removed
    · cases e <;> exact haudit
    · exact only_ite (fun _ => ⟨rfl, fun _ _ => haudit⟩) fun _ => haudit
  · exact draws_put (.inr rfl) hes fun es _ hes => draws_still haudit hes
  · refine (versionLocked_only still_of_idle).bind fun locked _ => ?_
    refine only_ite (fun _ => haudit) fun _ => ⟨rfl, fun v _ => ?_⟩
    refine only_ite (fun _ => haudit) fun _ => ?_
    exact (deleteBlobs_only fun _ _ => rfl).bind fun _ _ => haudit

end Single

variable {b : Bucket}

/-- **A round of a multi-object deletion** uses the draw of the round at most. -/
theorem deleteEntry_draws {e : DeleteEntry} (hes : RowsBelow c i es) :
    Draws c (fun es _ => RowsBelow c (i + 1) es) es (deleteEntry a c bucket b i e) := by
  have hlater {es : List CallEvent} (hes : RowsBelow c i es) : RowsBelow c (i + 1) es :=
    hes.mono (Nat.le_succ i)
  refine guarded_ite (fun _ => hlater hes) fun _ => guarded_ite (fun _ => ?_) fun _ => ?_
  · rw [guarded_bind]
    refine draws_put (.inr rfl) hes fun es v hes => ?_
    rcases v with _ | _ <;> exact hes
  · refine draws_of_still (P := fun _ => True) ?_ hes fun es _ hes _ => hlater hes
    refine (versionLocked_only still_of_idle).bind fun locked _ => ?_
    refine only_unless fun _ => ⟨rfl, fun ⟨removed, err⟩ _ => ?_⟩
    exact (deleteBlobs_only fun _ _ => rfl).bind fun _ _ => trivial

theorem deleteEntries_draws {quiet : Bool} : ∀ {entries : List DeleteEntry} {i : ℕ}
    {es : List CallEvent}, RowsBelow c i es →
      Draws c (fun _ _ => True) es (deleteEntries a c bucket b quiet i entries)
  | [], _, _, _ => trivial
  | e :: entries, i, es, hes => by
    simp only [deleteEntries, guarded_bind]
    refine (deleteEntry_draws hes).mono fun es err hes => ?_
    refine (deleteEntries_draws hes).mono fun es rest _ => ?_
    rcases err with _ | err <;> trivial

theorem handleDeleteObjects_draws {doc : Option DeleteDocument} (hes : RowsBelow c 0 es) :
    Draws c (fun _ _ => True) es (handleDeleteObjects a c bucket doc) := by
  refine draws_ask rfl hes fun es v hes => ?_
  rcases v with _ | b
  · trivial
  rcases doc with _ | doc
  · trivial
  exact (deleteEntries_draws hes).bind fun _ _ _ => trivial

/-- **Every request puts its rows under ids of their own.** -/
theorem handle_draws (request : S3Request) : Draws c (fun _ _ => True) [] (handle a c request) := by
  have hes : RowsBelow c 0 [] := rowsBelow_nil
  cases request with
  | deleteObjects => exact handleDeleteObjects_draws hes
  | putObject => exact inBucket_draws hes handlePutObject_draws
  | copyObject => exact inBucket_draws hes handleCopyObject_draws
  | deleteObject => exact inBucket_draws hes handleDeleteObject_draws
  | completeMultipartUpload => exact inBucket_draws hes handleCompleteMultipartUpload_draws
  | _ =>
    exact draws_still (handle_mild c (fun _ ho => ho.row?_eq_none) rfl) hes

/-! ### Actions -/

/-- **A write of the web UI.** -/
theorem uiStore_draws {ref : ObjectRef} {src : Stream} {metadata : StrMap} {failure : String}
    (hid : ref.versionID = nullVersion ∨ ref.versionID = newVersionID c n)
    (hes : RowsBelow c n es) {c' : Ctx} :
    Draws c (fun es _ => RowsBelow c (n + 1) es) es (uiStore a c' ref src metadata failure) := by
  simp only [uiStore, guarded_bind]
  refine draws_of_still (writeObject_only still_of_idle fun _ => rfl) hes fun es x hes hx => ?_
  rcases x with _ | m
  · exact hes.mono (Nat.le_succ n)
  obtain ⟨rfl, -⟩ := hx m rfl
  rw [guarded_bind]
  refine draws_put hid hes fun es v hes => ?_
  rcases v with _ | _
  · exact draws_of_still (P := fun _ => True) ⟨rfl, fun _ _ => trivial⟩ hes fun _ _ hes _ => hes
  · exact hes

/-- **A file of an upload** uses the draw of the file at most. -/
theorem uiUploadFile_draws {fh : UploadFile} (hes : RowsBelow c n es) :
    Draws c (fun es _ => RowsBelow c (n + 1) es) es (uiUploadFile a (c.skip n) b bucket key fh) := by
  have hlater {es : List CallEvent} (hes : RowsBelow c n es) : RowsBelow c (n + 1) es :=
    hes.mono (Nat.le_succ n)
  refine guarded_ite (fun _ => hlater hes) fun _ => ?_
  split
  · exact hlater hes
  next src _ =>
    rw [guarded_bind]
    refine draws_of_still (overwriteLocked_only still_of_idle) hes fun es locked hes _ => ?_
    exact guarded_ite (fun _ => hlater hes) fun _ =>
      uiStore_draws (writtenVersionID_cases (c.skip n) b) hes

theorem uiUploadFiles_draws {form : UploadForm} : ∀ {files : List UploadFile} {i : ℕ}
    {es : List CallEvent}, RowsBelow c i es →
      Draws c (fun _ _ => True) es (uiUploadFiles a c form b bucket i files)
  | [], _, _, _ => trivial
  | fh :: files, i, es, hes => by
    refine (uiUploadFile_draws hes).bind fun es failure hes => ?_
    rcases failure with _ | _
    · exact uiUploadFiles_draws hes
    · trivial

theorem uiUploadObject_draws {form : UploadForm} (hes : RowsBelow c 0 es) :
    Draws c (fun _ _ => True) es (uiUploadObject a c form) := by
  refine guarded_ite (fun _ => trivial) fun _ => guarded_ite (fun _ => trivial) fun _ => ?_
  refine draws_ask rfl hes fun es v hes => ?_
  rcases v with _ | b
  · trivial
  refine (uiUploadFiles_draws hes).bind fun es failure _ => ?_
  rcases failure with _ | _
  · exact guarded_ite (fun _ => trivial) fun _ => trivial
  · trivial

variable {pre delimiter : Bytes}

theorem uiCreateFolder_draws {folder : Bytes} (hes : RowsBelow c 0 es) :
    Draws c (fun _ _ => True) es (uiCreateFolder a c bucket pre delimiter folder) := by
  refine guarded_ite (fun _ => trivial) fun _ => guarded_ite (fun _ => trivial) fun _ => ?_
  refine draws_ask rfl hes fun es v hes => ?_
  rcases v with _ | b
  · trivial
  refine (uiStore_draws (writtenVersionID_cases c b) hes).bind fun es failure _ => ?_
  rcases failure with _ | _ <;> trivial

theorem uiDeleteObject_draws (hes : RowsBelow c 0 es) :
    Draws c (fun _ _ => True) es (uiDeleteObject a c bucket key pre delimiter) := by
  refine guarded_ite (fun _ => trivial) fun _ => ?_
  refine draws_ask rfl hes fun es v hes => ?_
  rcases v with _ | b
  · trivial
  refine guarded_ite (fun _ => ?_)
    fun _ => draws_still ?_ hes
  · exact draws_put (.inr rfl) hes fun _ _ _ => trivial
  refine (versionLocked_only still_of_idle).bind fun locked _ => ?_
  refine only_unless fun _ => ⟨rfl, fun v _ => ?_⟩
  refine only_unless fun _ => ?_
  exact (deleteBlobs_only fun _ _ => rfl).bind fun _ _ => trivial

theorem uiDeleteFolderMarker_draws (hes : RowsBelow c 0 es) :
    Draws c (fun _ _ => True) es (uiDeleteFolderMarker a c bucket key pre delimiter) := by
  refine guarded_ite (fun _ => trivial) fun _ => guarded_ite (fun _ => trivial) fun _ => ?_
  refine draws_ask rfl hes fun es v hes => ?_
  rcases v with _ | b
  · trivial
  refine guarded_ite (fun _ => ?_)
    fun _ => draws_still ⟨rfl, fun v _ => ?_⟩ hes
  · exact draws_put (.inr rfl) hes fun _ _ _ => trivial
  · refine only_unless fun _ => ?_
    exact (deleteBlobs_only fun _ _ => rfl).bind fun _ _ => trivial

theorem uiMarkKeys_draws : ∀ {keys : List Bytes} {i : ℕ} {es : List CallEvent}, RowsBelow c i es →
    Draws c (fun _ _ => True) es (uiMarkKeys c bucket i keys)
  | [], _, _, _ => trivial
  | key :: keys, i, es, hes => by
    rw [uiMarkKeys, Draws, guarded_bind]
    refine draws_put (.inr rfl) hes fun es v hes => ?_
    rcases v with _ | _
    · trivial
    · exact uiMarkKeys_draws hes

theorem uiDeleteFolder_draws {targetPre : Bytes} (hes : RowsBelow c 0 es) :
    Draws c (fun _ _ => True) es (uiDeleteFolder a c bucket pre delimiter targetPre key) := by
  refine guarded_ite (fun _ => trivial) fun _ => ?_
  refine draws_ask rfl hes fun es v hes => ?_
  rcases v with _ | b
  · trivial
  refine draws_ask rfl hes fun es v hes => ?_
  rcases v with _ | objects
  · trivial
  refine guarded_ite (fun _ => ?_)
    fun _ => draws_still ?_ hes
  · refine (uiMarkKeys_draws hes).bind fun _ _ _ => ?_
    exact guarded_ite (fun _ => trivial) fun _ => trivial
  refine (uiDeleteKeys_only (a := a) fun _ _ => ⟨rfl, fun _ _ _ _ _ => rfl⟩).bind fun x _ => ?_
  rcases x with _ | removed
  · trivial
  · exact only_bind.2 ((deleteBlobs_only fun _ _ => rfl).mono fun _ _ => trivial)

/-- **Every other action puts its rows under ids of their own.** -/
theorem uiHandle_draws {action : UIAction} (h : (ServerTask.ui action).changesMimetype = false) :
    Draws c (fun _ _ => True) [] (uiHandle a c action) := by
  have hes : RowsBelow c 0 [] := rowsBelow_nil
  cases action with
  | createBucket => exact draws_still (uiCreateBucket_only fun _ => rfl) hes
  | deleteBucket =>
    exact draws_still (uiDeleteBucket_only still_of_idle (fun _ _ _ _ => ⟨rfl, fun _ _ _ _ _ => rfl⟩)
      (fun _ => ⟨rfl, rfl⟩) rfl) hes
  | updateBucketVersioning => exact draws_still (uiUpdateBucketVersioning_only fun _ => rfl) hes
  | uploadObject => exact uiUploadObject_draws hes
  | createFolder => exact uiCreateFolder_draws hes
  | deleteObject => exact uiDeleteObject_draws hes
  | updateObjectMimetype => cases h
  | updateObjectRetention =>
    rw [uiHandle]
    exact draws_still (uiUpdateLock_only still_of_idle fun _ _ => rfl) hes
  | updateObjectLegalHold =>
    rw [uiHandle]
    exact draws_still (uiUpdateLock_only still_of_idle fun _ _ => rfl) hes
  | deleteFolderMarker => exact uiDeleteFolderMarker_draws hes
  | deleteFolder => exact uiDeleteFolder_draws hes

/-- **…and a change of the MIME type does** where it read that it may. -/
theorem uiUpdateObjectMimetype_draws {contentType : Bytes} :
    (uiUpdateObjectMimetype c bucket key contentType).Guarded (fun _ _ => True)
      (fun es (o : Call) => MayReplace es → DrawGuard c es o) (fun _ _ => True) [] := by
  refine guarded_ite (fun _ => trivial) fun _ => ?_
  refine ⟨fun _ _ h => (by cases h), fun f v _ => ?_⟩
  rcases v with _ | obj
  · trivial
  refine guarded_ite (fun _ => trivial) fun _ => ?_
  refine ⟨fun _ _ h => (by cases h), fun f' v _ => ⟨fun hread => ?_, fun _ v _ => ?_⟩⟩
  · rintro _ ⟨⟩
    have hbelow : RowsBelow c 0 ([] ++ [⟨.getLatestObjectVersion (trimSpace bucket) (trimSpace key), f,
        .ok obj⟩] ++ [⟨.getBucket (trimSpace bucket), f', v⟩]) :=
      .still (.still
        rowsBelow_nil rfl) rfl
    rcases hread with hnull | ⟨b, hb, henabled⟩
    · have hobj : obj.versionID = nullVersion := hnull obj (mem_cons_self)
      rcases v with _ | b
      · exact .inl hobj
      dsimp only
      split_ifs
      · exact .inr ⟨0, hbelow, rfl⟩
      · exact .inl hobj
    · rcases v with _ | b'
      · cases hb
      obtain rfl : b = b' := mem_singleton.1 hb
      dsimp only
      rw [if_pos henabled]
      exact .inr ⟨0, hbelow, rfl⟩
  · rcases v with _ | _ <;> trivial

end Walk

/-! ## All turns -/

/-- What a job puts, in view of its earlier calls. -/
def JobGuard (jobs : List ServerJob) (i : ℕ) (es : List CallEvent) (o : Call) : Prop :=
  ∃ j, jobs[i]? = some j ∧ ((j.task.changesMimetype = true → MayReplace es) → DrawGuard j.ctx es o)

theorem program_guarded {jobs : List ServerJob} {j : ServerJob} (hj : jobs[i]? = some j) :
    (j.program a).Guarded (fun _ _ => True) (JobGuard jobs i) (fun _ _ => True) [] := by
  obtain ⟨c, request | action⟩ := j
  · rw [ServerJob.program, guarded_bind]
    exact ((handle_draws request).weaken (fun _ _ h => h) fun es o ho =>
      ⟨_, hj, fun _ => ho⟩).mono fun _ _ _ => trivial
  rw [ServerJob.program, guarded_bind]
  cases hm : (ServerTask.ui action).changesMimetype with
  | false =>
    exact ((uiHandle_draws hm).weaken (fun _ _ h => h) fun es o ho =>
      ⟨_, hj, fun _ => ho⟩).mono fun _ _ _ => trivial
  | true =>
    cases action with
    | updateObjectMimetype bucket key contentType =>
      exact (uiUpdateObjectMimetype_draws.weaken (fun _ _ h => h) fun es o ho =>
        ⟨_, hj, fun hread => ho (hread rfl)⟩).mono fun _ _ _ => trivial
    | _ => cases hm

/-- **What every turn keeps**: ids tell rows apart, every row was put, and every id that was put is
`null` or was drawn by the job that put it. -/
structure Told (jobs : List ServerJob) (w : World) (events : List (ℕ × CallEvent)) : Prop where
  identified : ∀ b k, Identified b k (w.metadata.versions b k)
  put : ∀ b k, ∀ v ∈ w.metadata.versions b k, ∃ p ∈ events, ∃ v' ∈ p.2.op.row?,
    v'.versionID = v.versionID
  drawn : ∀ p ∈ events, ∀ v ∈ p.2.op.row?, v.versionID = nullVersion ∨
    ∃ j, jobs[p.1]? = some j ∧ ∃ n, v.versionID = newVersionID j.ctx n

variable {jobs : List ServerJob}

theorem told_empty : Told jobs {} [] :=
  ⟨fun _ _ => ⟨fun _ h => (by cases h), nodup_nil, nofun⟩, fun _ _ _ h => (by cases h), nofun⟩

variable {v : ObjectVersion} {x : Pool calls Fault World Unit}

/-- **An id that is drawn is new.** -/
theorem Told.fresh {e : CallEvent} {j : ServerJob} (hx : Told jobs x.world x.events)
    (hj : jobs[i]? = some j) (hv : v ∈ e.op.row?) (hbelow : RowsBelow j.ctx n (eventsOf x i))
    (hid : v.versionID = newVersionID j.ctx n) (hB : DrawnOnce jobs x i e) (b k : Bytes) :
    v.versionID ∉ (x.world.metadata.versions b k).map ObjectVersion.versionID := by
  intro hmem
  obtain ⟨v₀, hv₀, heq⟩ := mem_map.1 hmem
  obtain ⟨p, hp, v', hv', heq'⟩ := hx.put b k v₀ hv₀
  have hsame : v'.versionID = v.versionID := heq'.trans heq
  have hne : v'.versionID ≠ nullVersion := hsame ▸ hid ▸ newVersionID_ne_null j.ctx n
  obtain ⟨j', hj', n', hid'⟩ := (hx.drawn p hp v' hv').resolve_left hne
  -- the earlier row is one of the same job, which has used other draws
  obtain ⟨rfl, -⟩ := hB v hv p hp v' hv' hsame j j' hj hj' n n' hid hid'
  have hown : p.2 ∈ eventsOf x p.1 := mem_eventsOf.2 hp
  obtain ⟨m, hm, hidm⟩ := (hbelow p.2 hown v' hv').resolve_left hne
  have hmn := (hB v hv p hp v' hv' hsame j j hj hj n m hid hidm).2
  omega

/-- **One turn.** -/
theorem Told.turn (hx : Told jobs x.world x.events) (ho : JobGuard jobs i (eventsOf x i) o)
    (hB : IdentityCondition jobs x i ⟨o, f, (step x.world f o).1⟩) :
    Told jobs (step x.world f o).2 (x.events ++ [(i, ⟨o, f, (step x.world f o).1⟩)]) := by
  obtain ⟨j, hj, hguard⟩ := ho
  have hput : ∀ v, o = .putObjectVersion v → v.versionID = nullVersion ∨
      ∃ n, RowsBelow j.ctx n (eventsOf x i) ∧ v.versionID = newVersionID j.ctx n := by
    rintro v rfl
    exact hguard (fun hm => hB.inPlace (by rw [hj]; exact hm) rfl) v rfl
  refine ⟨fun b k => (hx.identified b k).change (rowChange_step x.world f o b k) (fun v hv => ?_)
    fun v hv _ _ => ?_, fun b k v hv => ?_, fun p hp v hv => ?_⟩
  · rcases hput v hv with hnull | ⟨n, -, hid⟩
    · rw [hnull]
      decide
    · rw [hid]
      exact newVersionID_ne_nil j.ctx n
  · refine (hput v hv).imp_right fun ⟨n, hbelow, hid⟩ => ?_
    subst hv
    exact hx.fresh hj rfl hbelow hid hB.drawn b k
  · rcases (rowChange_step x.world f o b k).origin hv with ⟨v₀, hv₀, hs⟩ | ⟨rfl, -⟩
    · obtain ⟨p, hp, v', hv', heq⟩ := hx.put b k v₀ hv₀
      simp only [stripMetadata, ObjectVersion.mk.injEq] at hs
      exact ⟨p, mem_append_left _ hp, v', hv', heq.trans hs.2.2.1⟩
    · exact ⟨_, mem_append_right _ (mem_singleton_self _), v, rfl, rfl⟩
  · rcases mem_append.1 hp with hp | hp
    · exact hx.drawn p hp v hv
    · obtain rfl := mem_singleton.1 hp
      exact (hput v (Call.eq_of_row? hv)).imp_right fun ⟨n, _, hid⟩ => ⟨j, hj, n, hid⟩

variable {schedule : List (ℕ × Fault)}

/-- **All turns.** -/
theorem told_runPool (h : stores.Meets (IdentityCondition jobs) (serverPool a jobs) schedule) :
    Told jobs (stores.runPool (serverPool a jobs) schedule).world
      (stores.runPool (serverPool a jobs) schedule).events := by
  refine (runPool_of_guarded (A := fun _ _ _ => True)
    (Q := fun _ _ _ => True) (fun x i f o hx ho hB => ⟨trivial, hx.turn ho hB⟩)
    (fun i p hp => ?_) told_empty h).2
  obtain ⟨j, hj, rfl⟩ : ∃ j, jobs[i]? = some j ∧ j.program a = p := by simpa [serverPool] using hp
  exact program_guarded hj

/-! ## No list is empty -/

def Occupied (st : MemoryState) : Prop :=
  ∀ b k l, st.objects.lookup (b, k) = some l → l ≠ []

variable {st : MemoryState}

section Lists

variable (h : Occupied st)
include h

theorem Occupied.setVersions {l : List ObjectVersion} (hl : l ≠ []) :
    Occupied (st.setVersions bucket key l) := by
  intro b k l' hlookup
  rw [MemoryState.setVersions] at hlookup
  by_cases hbk : (b, k) = (bucket, key)
  · rw [hbk, AList.lookup_insert] at hlookup
    rwa [← Option.some.inj hlookup]
  · rw [AList.lookup_insert_ne hbk] at hlookup
    exact h b k l' hlookup

theorem Occupied.eraseVersions : Occupied (st.eraseVersions bucket key) := by
  intro b k l hlookup
  rw [MemoryState.eraseVersions] at hlookup
  by_cases hbk : (b, k) = (bucket, key)
  · rw [hbk, AList.lookup_erase] at hlookup
    cases hlookup
  · rw [AList.lookup_erase_ne hbk] at hlookup
    exact h b k l hlookup

theorem Occupied.putObjectVersion : Occupied (st.putObjectVersion v) := by
  intro b k l hlookup
  by_cases hbk : (b, k) = (v.bucket, v.key)
  · rw [hbk, MemoryState.putObjectVersion, MemoryState.setVersions, AList.lookup_insert] at hlookup
    rw [← Option.some.inj hlookup]
    exact append_ne_nil_of_right_ne_nil _ (cons_ne_nil v [])
  rw [MemoryState.putObjectVersion, MemoryState.setVersions, AList.lookup_insert_ne hbk,
    dropNullVersion] at hlookup
  split_ifs at hlookup
  · rw [MemoryState.setVersions, AList.lookup_insert_ne hbk] at hlookup
    exact h b k l hlookup
  · exact h b k l hlookup

theorem Occupied.updateObjectMetadata {versionID : Bytes} {metadata : StrMap} :
    Occupied (st.updateObjectMetadata bucket key versionID metadata).2 := by
  unfold MemoryState.updateObjectMetadata
  dsimp only
  split
  next => exact h
  next i hi =>
    refine h.setVersions fun hnil => ?_
    have hlen := congrArg length hnil
    rw [length_modify, length_nil, length_eq_zero_iff] at hlen
    rw [hlen] at hi
    cases hi

theorem Occupied.deleteObjectVersion {versionID : Bytes} :
    Occupied (st.deleteObjectVersion bucket key versionID).2 := by
  unfold MemoryState.deleteObjectVersion
  dsimp only
  split
  next => exact h
  next =>
    split_ifs with hrest
    · exact h.eraseVersions
    · exact h.setVersions hrest

theorem Occupied.deleteAllObjectVersions : Occupied (st.deleteAllObjectVersions bucket key).2 := by
  unfold MemoryState.deleteAllObjectVersions
  dsimp only
  split_ifs
  · exact h
  · exact h.eraseVersions

theorem Occupied.of_objects {st' : MemoryState} (heq : st'.objects = st.objects) : Occupied st' := by
  intro b k l hlookup
  rw [heq] at hlookup
  exact h b k l hlookup

end Lists

theorem Occupied.writing {β : Type} {w : World} {x : Except Error β × MemoryState}
    (h : Occupied w.metadata) (hx : Occupied x.2) : Occupied (writing w f x).2.metadata := by
  rcases writing_cases w f x with hw | hw
  · rwa [hw]
  · rwa [hw]

/-- A put that is done in one piece, as the memory-backed store does it. -/
def WholePut (e : CallEvent) : Prop :=
  e.op.row?.isSome = true → match e.fault with
    | .broken _ => False
    | _ => True

instance (e : CallEvent) : Decidable (WholePut e) := by
  unfold WholePut
  split <;> infer_instance

/-- **A call leaves no list empty.** -/
theorem Occupied.step {w : World} (h : Occupied w.metadata)
    (hwhole : WholePut ⟨o, f, (step w f o).1⟩) : Occupied (step w f o).2.metadata := by
  cases o with
  | createBucket b => exact h.writing (h.of_objects (objects_createBucket _ b))
  | updateBucketVersioning bucket status =>
    exact h.writing (h.of_objects (objects_updateBucketVersioning _ bucket status))
  | deleteBucket bucket => exact h.writing (h.of_objects (objects_deleteBucket _ bucket))
  | putObjectVersion v =>
    cases f with
    | ok | unsaved => exact h.putObjectVersion
    | refused => exact h
    | broken => exact (hwhole rfl).elim
  | updateObjectMetadata => exact h.writing h.updateObjectMetadata
  | deleteObjectVersion => exact h.writing h.deleteObjectVersion
  | deleteAllObjectVersions bucket key =>
    rcases deletingAll_cases w bucket key f with hw | hw
    · change Occupied (deletingAll w bucket key f).2.metadata
      rwa [hw]
    · change Occupied (deletingAll w bucket key f).2.metadata
      rw [hw]
      exact h.deleteAllObjectVersions
  | rename | promote | remove =>
    refine h.of_objects ?_
    exact congrArg objects (metadata_changing _ _ _ _)
  | _ => exact h.of_objects (Call.Quiet.same (by trivial) w f).2.1

theorem occupied_runPool (h : stores.Meets (fun _ _ e => WholePut e) (serverPool a jobs) schedule) :
    Occupied (stores.runPool (serverPool a jobs) schedule).world.metadata :=
  runPool_induct (M := stores) (J := fun x => Occupied x.world.metadata)
    (fun _ _ _ _ _ hx _ hB => hx.step hB) nofun h

/-! ## Versions are found by their ids -/

/-- The three calls that take an id act on the version: it is the one that is read, the only one that
an update changes, and the only one that a deletion removes. -/
structure Addressed (st : MemoryState) (b k : Bytes) (v : ObjectVersion) : Prop where
  get : st.getObjectVersion b k v.versionID = .ok v
  update : ∀ metadata, (st.updateObjectMetadata b k v.versionID metadata).1 = .ok () ∧
    (st.updateObjectMetadata b k v.versionID metadata).2.versions b k =
      (st.versions b k).map fun x => if x.versionID = v.versionID then { v with metadata } else x
  delete : (st.deleteObjectVersion b k v.versionID).1 = .ok v ∧
    (st.deleteObjectVersion b k v.versionID).2.versions b k =
      (st.versions b k).filter fun x => x.versionID ≠ v.versionID

theorem Identified.addressed {b k : Bytes} (h : Identified b k (st.versions b k))
    (hv : v ∈ st.versions b k) : Addressed st b k v := by
  have hfind : Versions.find ObjectVersion.versionID v.versionID (st.versions b k) = some v :=
    Versions.find_of_mem h.distinct hv
  refine ⟨h.getObjectVersion hv, fun metadata => ⟨?_, ?_⟩, ?_, ?_⟩
  · unfold updateObjectMetadata
    dsimp only
    split
    next hnone =>
      have hne := findIdx?_eq_none_iff.1 hnone v hv
      simp at hne
    next => rfl
  · rw [versions_updateObjectMetadata_of_nodup h.distinct, if_pos ⟨rfl, rfl⟩]
    refine map_congr_left fun x hx => ?_
    split_ifs with hid
    · rw [inj_on_of_nodup_map h.distinct hx hv hid]
    · rfl
  · rw [fst_deleteObjectVersion, hfind]
  · rw [versions_deleteObjectVersion, if_pos ⟨rfl, rfl⟩]
    exact Versions.remove_eq_filter h.distinct

/-- **Version ids identify versions**, however requests and actions take turns and whatever fails, as
long as no id is drawn twice and a change of the MIME type finds the `null` version or versioning
enabled.  No list of versions is empty where no put stops half way. -/
theorem versionIDs_identify {schedule : List (ℕ × Fault)}
    (h : stores.Meets (IdentityCondition jobs) (serverPool a jobs) schedule) :
    let st := (stores.runPool (serverPool a jobs) schedule).world.metadata
    (∀ b k, (∀ v ∈ st.versions b k, v.bucket = b ∧ v.key = k) ∧
      ((st.versions b k).map ObjectVersion.versionID).Nodup ∧
      ∀ v ∈ st.versions b k, Addressed st b k v) ∧
    (stores.Meets (fun _ _ e => WholePut e) (serverPool a jobs) schedule →
      ∀ b k l, st.objects.lookup (b, k) = some l → l ≠ []) := by
  intro st
  have htold := told_runPool h
  exact ⟨fun b k => ⟨(htold.identified b k).keyed, (htold.identified b k).distinct, fun v hv =>
    (htold.identified b k).addressed hv⟩, occupied_runPool⟩

/-! ### Samples -/

/-- The environment of the `i`-th job of a sample. -/
def drawCtx (i : ℕ) : Ctx where
  now := 0
  random n := replicate i 1 ++ replicate n 0

theorem drawCtx_inj {j : ℕ} (h : newVersionID (drawCtx i) n = newVersionID (drawCtx j) m) :
    i = j ∧ n = m := by
  have hrandom : replicate i (1 : UInt8) ++ replicate n 0 =
      replicate j 1 ++ replicate m 0 := Hex.encode_injective (append_cancel_left h)
  have hi := congrArg (count 1) hrandom
  have hn := congrArg (count 0) hrandom
  simp [count_replicate] at hi hn
  exact ⟨hi, hn⟩

def drawJobs (tasks : List ServerTask) : List ServerJob :=
  tasks.mapIdx fun i task => ⟨drawCtx i, task⟩

theorem drawJobs_drawnOnce (tasks : List ServerTask) (x : Pool calls Fault World Unit) (i : ℕ)
    (e : CallEvent) : DrawnOnce (drawJobs tasks) x i e := by
  have hctx {i : ℕ} {j : ServerJob} (hj : (drawJobs tasks)[i]? = some j) : j.ctx = drawCtx i := by
    rw [drawJobs, getElem?_mapIdx, Option.map_eq_some_iff] at hj
    obtain ⟨task, -, rfl⟩ := hj
    rfl
  intro v _ p _ v' _ hsame j j' hj hj' n n' hid hid'
  rw [hctx hj] at hid
  rw [hctx hj'] at hid'
  exact drawCtx_inj (hid'.symm.trans (hsame.trans hid))

/-- The jobs of a sample one after the other, each within thirty calls. -/
def inTurn (n : ℕ) : List (ℕ × Fault) :=
  (range n).flatMap fun i => replicate 30 (i, .ok)

/-- A bucket is versioned, and an object is written, changed and deleted. -/
def versionedTasks : List ServerTask :=
  [.s3 (.createBucket (str "b")), .s3 (.putBucketVersioning (str "b") (.document (str "Enabled"))),
    .s3 (.putObject objectRequest (str "b") (str "k") ⟨str "hi", false⟩),
    .ui (.updateObjectMimetype (str "b") (str "k") (str "text/plain")),
    .s3 (.deleteObject objectRequest (str "b") (str "k"))]

theorem versionIDs_identify_versioned :
    let x := stores.runPool (serverPool sampleAPI (drawJobs versionedTasks)) (inTurn 5)
    let st := x.world.metadata
    (st.versions (str "b") (str "k")).length = 3 ∧
      ((st.versions (str "b") (str "k")).map ObjectVersion.versionID).Nodup ∧
      (∀ v ∈ st.versions (str "b") (str "k"), Addressed st (str "b") (str "k") v) ∧
      ∀ b k l, st.objects.lookup (b, k) = some l → l ≠ [] := by
  have hmeets : stores.Meets (MimetypeInPlace (drawJobs versionedTasks))
      (serverPool sampleAPI (drawJobs versionedTasks)) (inTurn 5) := by decide +kernel
  have h := versionIDs_identify (hmeets.mono fun x i e hB =>
    .mk (drawJobs_drawnOnce versionedTasks x i e) hB)
  exact ⟨by decide +kernel, (h.1 _ _).2.1, (h.1 _ _).2.2, h.2 (by decide +kernel)⟩

def suspendedTasks : List ServerTask :=
  [.s3 (.createBucket (str "b")), .s3 (.putBucketVersioning (str "b") (.document (str "Enabled"))),
    .s3 (.putObject objectRequest (str "b") (str "k") ⟨str "hi", false⟩),
    .s3 (.putBucketVersioning (str "b") (.document (str "Suspended"))),
    .ui (.updateObjectMimetype (str "b") (str "k") (str "text/plain"))]

/-- **Two versions with one id**, though every id was drawn once and nothing failed; a read of the id
finds the version with the old MIME type. -/
theorem mimetype_repeats_versionID :
    let x := stores.runPool (serverPool sampleAPI (drawJobs suspendedTasks)) (inTurn 5)
    let rows := x.world.metadata.versions (str "b") (str "k")
    stores.Meets (DrawnOnce (drawJobs suspendedTasks))
        (serverPool sampleAPI (drawJobs suspendedTasks)) (inTurn 5) ∧
      rows.map ObjectVersion.versionID = [newVersionID (drawCtx 2) 0, newVersionID (drawCtx 2) 0] ∧
      rows.map (fun v => v.metadata.lookup (str "content-type")) = [none, some (str "text/plain")] ∧
      ((x.world.metadata.getObjectVersion (str "b") (str "k") (newVersionID (drawCtx 2) 0)).map
        fun v => v.metadata.lookup (str "content-type")) = .ok none ∧
      ¬ (rows.map ObjectVersion.versionID).Nodup := by
  refine ⟨?_, by decide +kernel, by decide +kernel, by decide +kernel, by decide +kernel⟩
  have hall : stores.Meets (fun _ _ _ => True) (serverPool sampleAPI (drawJobs suspendedTasks))
      (inTurn 5) := by decide +kernel
  exact hall.mono fun x i e _ => drawJobs_drawnOnce suspendedTasks x i e

end S000
