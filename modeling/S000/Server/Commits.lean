import S000.Server.Contents

/-!
# Server/Commits — the two halves of a write

A write commits a blob and then a row.  In between it has a `debt`: the path of the file that it has put
in place and that no row of its own stands for yet.  A handler that writes puts a file in place only
where it has no debt, puts a row only of the file it owes one for, and, unless a call fails that should
clear the debt (`Sound`), it ends without one.

Among other requests, what a file is comes from the call that changed it last (`lastTouch`); a debt for
a file that no other request has changed since is one for the file that is there
(`lastTouch_of_debt`).
-/

namespace S000

open Strings Metadata Blob Prog List Machine Call

/-! ## Debts -/

def Call.settle (d : Option Bytes) : (o : Call) → o.Val → Option Bytes
  | rename _ _ p, v | promote _ _ p, v => cond v (some p) d
  | remove p, v => cond v (if d = some p then none else d) d
  | putObjectVersion row, v =>
    cond (Except.toBool v) (if d = some row.storagePath then none else d) d
  | _, _ => d

/-- **The debt of a request**: the file that it has put in place last, if it has neither removed it nor
put a row of it. -/
def debt (es : List CallEvent) : Option Bytes :=
  es.foldl (fun d e => e.op.settle d e.val) none

theorem debt_concat (es : List CallEvent) (e : CallEvent) :
    debt (es ++ [e]) = e.op.settle (debt es) e.val := by
  rw [debt, foldl_append]
  rfl

variable {o : Call}

theorem Call.Plain.settle (h : o.Plain) (d : Option Bytes) (v : o.Val) : o.settle d v = d := by
  cases o with
  | rename | promote | remove | putObjectVersion => exact h.elim
  | _ => rfl

/-- The answers that clear a debt, where they are asked for. -/
def Sound : (o : Call) → o.Val → Prop
  | .syncDir _, v | .removeUpload _, v | .remove _, v => v = true
  | .putObjectVersion _, v => v = .ok ()
  | _, _ => True

def Call.closes : Call → Bool
  | syncDir _ | removeUpload _ | remove _ | putObjectVersion _ => true
  | _ => false

theorem sound_step {w : World} {f : Fault} (h : o.closes = true → f = .ok) :
    Sound o (step w f o).1 := by
  cases o with
  | syncDir | removeUpload | remove | putObjectVersion =>
    obtain rfl := h rfl
    rfl
  | _ => trivial

/-- The calls of a write: `C` says which contents it stores, `promotes` whether it may turn a part into
an object, `R` which rows it puts. -/
def CommitGuard (C : Bytes → Prop) (promotes : Prop) (R : ObjectVersion → Prop)
    (es : List CallEvent) : Call → Prop
  | .rename _ content _ => C content ∧ debt es = none
  | .promote .. => promotes ∧ debt es = none
  | .remove p => debt es = some p
  | .putObjectVersion row => R row ∧ debt es = some row.storagePath
  | o => o.Plain

variable {es : List CallEvent}

theorem CommitGuard.mono {C C' : Bytes → Prop} {promotes promotes' : Prop}
    {R R' : ObjectVersion → Prop} (hC : ∀ x, C x → C' x)
    (hpromotes : promotes → promotes') (hR : ∀ row, R row → R' row)
    (h : CommitGuard C promotes R es o) : CommitGuard C' promotes' R' es o := by
  cases o with
  | rename => exact ⟨hC _ h.1, h.2⟩
  | promote => exact ⟨hpromotes h.1, h.2⟩
  | putObjectVersion => exact ⟨hR _ h.1, h.2⟩
  | _ => exact h

variable {R : ObjectVersion → Prop}

theorem Call.Plain.commitGuard {C : Bytes → Prop} {promotes : Prop} (h : o.Plain) :
    CommitGuard C promotes R es o := by
  cases o with
  | rename | promote | remove | putObjectVersion => exact h.elim
  | _ => exact h

/-- A row that a write may put: of the key, for the file at its own path, and marked as it was
written. -/
structure Committed (a : S3API) (A : (o : Call) → o.Val → Prop) (c : Ctx) (bucket key : Bytes)
    (encrypted : Bool) (row : ObjectVersion) : Prop where
  target : Target A c bucket key (blobRef row)
  path_eq : row.storagePath = a.path (blobRef row)
  marker_eq : row.deleteMarker = false
  marked : objectUsesSSE row = encrypted

/-! ## What the handlers call -/

section Walk

variable {a : S3API} {c : Ctx} {r : Request} {body : Stream} {bucket key uploadID : Bytes}
  {ref : ObjectRef} {src : Stream} {encrypted : Bool} {row : ObjectVersion}
  {A : (o : Call) → o.Val → Prop} {C : Bytes → Prop} {promotes : Prop} {R : ObjectVersion → Prop}
  {es : List CallEvent} {d : Option Bytes}

/-- **Plain calls leave a debt as it is.** -/
theorem guarded_of_plain {α : Type} {p : Act α} {Q : α → Prop} (h : p.Only A Plain Q)
    (hd : debt es = d) :
    p.Guarded A (CommitGuard C promotes R) (fun es x => debt es = d ∧ Q x) es := by
  refine ((Only.guarded h).keeping (fun es o f v hes ho _ => ?_)
    hd).weaken (fun _ _ h => h) fun es o h => Plain.commitGuard h.2
  rw [debt_concat, Plain.settle ho, hes]

theorem guarded_ask {Q : List CallEvent → o.Val → Prop} (ho : CommitGuard C promotes R es o)
    (hQ : ∀ f v, A o v → debt (es ++ [⟨o, f, v⟩]) = o.settle (debt es) v → Q (es ++ [⟨o, f, v⟩]) v) :
    (ask o).Guarded A (CommitGuard C promotes R) Q es :=
  ⟨ho, fun f v hv => hQ f v hv (debt_concat es _)⟩

/-- What is left of a write of a blob: nothing, or a record and a debt. -/
def BlobOutcome (path : Bytes) (M : ObjectMeta → Prop) (es : List CallEvent) : Option ObjectMeta → Prop
  | none => debt es = none
  | some m => M m ∧ debt es = some path

theorem inBucket_guarded {fn : Act Reply} (hd : debt es = none)
    (h : ∀ {es}, debt es = none → fn.Guarded A (CommitGuard C promotes R)
      (fun es _ => debt es = none) es) :
    (inBucket bucket fn).Guarded A (CommitGuard C promotes R) (fun es _ => debt es = none) es := by
  rw [inBucket, guarded_bind]
  refine guarded_ask trivial fun _ v _ hdebt => ?_
  rw [hd] at hdebt
  rcases v with _ | _
  · exact hdebt
  · exact h hdebt

variable (hA : ∀ o v, A o v → Sound o v)

include hA

theorem syncParentDir_guarded {s : Store} {path : Bytes} (hd : debt es = d) :
    (syncParentDir s path).Guarded A (CommitGuard C promotes R)
      (fun es synced => synced = true ∧ debt es = d) es := by
  refine guarded_ite (fun _ => ⟨rfl, hd⟩) fun _ => ?_
  exact guarded_ask trivial fun _ v hv hdebt => ⟨hA _ v hv, hdebt.trans hd⟩

theorem removeUpload_guarded (hd : debt es = d) :
    (ask (.removeUpload uploadID)).Guarded A (CommitGuard C promotes R)
      (fun es removed => removed = true ∧ debt es = d) es :=
  guarded_ask trivial fun _ v hv hdebt => ⟨hA _ v hv, hdebt.trans hd⟩

/-- **Writing an object.** -/
theorem writeObject_guarded {now : Time} (hC : C src.bytes) (hd : debt es = none) :
    (writeObject a.platform a.blob now ref src).Guarded A (CommitGuard C promotes R)
      (BlobOutcome (a.path ref) fun m => m = { digests a.platform src.bytes with
        ref, path := a.path ref, createdAt := now }) es := by
  have hclean {es : List CallEvent} (id : ℕ) (hd : debt es = none) :
      (cleanupTemp id).Guarded A (CommitGuard C promotes R) (BlobOutcome (a.path ref) fun m => m =
        { digests a.platform src.bytes with ref, path := a.path ref, createdAt := now }) es := by
    refine (guarded_of_plain (cleanupTemp_only (fun _ h => h.plain) id) hd).mono fun es x hx => ?_
    rw [hx.2]
    exact hx.1
  refine guarded_ite (fun _ => hd) fun _ => ?_
  refine (guarded_of_plain (fillTemp_only fun _ h => h.plain) hd).bind fun es t ht => ?_
  rcases t with _ | id
  · exact ht.1
  simp only [guarded_bind]
  refine guarded_ask trivial fun _ made _ hmade => ?_
  rw [ht.1] at hmade
  refine guarded_ite (fun _ => hclean id hmade) fun _ => ?_
  simp only [guarded_bind]
  refine guarded_ask ⟨hC, hmade⟩ fun _ renamed _ hrenamed => ?_
  rw [hmade] at hrenamed
  cases renamed with
  | false => exact hclean id hrenamed
  | true =>
    refine (syncParentDir_guarded hA hrenamed).bind fun es synced hsynced => ?_
    obtain ⟨rfl, hdebt⟩ := hsynced
    exact ⟨rfl, hdebt⟩

theorem writeMaybeEncryptedObject_guarded (hC : C (storedBytes a c.iv encrypted src.bytes))
    (hd : debt es = none) :
    (writeMaybeEncryptedObject a c ref src encrypted).Guarded A (CommitGuard C promotes R)
      (BlobOutcome (a.path ref) fun m => m = { digests a.platform src.bytes with
        ref, path := a.path ref, createdAt := c.now }) es := by
  cases encrypted with
  | false => exact writeObject_guarded hA hC hd
  | true =>
    refine guarded_ite nofun fun _ => guarded_ite (fun _ => hd) fun _ => ?_
    rw [guarded_bind]
    have hC' : C (⟨storedBytes a c.iv true src.bytes, src.fails⟩ : Stream).bytes := hC
    refine (writeObject_guarded hA hC' hd).mono fun es x hx => ?_
    rcases x with _ | base
    · exact hx
    · obtain ⟨rfl, hdebt⟩ := hx
      exact ⟨rfl, hdebt⟩

theorem completeMultipartUploadWithWriter_guarded {numbers : List ℤ} {path : Bytes}
    {write : Stream → Act (Option ObjectMeta)} {M : ObjectMeta → Prop} (hd : debt es = none)
    (hwrite : ∀ src {es}, debt es = none →
      (write src).Guarded A (CommitGuard C promotes R) (BlobOutcome path M) es) :
    (completeMultipartUploadWithWriter uploadID numbers write).Guarded A (CommitGuard C promotes R)
      (BlobOutcome path M) es := by
  refine guarded_ite (fun _ => hd) fun _ => ?_
  refine (guarded_of_plain (openParts_only (fun _ h => h.plain) numbers) hd).bind fun es x hx => ?_
  rcases x with _ | src
  · exact hx.1
  refine (hwrite src hx.1).bind fun es x hx => ?_
  rcases x with _ | m
  · exact hx
  refine (removeUpload_guarded hA hx.2).bind fun es removed hremoved => ?_
  obtain ⟨rfl, hdebt⟩ := hremoved
  exact ⟨hx.1, hdebt⟩

theorem promoteMultipartPart_guarded {n : ℤ} {part : Digests} {createdAt : Time} (hpromotes : promotes)
    (hd : debt es = none) :
    (promoteMultipartPart a.platform a.blob uploadID n ref part createdAt).Guarded A
      (CommitGuard C promotes R) (BlobOutcome (a.path ref) fun m => m =
        { part with ref, path := a.path ref, createdAt }) es := by
  simp only [promoteMultipartPart, guarded_bind]
  refine guarded_ask trivial fun _ made _ hmade => ?_
  rw [hd] at hmade
  refine guarded_ite (fun _ => hmade) fun _ => ?_
  rw [guarded_bind]
  refine guarded_ask ⟨hpromotes, hmade⟩ fun _ promoted _ hpromoted => ?_
  rw [hmade] at hpromoted
  cases promoted with
  | false => exact hpromoted
  | true =>
    refine (syncParentDir_guarded hA hpromoted).bind fun es synced hsynced => ?_
    obtain ⟨rfl, hdebt⟩ := hsynced
    refine (removeUpload_guarded hA hdebt).bind fun es removed hremoved => ?_
    obtain ⟨rfl, hdebt⟩ := hremoved
    exact ⟨rfl, hdebt⟩

theorem assemble_guarded {u : MultipartUpload} {stored : ℤ → Option MultipartPart} {numbers : List ℤ}
    (hC : ∀ data, C (storedBytes a c.iv (u.sseAlgorithm = sseAlgorithmAES256) data))
    (hpromotes : u.sseAlgorithm ≠ sseAlgorithmAES256 → promotes) (hd : debt es = none) :
    (assemble a c u stored uploadID numbers ref).Guarded A (CommitGuard C promotes R)
      (BlobOutcome (a.path ref) fun m => m.ref = ref ∧ m.path = a.path ref) es := by
  have hrecord {es : List CallEvent} {M : ObjectMeta → Prop}
      (hM : ∀ m, M m → m.ref = ref ∧ m.path = a.path ref) :
      ∀ x, BlobOutcome (a.path ref) M es x →
        BlobOutcome (a.path ref) (fun m => m.ref = ref ∧ m.path = a.path ref) es x := by
    intro x hx
    rcases x with _ | m
    · exact hx
    · exact ⟨hM m hx.1, hx.2⟩
  refine guarded_ite (fun hsse => ?_) fun hplain => ?_
  · refine completeMultipartUploadWithWriter_guarded hA hd fun src es hd => ?_
    have hC' := hC src.bytes
    rw [decide_eq_true hsse] at hC'
    exact (writeMaybeEncryptedObject_guarded hA hC' hd).mono fun es => hrecord fun m hm => by
      rw [hm]
      exact ⟨rfl, rfl⟩
  split
  · split
    · refine (promoteMultipartPart_guarded hA (hpromotes hplain) hd).mono fun es =>
        hrecord fun m hm => ?_
      rw [hm]
      exact ⟨rfl, rfl⟩
    · exact hd
  · refine completeMultipartUploadWithWriter_guarded hA hd fun src es hd => ?_
    have hC' := hC src.bytes
    rw [decide_eq_false hplain] at hC'
    exact (writeObject_guarded hA hC' hd).mono fun es => hrecord fun m hm => by
      rw [hm]
      exact ⟨rfl, rfl⟩

/-- What is left of a write before its row: a reply, or a row and a debt for it. -/
def RowOutcome (T : ObjectVersion → Prop) (es : List CallEvent) : Except Reply ObjectVersion → Prop
  | .error _ => debt es = none
  | .ok row => T row ∧ debt es = some row.storagePath

omit hA in
theorem overwriteLocked_guarded {versionID : Bytes} (hd : debt es = d) :
    (overwriteLocked c bucket key versionID).Guarded A (CommitGuard C promotes R)
      (fun es locked => debt es = d ∧ (¬ locked = true → ∀ b, A (.getBucket bucket) (.ok b) →
        versionID = writtenVersionID c b → Target A c bucket key ⟨bucket, key, versionID⟩)) es :=
  guarded_of_plain (overwriteLocked_only fun _ h => h.plain) hd

theorem deleteObject_guarded (hd : debt es = some (a.path ref)) :
    (deleteObject a.platform a.blob ref).Guarded A (CommitGuard C promotes R)
      (fun es _ => debt es = none) es := by
  refine guarded_ask hd fun _ v hv hdebt => ?_
  obtain rfl := hA _ v hv
  rw [hdebt, hd]
  exact if_pos rfl

/-- **A `PUT` up to its row.** -/
theorem stagePut_guarded (hC : C (putBytes a c r body)) (hd : debt es = none) :
    (stagePut a c r bucket key body).Guarded A (CommitGuard C promotes R)
      (RowOutcome fun row => ∃ ref, Target A c bucket key ref ∧ row = putRow a c r body ref) es := by
  simp only [stagePut, guarded_bind]
  refine guarded_ask trivial fun _ v hb hdebt => ?_
  rw [hd] at hdebt
  rcases v with _ | b
  · exact hdebt
  refine (overwriteLocked_guarded hdebt).bind fun es locked hlocked => ?_
  refine guarded_ite (fun _ => hlocked.1) fun hfalse => ?_
  have htarget := hlocked.2 hfalse b hb rfl
  cases hsse : validateSSEHeaders a r bucket key with
  | error e => exact hlocked.1
  | ok encrypted =>
    obtain ⟨rfl, -⟩ := validateSSEHeaders_ok hsse
    refine (writeMaybeEncryptedObject_guarded hA hC hlocked.1).bind fun es x hx => ?_
    rcases x with _ | m
    · exact hx
    obtain ⟨rfl, hdebt⟩ := hx
    dsimp only
    split
    · exact (deleteObject_guarded hA hdebt).bind fun es _ h => h
    · exact ⟨⟨_, htarget, rfl⟩, hdebt⟩

/-- **A copy up to its row.** -/
theorem stageCopy_guarded (hC : ∀ data, C (storedBytes a c.iv (sseRequested r) data))
    (hd : debt es = none) :
    (stageCopy a c r bucket key).Guarded A (CommitGuard C promotes R)
      (RowOutcome (Committed a A c bucket key (sseRequested r))) es := by
  unfold stageCopy
  split
  · exact hd
  rw [guarded_bind]
  refine guarded_ask trivial fun _ v _ hdebt => ?_
  rw [hd] at hdebt
  rcases v with _ | srcObj
  · exact hdebt
  refine guarded_ite (fun _ => hdebt) fun _ => ?_
  split
  · exact hdebt
  cases hsse : validateSSEHeaders a r bucket key with
  | error e => exact hdebt
  | ok encrypted =>
    obtain ⟨rfl, -⟩ := validateSSEHeaders_ok hsse
    refine (guarded_of_plain (readMaybeEncryptedObject_only (fun _ h => h.plain) srcObj none)
      hdebt).bind fun es source hsource => ?_
    rw [guarded_bind]
    refine guarded_ask trivial fun _ v hb hdebt => ?_
    rw [hsource.1] at hdebt
    rcases v with _ | b
    · exact hdebt
    refine (overwriteLocked_guarded hdebt).bind fun es locked hlocked => ?_
    refine guarded_ite (fun _ => hlocked.1) fun hfalse => ?_
    have htarget := hlocked.2 hfalse b hb rfl
    rw [guarded_bind]
    have hC' : C (storedBytes a c.iv (sseRequested r) (⟨source.bytes, false⟩ : Stream).bytes) := hC _
    refine (writeMaybeEncryptedObject_guarded hA hC' hlocked.1).mono fun es x hx => ?_
    rcases x with _ | m
    · exact hx
    obtain ⟨rfl, hdebt⟩ := hx
    refine guarded_ite (fun _ => ?_) fun _ => ?_
    · exact (deleteObject_guarded hA hdebt).bind fun es _ h => h
    · exact ⟨⟨htarget, rfl, rfl, objectUsesSSE_of_mark rfl⟩, hdebt⟩

variable {parts : XmlBody (List CompletedPart)}

/-- **A completion up to its row.** -/
theorem stageComplete_guarded
    (hupload : ∀ u stored, A (.getMultipartUpload uploadID) (.ok (u, stored)) →
      decide (u.sseAlgorithm = sseAlgorithmAES256) = encrypted)
    (hC : ∀ data, C (storedBytes a c.iv encrypted data)) (hpromotes : encrypted = false → promotes)
    (hd : debt es = none) :
    (stageComplete a c r bucket key uploadID parts).Guarded A (CommitGuard C promotes R)
      (RowOutcome (Committed a A c bucket key encrypted)) es := by
  have hfind : (findUpload bucket key uploadID).Only A Plain fun x => ∀ u stored,
      x = some (u, stored) → decide (u.sseAlgorithm = sseAlgorithmAES256) = encrypted := by
    refine ⟨trivial, fun v hv => ?_⟩
    rcases v with _ | ⟨u, stored⟩
    · exact nofun
    intro u' stored' h
    split_ifs at h
    cases h
    exact hupload u stored hv
  refine (guarded_of_plain hfind hd).bind fun es x hx => ?_
  rcases x with _ | ⟨u, stored⟩
  · exact hx.1
  obtain rfl := hx.2 u stored rfl
  dsimp only
  split
  · exact hx.1
  rw [guarded_bind]
  refine guarded_ask trivial fun _ v hb hdebt => ?_
  rw [hx.1] at hdebt
  rcases v with _ | b
  · exact hdebt
  refine (overwriteLocked_guarded hdebt).bind fun es locked hlocked => ?_
  refine guarded_ite (fun _ => hlocked.1) fun hfalse => ?_
  have htarget := hlocked.2 hfalse b hb rfl
  refine (assemble_guarded hA hC (fun h => hpromotes (decide_eq_false h)) hlocked.1).bind
    fun es x hx => ?_
  rcases x with _ | m
  · exact hx
  obtain ⟨⟨href, hpath⟩, hdebt⟩ := hx
  have hblob (eTag : Bytes) (metadata : StrMap) : blobRef (objectRow m eTag metadata) =
      ⟨bucket, key, writtenVersionID c b⟩ := href
  refine ⟨⟨?_, ?_, rfl, objectUsesSSE_of_mark rfl⟩, ?_⟩
  · rwa [hblob]
  · rw [hblob]
    exact hpath
  · rw [hdebt, ← hpath]
    rfl

theorem insertVersion_guarded {failure : Reply} {success : Act Reply} (hR : R row)
    (hd : debt es = some row.storagePath)
    (hsuccess : success.Only A Plain fun _ => True) :
    (insertVersion a row failure success).Guarded A (CommitGuard C promotes R)
      (fun es _ => debt es = none) es := by
  rw [insertVersion, guarded_bind]
  refine guarded_ask ⟨hR, hd⟩ fun _ v hv hdebt => ?_
  obtain rfl := hA _ v hv
  refine (guarded_of_plain hsuccess ?_).mono fun es _ h => h.1
  rw [hdebt, hd]
  exact if_pos rfl

theorem commit_guarded {stage : Act (Except Reply ObjectVersion)} {T : ObjectVersion → Prop}
    {failure : Reply} {success : ObjectVersion → Act Reply} (hT : ∀ row, T row → R row)
    (hsuccess : ∀ row, (success row).Only A Plain fun _ => True)
    (hstage : ∀ {es}, debt es = none → stage.Guarded A (CommitGuard C promotes R) (RowOutcome T) es)
    (hd : debt es = none) :
    (runHeavy a bucket key (stage >>= fun x => match x with
      | .error e => pure e
      | .ok row => insertVersion a row failure (success row))).Guarded A (CommitGuard C promotes R)
      (fun es _ => debt es = none) es := by
  have hrest {es : List CallEvent} (hd : debt es = none) : (stage >>= fun x => match x with
      | .error e => pure e
      | .ok row => insertVersion a row failure (success row)).Guarded A (CommitGuard C promotes R)
      (fun es _ => debt es = none) es := by
    refine (hstage hd).bind fun es x hx => ?_
    rcases x with e | row
    · exact hx
    · exact insertVersion_guarded hA (hT row hx.1) hx.2 (hsuccess row)
  refine guarded_ite (fun _ => hrest hd) fun _ => ?_
  rw [guarded_bind]
  refine guarded_ask trivial fun _ acquired _ hdebt => ?_
  rw [hd] at hdebt
  exact guarded_ite (fun _ => hdebt) fun _ => hrest hdebt

/-- **A `PUT`.** -/
theorem handlePutObject_guarded (hd : debt es = none) :
    (handlePutObject a c r bucket key body).Guarded A
      (CommitGuard (· = putBytes a c r body) False fun row =>
        ∃ ref, Target A c bucket key ref ∧ row = putRow a c r body ref)
      (fun es _ => debt es = none) es :=
  commit_guarded hA (fun _ h => h) (fun _ => trivial) (fun hd => stagePut_guarded hA rfl hd) hd

/-- **A copy.** -/
theorem handleCopyObject_guarded (hd : debt es = none) :
    (handleCopyObject a c r bucket key).Guarded A
      (CommitGuard (fun x => ∃ data, x = storedBytes a c.iv (sseRequested r) data) False
        (Committed a A c bucket key (sseRequested r)))
      (fun es _ => debt es = none) es :=
  commit_guarded hA (fun _ h => h) (fun _ => trivial)
    (fun hd => stageCopy_guarded hA (fun data => ⟨data, rfl⟩) hd) hd

/-- **A completion.** -/
theorem handleCompleteMultipartUpload_guarded
    (hupload : ∀ u stored, A (.getMultipartUpload uploadID) (.ok (u, stored)) →
      decide (u.sseAlgorithm = sseAlgorithmAES256) = encrypted) (hd : debt es = none) :
    (handleCompleteMultipartUpload a c r bucket key uploadID parts).Guarded A
      (CommitGuard (fun x => ∃ data, x = storedBytes a c.iv encrypted data) (encrypted = false)
        (Committed a A c bucket key encrypted))
      (fun es _ => debt es = none) es :=
  commit_guarded hA (fun _ h => h) (fun _ => ⟨trivial, fun _ _ => trivial⟩)
    (fun hd => stageComplete_guarded hA hupload (fun data => ⟨data, rfl⟩) (fun h => h) hd) hd

end Walk

/-! ## Files among other requests -/

/-- What a call does to the file at a path: it puts one in place, or removes it. -/
def Call.touch (path : Bytes) : (o : Call) → o.Val → Option Bool
  | rename _ _ p, v | promote _ _ p, v => if p = path then cond v (some true) none else none
  | remove p, v => if p = path then cond v (some false) none else none
  | _, _ => none

/-- **The last change of the file at a path**: which request made it, and whether the file was put in
place. -/
def lastTouch (path : Bytes) (events : List (ℕ × CallEvent)) : Option (ℕ × Bool) :=
  events.foldl (fun x t => ((t.2.op.touch path t.2.val).map (t.1, ·)).or x) none

/-- The debt of a request, by the events of all of them. -/
def debtOf (events : List (ℕ × CallEvent)) (i : ℕ) : Option Bytes :=
  debt (events.filterMap fun t => if t.1 = i then some t.2 else none)

section Pools

variable {path : Bytes} {events : List (ℕ × CallEvent)} {i j : ℕ} {e : CallEvent} {w : World}
  {f : Fault} {o : Call}

theorem debtOf_eventsOf (x : Pool calls Fault World Reply) (i : ℕ) :
    debtOf x.events i = debt (eventsOf x i) := rfl

theorem lastTouch_concat : lastTouch path (events ++ [(i, e)]) =
    ((e.op.touch path e.val).map (i, ·)).or (lastTouch path events) := by
  rw [lastTouch, foldl_append]
  rfl

theorem debtOf_concat_self : debtOf (events ++ [(i, e)]) i = e.op.settle (debtOf events i) e.val := by
  unfold debtOf
  rw [filterMap_append, filterMap_cons, if_pos rfl]
  exact debt_concat _ e

theorem debtOf_concat_of_ne (h : j ≠ i) : debtOf (events ++ [(i, e)]) j = debtOf events j := by
  unfold debtOf
  rw [filterMap_append, filterMap_cons, filterMap_nil, if_neg h.symm]
  rw [append_nil]

/-- A debt for a path has just been made, or goes on where the path is not touched. -/
theorem Call.settle_cases {d : Option Bytes} (v : o.Val) (h : o.settle d v = some path) :
    o.touch path v = some true ∨ o.touch path v = none ∧ d = some path := by
  cases o with
  | rename id content p | promote u n p =>
    revert v
    refine fun v h => ?_
    cases v with
    | false => exact .inr ⟨ite_self _, h⟩
    | true => exact .inl (if_pos (Option.some.inj h))
  | remove p =>
    revert v
    refine fun v h => ?_
    cases v with
    | false => exact .inr ⟨ite_self _, h⟩
    | true =>
      change (if d = some p then none else d) = some path at h
      split_ifs at h with hp
      exact .inr ⟨if_neg fun heq => hp (h.trans (congrArg some heq.symm)), h⟩
  | putObjectVersion row =>
    revert v
    refine fun v h => .inr ⟨rfl, ?_⟩
    rcases v with _ | _
    · exact h
    change (if d = some row.storagePath then none else d) = some path at h
    split_ifs at h
    exact h
  | _ => exact .inr ⟨rfl, h⟩

theorem Call.eq_of_touch (v : o.Val) (h : o.touch path v = some true) :
    (∃ id content, o = .rename id content path) ∨ ∃ u n, o = .promote u n path := by
  cases o with
  | rename id content p =>
    change (if p = path then _ else none) = some true at h
    split_ifs at h with hp
    exact .inl ⟨id, content, by rw [hp]⟩
  | promote u n p =>
    change (if p = path then _ else none) = some true at h
    split_ifs at h with hp
    exact .inr ⟨u, n, by rw [hp]⟩
  | remove p =>
    change (if p = path then _ else none) = some true at h
    split_ifs at h
    revert v
    refine fun v h => ?_
    cases v <;> cases h
  | _ => cases h

theorem Call.eq_remove_of_touch (v : o.Val) (h : o.touch path v = some false) : o = .remove path := by
  cases o with
  | rename id content p | promote u n p =>
    change (if p = path then _ else none) = some false at h
    split_ifs at h
    revert v
    refine fun v h => ?_
    cases v <;> cases h
  | remove p =>
    change (if p = path then _ else none) = some false at h
    split_ifs at h with hp
    rw [hp]
  | _ => cases h

theorem Call.settle_of_touch {d : Option Bytes} (v : o.Val) (h : o.touch path v = some true) :
    o.settle d v = some path := by
  obtain ⟨id, content, rfl⟩ | ⟨u, n, rfl⟩ := eq_of_touch v h <;>
  · change (if path = path then _ else none) = some true at h
    rw [if_pos rfl] at h
    revert v
    refine fun v h => ?_
    cases v with
    | false => cases h
    | true => rfl

/-- **A debt for a file that the request itself has changed last** is one for a file that is there. -/
theorem lastTouch_of_debt {b : Bool} (hdebt : debtOf events i = some path)
    (hlast : lastTouch path events = some (i, b)) : b = true := by
  induction events using reverseRecOn with
  | nil => cases hlast
  | append_singleton events t ih =>
    obtain ⟨j, e⟩ := t
    rw [lastTouch_concat] at hlast
    by_cases hj : i = j
    · subst hj
      rw [debtOf_concat_self] at hdebt
      rcases settle_cases _ hdebt with htouch | ⟨htouch, hdebt⟩
      · rw [htouch] at hlast
        cases hlast
        rfl
      · rw [htouch] at hlast
        exact ih hdebt hlast
    · rw [debtOf_concat_of_ne hj] at hdebt
      cases htouch : e.op.touch path e.val with
      | none =>
        rw [htouch] at hlast
        exact ih hdebt hlast
      | some b' =>
        rw [htouch] at hlast
        exact absurd (Prod.mk.inj (Option.some.inj hlast)).1.symm hj

theorem files_of_touch_eq_none (h : o.touch path (step w f o).1 = none) :
    (step w f o).2.disk.files path = w.disk.files path := by
  have hchange := fileChange_step w f o path
  generalize hv : (step w f o).1 = v at hchange h
  generalize (step w f o).2.disk.files path = x' at hchange ⊢
  cases hchange with
  | same => rfl
  | rename | promote | remove => simp [touch] at h

theorem files_of_touch {b : Bool} (h : o.touch path (step w f o).1 = some b) :
    b = false ∧ (step w f o).2.disk.files path = none ∨
    b = true ∧ ∃ content, (step w f o).2.disk.files path = some content ∧
      ∀ id x p, o = .rename id x p → x = content := by
  cases o with
  | rename id content p =>
    generalize hstep : step w f (.rename id content p) = y at h ⊢
    obtain ⟨(_ | _), w'⟩ := y
    · exact absurd h (by simp [touch])
    obtain ⟨rfl, rfl⟩ : p = path ∧ true = b := by simpa [touch] using h
    refine .inr ⟨rfl, content, ?_, fun _ _ _ heq => by cases heq; rfl⟩
    rw [(stored_of_rename hstep).files, Function.update_self]
  | promote u n p =>
    generalize hstep : step w f (.promote u n p) = y at h ⊢
    obtain ⟨(_ | _), w'⟩ := y
    · exact absurd h (by simp [touch])
    obtain ⟨rfl, rfl⟩ : p = path ∧ true = b := by simpa [touch] using h
    obtain ⟨content, -, hstored⟩ := stored_of_promote hstep
    refine .inr ⟨rfl, content, ?_, nofun⟩
    rw [hstored.files, Function.update_self]
  | remove p =>
    generalize hstep : step w f (.remove p) = y at h ⊢
    obtain ⟨(_ | _), w'⟩ := y
    · exact absurd h (by simp [touch])
    obtain ⟨rfl, rfl⟩ : p = path ∧ false = b := by simpa [touch] using h
    obtain ⟨-, rfl⟩ := changing_eq_true hstep
    exact .inl ⟨rfl, by rw [Disk.files_setFile, if_pos rfl]⟩
  | _ => cases h

theorem CommitGuard.settle {C : Bytes → Prop} {promotes : Prop} (h : CommitGuard C promotes R es o)
    (hd : debt es = some path) (v : o.Val) (htouch : o.touch path v = none) :
    o.settle (debt es) v = some path ∨ ∃ row, o = .putObjectVersion row ∧ row.storagePath = path := by
  cases o with
  | rename | promote => cases hd.symm.trans h.2
  | remove p =>
    obtain rfl : path = p := Option.some.inj (hd.symm.trans h)
    revert v
    refine fun v htouch => .inl ?_
    cases v with
    | false => exact hd
    | true => simp [touch] at htouch
  | putObjectVersion row => exact .inr ⟨row, rfl, Option.some.inj (h.2.symm.trans hd)⟩
  | _ => exact .inl hd

/-- **Requests that have ended owe nothing.** -/
theorem debtOf_of_done {x₀ x : Pool calls Fault World Reply} {A : ℕ → (o : Call) → o.Val → Prop}
    {G : ℕ → List CallEvent → Call → Prop} {schedule : List (ℕ × Fault)} (hstart : x₀.events = [])
    (hrun : stores.runPool x₀ schedule = x) (hthreads : ∀ i (p : Act Reply), x.threads[i]? = some p →
      p.Guarded (A i) (G i) (fun es _ => debt es = none) (eventsOf x i))
    (hdone : ∀ p ∈ x.threads, p.result?.isSome = true) (i : ℕ) : debtOf x.events i = none := by
  cases hi : x.threads[i]? with
  | some p =>
    obtain ⟨reply, rfl⟩ := eq_ret_of_result? (hdone p (mem_of_getElem? hi))
    exact hthreads i _ hi
  | none =>
    have hnil : eventsOf x i = [] := by
      refine eq_nil_iff_forall_not_mem.2 fun e he => ?_
      subst hrun
      have hlt := lt_of_mem_events (by rw [hstart]; nofun) _ (mem_eventsOf.1 he)
      rw [getElem?_eq_none_iff] at hi
      omega
    rw [debtOf_eventsOf, hnil]
    rfl

end Pools

end S000
