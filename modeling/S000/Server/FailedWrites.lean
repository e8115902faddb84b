import S000.Server.Sparing

/-!
# Server/FailedWrites — what a failed write leaves behind

A write puts its blob in place, by a rename or a promotion, before it looks at the digests the request
declares and before it puts its row; if one of those fails it deletes the blob again.  Afterwards what
was in that place is gone.  So a failed write keeps what is readable if nothing readable was in the place
of the new blob, as in a versioned bucket or under a new key, or if the request was refused before: for
what it asks for, or because the version it would replace is locked.
-/

namespace S000

open Strings Metadata Blob Prog

def S3Request.writesObject : S3Request → Bool
  | putObject .. | copyObject .. | completeMultipartUpload .. => true
  | _ => false

/-- No readable version has its file at the path. -/
def Vacant (w : World) (path : Bytes) : Prop := ∀ b k r, Readable w b k r → r.storagePath ≠ path

/-- A write that is refused for what it asks for or sends: an encryption that the server does not offer,
a body that breaks off, or a list of parts that no upload has. -/
def S3Request.Refused (a : S3API) : S3Request → Prop
  | putObject r bucket key body => (∃ e, validateSSEHeaders a r bucket key = .error e) ∨
    (requestObjectBody r body).fails = true
  | copyObject r bucket key => ∃ e, validateSSEHeaders a r bucket key = .error e
  | completeMultipartUpload _ bucket key _ body =>
    ∀ stored, ∃ e, listedParts bucket key stored body = .error e
  | _ => False

/-- The version that a write replaces is locked, and no call fails. -/
def LockedTarget (w : World) (s : Step) (bucket key versionID : Bytes) : Prop :=
  s.faults = [] ∧ versionID = nullVersion ∧
    ∃ r, Readable w bucket key r ∧ r.versionID = nullVersion ∧ objectLocked r s.ctx.now = true

/-- **When readable versions survive a failed write.** -/
def WriteCondition (a : S3API) (w : World) (s : Step) : Prop :=
  s.request.Refused a ∨
    ∀ b, w.metadata.getBucket s.request.bucket = .ok b → ∀ key ∈ s.request.keys,
      let versionID := writtenVersionID s.ctx b
      Vacant w (a.path ⟨s.request.bucket, key, versionID⟩) ∨
        LockedTarget w s s.request.bucket key versionID

variable {a : S3API} {w : World} {s : Step} {c : Ctx} {bucket key uploadID : Bytes} {r : Request}
  {body : Stream} {A : (o : Call) → o.Val → Prop} {G : Call → Prop}

/-! ## Refused writes -/

section Refused

variable {parts : XmlBody (List CompletedPart)} (hq : ∀ o, Call.Idle o → G o)

include hq

/-- A handler whose first half ends with an error makes no other calls than the first half. -/
theorem refused_only {α : Type} {stage : Act (Except Reply α)} {rest : Except Reply α → Act Reply}
    (h : stage.Only A G fun x => ∃ e, x = .error e) (hrest : ∀ e, rest (.error e) = pure e) :
    (runHeavy a bucket key (stage >>= rest)).Only A G fun _ => True := by
  refine runHeavy_only hq (h.bind fun x hx => ?_)
  obtain ⟨e, rfl⟩ := hx
  rw [hrest]
  trivial

theorem stagePut_refused (h : (∃ e, validateSSEHeaders a r bucket key = .error e) ∨
      (requestObjectBody r body).fails = true) :
    (stagePut a c r bucket key body).Only A G fun x => ∃ e, x = .error e := by
  refine ⟨hq _ trivial, fun v _ => ?_⟩
  rcases v with _ | b
  · exact ⟨_, rfl⟩
  refine (overwriteLocked_only hq).bind fun locked _ => only_ite (fun _ => ⟨_, rfl⟩) fun _ => ?_
  cases hsse : validateSSEHeaders a r bucket key with
  | error e => exact ⟨_, rfl⟩
  | ok encrypted =>
    have hfails := h.resolve_left (by simp [hsse])
    refine Only.bind (Q := (· = none)) ?_ fun x hx => ?_
    · refine only_ite (fun _ => writeObject_fails hq hfails) fun _ => only_ite (fun _ => rfl) fun _ => ?_
      have hciphertext : (⟨storedBytes a c.iv true (requestObjectBody r body).bytes,
        (requestObjectBody r body).fails⟩ : Stream).fails = true := hfails
      refine (writeObject_fails hq hciphertext).bind fun x hx => ?_
      subst hx
      rfl
    · subst hx
      exact ⟨_, rfl⟩

theorem stageCopy_refused (h : ∃ e, validateSSEHeaders a r bucket key = .error e) :
    (stageCopy a c r bucket key).Only A G fun x => ∃ e, x = .error e := by
  obtain ⟨e, he⟩ := h
  unfold stageCopy
  split
  · exact ⟨_, rfl⟩
  refine ⟨hq _ trivial, fun v _ => ?_⟩
  rcases v with _ | srcObj
  · exact ⟨_, rfl⟩
  refine only_ite (fun _ => ⟨_, rfl⟩) fun _ => ?_
  split
  · exact ⟨_, rfl⟩
  rw [he]
  exact ⟨_, rfl⟩

theorem stageComplete_refused (h : ∀ stored, ∃ e, listedParts bucket key stored parts = .error e) :
    (stageComplete a c r bucket key uploadID parts).Only A G fun x => ∃ e, x = .error e := by
  refine (findUpload_only hq).bind fun x _ => ?_
  rcases x with _ | ⟨u, stored⟩
  · exact ⟨_, rfl⟩
  obtain ⟨e, he⟩ := h (storedByNumber stored)
  dsimp only
  rw [he]
  exact ⟨_, rfl⟩

end Refused

/-! ## One request -/

def KeepsReadable (a : S3API) (w : World) (s : Step) : Prop :=
  ∀ b k r, Readable w b k r →
    Readable (after a w s) b k r ∧ readVersion a (after a w s) r = readVersion a w r

theorem Readable.stored {b k : Bytes} {v : ObjectVersion} (h : Readable w b k v)
    (hw : WellFormed a w) : v.storagePath = a.path (blobRef v) :=
  ((hw b k).rows v h.row).stored h.object

/-- A request that spares the readable versions keeps them readable. -/
theorem keepsReadable_of_spares (hw : WellFormed a w) (hfresh : FreshIDs a w s)
    (h : (handle a s.ctx s.request).Only (Answers w s.ctx (Readable w) (s.faults = []) False)
      (Spares a s.ctx (Readable w) False) fun _ => True) : KeepsReadable a w s := by
  intro b k r hr
  have hkept := kept_of_spares hw hfresh.once reads_of_faultless
    (fun _ _ _ hr => hr.row) h
  refine hr.of_files (hkept.rows b k r hr).1 ?_
  rw [hr.stored hw]
  exact files_after_of_untouched (hkept.blobs b k r hr)

/-- The place of a target is vacant, or the lock check has failed. -/
theorem target_spared (hw : WellFormed a w)
    (hcondition : ∀ b, w.metadata.getBucket bucket = .ok b →
      Vacant w (a.path ⟨bucket, key, writtenVersionID s.ctx b⟩) ∨
        LockedTarget w s bucket key (writtenVersionID s.ctx b)) {ref : ObjectRef}
    (h : Target (Answers w s.ctx (Readable w) (s.faults = []) False) s.ctx bucket key ref) :
    ∀ b k v, Readable w b k v → a.path (blobRef v) ≠ a.path ref := by
  obtain ⟨hb, hk, ⟨b, hbucket, hid⟩, hunlocked⟩ := h
  obtain ⟨_, _, versionID⟩ := ref
  subst hb hk hid
  rcases hcondition b (hbucket b rfl) with hvacant | ⟨hfaults, hnull, v, hv, hv', hlocked⟩
  · intro b' k' v hv
    rw [← hv.stored hw]
    exact hvacant b' k' v hv
  · obtain ⟨x, hx, hfree⟩ := hunlocked hnull
    have := hfree v ((hx hfaults v hv).1 hv'.symm)
    rw [hlocked] at this
    cases this

/-- **A write that meets the condition keeps what is readable.** -/
theorem WriteCondition.keepsReadable (hw : WellFormed a w) (hfresh : FreshIDs a w s)
    (hs : WriteCondition a w s) (hwrites : s.request.writesObject = true) : KeepsReadable a w s := by
  have hq : ∀ o, Call.Idle o → Spares a s.ctx (Readable w) False o := fun o ho => ho.quiet.spares
  refine keepsReadable_of_spares hw hfresh ?_
  rcases hs with hrefused | hcondition
  · obtain ⟨request, c, faults⟩ := s
    cases request with
    | putObject => exact inBucket_only hq (refused_only hq (stagePut_refused hq hrefused) fun _ => rfl)
    | copyObject => exact inBucket_only hq (refused_only hq (stageCopy_refused hq hrefused) fun _ => rfl)
    | completeMultipartUpload =>
      exact inBucket_only hq (refused_only hq (stageComplete_refused hq hrefused) fun _ => rfl)
    | _ => cases hwrites
  have hguard (key : Bytes) (hkey : key ∈ s.request.keys) :
      WriteGuard a (Answers w s.ctx (Readable w) (s.faults = []) False)
        (Spares a s.ctx (Readable w) False) s.ctx s.request.bucket key := by
    have hspared (ref : ObjectRef) (h : Target (Answers w s.ctx (Readable w) (s.faults = []) False)
        s.ctx s.request.bucket key ref) := target_spared hw (fun b hb => hcondition b hb key hkey) h
    refine writeGuard_spares ⟨0, rfl⟩ (fun ref h v hv hid => hspared ref h _ _ v hv ?_) hspared
    rw [(hw _ _).blobRef_eq hv.row, hid, ← h.bucket_eq, ← h.key_eq]
  obtain ⟨request, c, faults⟩ := s
  cases request with
  | putObject =>
    exact inBucket_only hq (handlePutObject_only hq (hguard _ List.mem_cons_self))
  | copyObject =>
    exact inBucket_only hq (handleCopyObject_only hq (hguard _ List.mem_cons_self))
  | completeMultipartUpload =>
    have hguard := hguard _ List.mem_cons_self
    exact inBucket_only hq (handleCompleteMultipartUpload_only hq (Call.Quiet.spares trivial)
      (Call.Quiet.spares trivial) (fun ref h _ => hguard.rename ref h 0 []) hguard)
  | _ => cases hwrites

/-! ## Histories -/

/-- **Failed writes are atomic** where they meet the condition: in every history from an empty server
that draws fresh ids, a version that is readable before a write that is answered with an error is
readable after it, with the same row and the same bytes. -/
theorem writes_keep_readable {history : List Step} (h : Throughout a (FreshIDs a) {} history) :
    Throughout a (fun w s => ∀ e, s.request.writesObject = true → (respond a w s).1 = .error e →
      WriteCondition a w s → KeepsReadable a w s) {} history :=
  (Throughout.of_step
    (fun _ _ hw hfresh => ⟨fun _ hwrites _ hs => hs.keepsReadable hw hfresh hwrites, hw.after hfresh⟩)
    wellFormed_empty h).1

/-! ## Two histories -/

def oneObject : List Step :=
  [⟨.createBucket (str "b"), sampleCtx 1, []⟩,
    ⟨.putObject objectRequest (str "b") (str "k") ⟨str "one", false⟩, sampleCtx 2, []⟩]

def overwrite (n : Time) (header : List (String × String)) : Step :=
  ⟨.putObject (objectRequest "" header) (str "b") (str "k") ⟨str "two", false⟩, sampleCtx n, []⟩

/-- A write that asks for an encryption the server does not offer. -/
def refusedWrite : Step := overwrite 4 [("x-amz-server-side-encryption", "aws:kms")]

theorem readable_of_any {bytes : Bytes} (hany : (w.metadata.versions bucket key).any (fun r =>
      r.deleteMarker = false ∧ (w.disk.files r.storagePath).isSome = true ∧
        (readVersion a w r).bytes = bytes) = true) :
    ∃ r, Readable w bucket key r ∧ (readVersion a w r).bytes = bytes := by
  obtain ⟨r, hr, h⟩ := List.any_eq_true.1 hany
  obtain ⟨hobject, hfile, hbytes⟩ := of_decide_eq_true h
  exact ⟨r, ⟨hr, hobject, hfile⟩, hbytes⟩

/-- The object is replaced, and a write that is refused before its blob is in place then keeps it. -/
theorem writes_keep_readable_refusedWrite :
    let history := oneObject ++ [overwrite 3 []]
    (respond sampleAPI (afterAll sampleAPI {} oneObject) (overwrite 3 [])).1.accepted = true ∧
    (∃ e, (respond sampleAPI (afterAll sampleAPI {} history) refusedWrite).1 = .error e) ∧
    ∃ r, Readable (after sampleAPI (afterAll sampleAPI {} history) refusedWrite)
        (str "b") (str "k") r ∧
      (readVersion sampleAPI (after sampleAPI (afterAll sampleAPI {} history) refusedWrite) r).bytes =
        str "two" := by
  have hnone : OneKey [] {} := by decide
  have hnone' : OneKey [] (after sampleAPI {} (oneObject[0])) := by decide +kernel
  have hone : OneKey [nullVersion] (afterAll sampleAPI {} oneObject) := by decide +kernel
  have hone' : OneKey [nullVersion] (afterAll sampleAPI {} (oneObject ++ [overwrite 3 []])) := by
    decide +kernel
  have hfresh : Throughout sampleAPI (FreshIDs sampleAPI) {}
      (oneObject ++ [overwrite 3 [], refusedWrite]) :=
    ⟨hnone.freshIDs (by decide) (by decide +kernel), hnone'.freshIDs (by decide) (by decide +kernel),
      hone.freshIDs (by decide) (by decide +kernel), hone'.freshIDs (by decide) (by decide +kernel),
      trivial⟩
  obtain ⟨r, hr, hbytes⟩ : ∃ r, Readable (afterAll sampleAPI {} (oneObject ++ [overwrite 3 []]))
      (str "b") (str "k") r ∧ _ = str "two" := readable_of_any (a := sampleAPI) (by decide +kernel)
  have hreply : (respond sampleAPI (afterAll sampleAPI {} (oneObject ++ [overwrite 3 []]))
      refusedWrite).1 = objectError (str "b") (str "k") 400 "InvalidArgument"
        "Unsupported server-side encryption algorithm." := by decide +kernel
  obtain ⟨hr', hread⟩ :=
    (writes_keep_readable hfresh).2.2.2.1 _ rfl hreply (.inl (.inl ⟨_, rfl⟩)) _ _ r hr
  exact ⟨by decide +kernel, ⟨_, hreply⟩, r, hr', (congrArg Stream.bytes hread).trans hbytes⟩

def badDigestWrite : Step := overwrite 3 [("Content-MD5", "AAAAAAAAAAAAAAAAAAAAAA==")]

/-- **A failed write that destroys the object**: the digest is compared after the old blob was
replaced, and the clean-up then deletes the blob that the old row names. -/
theorem badDigestWrite_destroys :
    (∃ r, Readable (afterAll sampleAPI {} oneObject) (str "b") (str "k") r ∧
      (readVersion sampleAPI (afterAll sampleAPI {} oneObject) r).bytes = str "one") ∧
    (respond sampleAPI (afterAll sampleAPI {} oneObject) badDigestWrite).1 =
      objectError (str "b") (str "k") 400 "BadDigest"
        "The Content-MD5 you specified did not match what we received." ∧
    ∀ r, ¬ Readable (after sampleAPI (afterAll sampleAPI {} oneObject) badDigestWrite)
      (str "b") (str "k") r := by
  refine ⟨readable_of_any (by decide +kernel), by decide +kernel, fun r hr => ?_⟩
  have hall : ∀ v ∈ (after sampleAPI (afterAll sampleAPI {} oneObject) badDigestWrite).metadata.versions
      (str "b") (str "k"), (after sampleAPI (afterAll sampleAPI {} oneObject)
        badDigestWrite).disk.files v.storagePath = none := by decide +kernel
  have hfile := hr.file
  rw [hall r hr.row] at hfile
  cases hfile

end S000
