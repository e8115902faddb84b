import S000.Server.Contents

/-!
# Server/Parts — the parts of multipart uploads

The metadata store has a row for a part and the blob store a file, and neither knows of the other.
What a history has to keep is `Staging`: where a part has both a row and a file, the file consists of the
bytes that were uploaded last and the row describes them.  Only an upload of a part can break it; every
other request takes rows and files away at most (`Shrinks`).

An upload replaces the part file first.  When it goes wrong after that it removes all part files of the
upload again, unless what went wrong is the sync of their directory: then the new file stays beside the
old row.  `StagingCondition` excludes that, and clean-ups that fail.
-/

namespace S000

open Strings Metadata Blob Machine MemoryState Function AList Option

/-! ## The last upload of a part -/

/-- The bytes of parts, by upload and number. -/
abbrev Uploads := Bytes → ℤ → Option Bytes

/-- What is known to be uploaded after one more request: an upload that was answered with 200 counts. -/
def recordUpload (g : Uploads) : S3Request → Reply → Uploads
  | .uploadPart r _ _ uploadID body, .answer 200 _ _ => match partNumberOf r with
    | some n => update g uploadID
        (update (g uploadID) n (some (requestObjectBody r body).bytes))
    | none => g
  | _, _ => g

/-- **The last uploads**: what a history that starts in a world has uploaded, after what `g` says. -/
def lastUploads (a : S3API) : World → Uploads → List Step → Uploads
  | _, g, [] => g
  | w, g, s :: history =>
    lastUploads a (after a w s) (recordUpload g s.request (respond a w s).1) history

/-! ## The invariant -/

/-- **The invariant**: a part that has a row and a file is the last one that was uploaded, and its row
describes it. -/
structure Staging (a : S3API) (g : Uploads) (w : World) : Prop where
  part : ∀ u n p d, (w.metadata.partsOf u).lookup n = some p → w.disk.staged u n = some d →
    g u n = some d ∧ p.eTag = Hex.encode (a.platform.md5 d) ∧ p.size = d.length
  numbered : ∀ u n p, (w.metadata.partsOf u).lookup n = some p → p.partNumber = n
  /-- An upload that is to be encrypted was accepted under a key of the right length. -/
  keyed : ∀ u up, w.metadata.multipart.lookup u = some up →
    up.sseAlgorithm = sseAlgorithmAES256 → a.sseKey.length = 32

/-- Rows and files of parts were taken away at most. -/
structure Shrinks (w w' : World) : Prop where
  rows : ∀ u n p, (w'.metadata.partsOf u).lookup n = some p →
    (w.metadata.partsOf u).lookup n = some p
  files : ∀ u n d, w'.disk.staged u n = some d → w.disk.staged u n = some d
  uploads : ∀ u up, w'.metadata.multipart.lookup u = some up → w.metadata.multipart.lookup u = some up

variable {a : S3API} {g : Uploads} {w w' : World} {o : Call} {c : Ctx} {r : Request} {s : Step}
  {bucket key uploadID : Bytes} {body : Stream} {B : World → Event calls Fault → Prop}
  {Q : Reply → World → Prop}

theorem Staging.of_shrinks (h : Staging a g w) (hs : Shrinks w w') : Staging a g w' where
  part u n p d hp hd := h.part u n p d (hs.rows u n p hp) (hs.files u n d hd)
  numbered u n p hp := h.numbered u n p (hs.rows u n p hp)
  keyed u up hup := h.keyed u up (hs.uploads u up hup)

theorem Shrinks.refl (w : World) : Shrinks w w := ⟨fun _ _ _ h => h, fun _ _ _ h => h, fun _ _ h => h⟩

/-- Uploads, parts and part files are as before. -/
structure World.SameUploads (w w' : World) : Prop where
  uploads : w'.metadata.multipart = w.metadata.multipart
  rows : w'.metadata.parts = w.metadata.parts
  files : w'.disk.staged = w.disk.staged

theorem World.SameUploads.refl (w : World) : w.SameUploads w := ⟨rfl, rfl, rfl⟩

theorem World.SameUploads.trans {w'' : World} (h : w.SameUploads w') (h' : w'.SameUploads w'') :
    w.SameUploads w'' :=
  ⟨h'.uploads.trans h.uploads, h'.rows.trans h.rows, h'.files.trans h.files⟩

theorem World.Kept.sameUploads (h : w.Kept w') : w.SameUploads w' :=
  ⟨by rw [h.metadata], by rw [h.metadata], h.staged⟩

theorem World.SameUploads.shrinks (h : w.SameUploads w') : Shrinks w w' where
  rows u n p hp := by rwa [partsOf, h.rows] at hp
  files u n d hd := by rwa [h.files] at hd
  uploads u up hup := by rwa [h.uploads] at hup

theorem World.Kept.shrinks (h : w.Kept w') : Shrinks w w' := h.sameUploads.shrinks

/-! ## Calls -/

/-- The upload that a call is about: no other is changed by it. -/
def Call.upload? : Call → Option Bytes
  | createMultipartUpload u => some u.uploadID
  | upsertMultipartPart p => some p.uploadID
  | deleteMultipartUpload u | renamePart _ _ u _ | promote u .. | removeUpload u => some u
  | _ => none

theorem Call.Idle.upload?_eq_none (h : o.Idle) : o.upload? = none := by
  cases o <;> first | exact h.elim | rfl

variable {f : Fault}

theorem sameUploads_writing {α : Type} {x : Except Error α × MemoryState}
    (hmultipart : x.2.multipart = w.metadata.multipart) (hparts : x.2.parts = w.metadata.parts) :
    w.SameUploads (writing w f x).2 := by
  rcases writing_cases w f x with h | h <;> rw [h]
  · exact .refl w
  · exact ⟨hmultipart, hparts, rfl⟩

theorem sameUploads_changing {there : Bool} {d : Disk} (hd : d.staged = w.disk.staged) :
    w.SameUploads (changing w f there d).2 := by
  rcases changing_cases w f there d with h | ⟨h, -⟩ <;> rw [h]
  · exact .refl w
  · exact ⟨rfl, rfl, hd⟩

theorem uploads_dropNullVersion (st : MemoryState) (v : ObjectVersion) :
    (st.dropNullVersion v).multipart = st.multipart ∧ (st.dropNullVersion v).parts = st.parts := by
  unfold dropNullVersion
  split_ifs <;> exact ⟨rfl, rfl⟩

/-- **A call that is about no upload** leaves them as they are. -/
theorem sameUploads_step (h : o.upload? = none) (w : World) (f : Fault) :
    w.SameUploads (step w f o).2 := by
  cases o with
  | createMultipartUpload | upsertMultipartPart | deleteMultipartUpload | renamePart | promote
  | removeUpload => cases h
  | createBucket b => refine sameUploads_writing ?_ ?_ <;> unfold createBucket <;> split_ifs <;> rfl
  | updateBucketVersioning b v =>
    refine sameUploads_writing ?_ ?_ <;> unfold updateBucketVersioning <;> split <;> rfl
  | deleteBucket b => refine sameUploads_writing ?_ ?_ <;> unfold deleteBucket <;> split_ifs <;> rfl
  | putObjectVersion v =>
    have hdrop := uploads_dropNullVersion w.metadata v
    rw [step]
    rcases putting_cases w v f with h | h | h <;> rw [h]
    · exact .refl w
    · exact ⟨hdrop.1, hdrop.2, rfl⟩
    · exact ⟨hdrop.1, hdrop.2, rfl⟩
  | updateObjectMetadata b k v m =>
    refine sameUploads_writing ?_ ?_ <;> unfold updateObjectMetadata <;> dsimp only <;> split <;> rfl
  | deleteObjectVersion b k v =>
    refine sameUploads_writing ?_ ?_ <;> unfold deleteObjectVersion <;> dsimp only <;>
      split <;> (try split_ifs) <;> rfl
  | deleteAllObjectVersions b k =>
    rw [step]
    rcases deletingAll_cases w b k f with h | h <;> rw [h]
    · exact .refl w
    unfold deleteAllObjectVersions
    dsimp only
    split_ifs <;> exact ⟨rfl, rfl, rfl⟩
  | createTemp =>
    rw [step]
    split_ifs <;> exact ⟨rfl, rfl, rfl⟩
  | removeTemp | rename | remove => exact sameUploads_changing rfl
  | _ => exact .refl w

/-- The calls that add no upload, no part and no part file. -/
def Call.Shrinking : Call → Prop
  | createMultipartUpload _ | upsertMultipartPart _ | renamePart .. => False
  | _ => True

theorem shrinks_changing {there : Bool} {d : Disk}
    (hd : ∀ u n x, d.staged u n = some x → w.disk.staged u n = some x) :
    Shrinks w (changing w f there d).2 := by
  rcases changing_cases w f there d with h | ⟨h, -⟩ <;> rw [h]
  · exact .refl w
  · exact ⟨fun _ _ _ h => h, hd, fun _ _ h => h⟩

theorem Disk.staged_setPart (d : Disk) (u u' : Bytes) (n n' : ℤ) (x : Option Bytes) :
    (d.setPart u n x).staged u' n' = if u' = u ∧ n' = n then x else d.staged u' n' := by
  unfold setPart
  by_cases hu : u' = u
  · subst hu
    simp [update_apply]
  · simp [hu]

theorem Disk.staged_dropParts (d : Disk) (u u' : Bytes) (gone : ℤ → Bool) (n : ℤ) :
    (d.dropParts u gone).staged u' n = if u' = u ∧ gone n = true then none else d.staged u' n := by
  unfold dropParts
  by_cases hu : u' = u
  · subst hu
    simp
  · simp [hu]

/-- **What such a call does.** -/
theorem Call.Shrinking.shrinks (h : o.Shrinking) (w : World) (f : Fault) :
    Shrinks w (step w f o).2 := by
  by_cases hnone : o.upload? = none
  · exact (sameUploads_step hnone w f).shrinks
  cases o with
  | createMultipartUpload | upsertMultipartPart | renamePart => exact h.elim
  | deleteMultipartUpload u =>
    -- the rows of the upload go, and those of the others stay
    have herase : Shrinks w { w with metadata := (w.metadata.deleteMultipartUpload u).2 } := by
      unfold MemoryState.deleteMultipartUpload
      split_ifs
      · refine ⟨fun u' n p hp => ?_, fun _ _ _ h => h, fun u' up hup => ?_⟩
        · by_cases hu : u' = u
          · subst hu
            simp [partsOf] at hp
          · simpa [partsOf, lookup_erase_ne hu] using hp
        · by_cases hu : u' = u
          · subst hu
            simp at hup
          · simpa [lookup_erase_ne hu] using hup
      · exact .refl w
    rw [step]
    rcases writing_cases w f (w.metadata.deleteMultipartUpload u) with h | h <;> rw [h]
    · exact .refl w
    · exact herase
  | promote u n path =>
    refine shrinks_changing fun u' n' d hd => ?_
    change (w.disk.setPart u n none).staged u' n' = some d at hd
    rw [Disk.staged_setPart] at hd
    split_ifs at hd
    exact hd
  | removeUpload u =>
    have hdrop (gone : ℤ → Bool) : Shrinks w { w with disk := w.disk.dropParts u gone } := by
      refine ⟨fun _ _ _ h => h, fun u' n d hd => ?_, fun _ _ h => h⟩
      rw [Disk.staged_dropParts] at hd
      split_ifs at hd
      exact hd
    cases f
    · exact hdrop _
    · exact .refl w
    · exact .refl w
    · exact hdrop _
  | _ => exact absurd rfl hnone

/-! ## Requests that add nothing -/

/-- The requests that add an upload or a part. -/
def S3Request.stages : S3Request → Bool
  | createMultipartUpload .. | uploadPart .. => true
  | _ => false

/-- The requests about an upload. -/
def S3Request.multipart : S3Request → Bool
  | createMultipartUpload .. | uploadPart .. | completeMultipartUpload .. | abortMultipartUpload .. =>
    true
  | _ => false

variable {request : S3Request}

/-- Every other request keeps to the calls that are about no upload, -/
theorem handle_apart (c : Ctx) {G : Call → Prop}
    (hG : ∀ o, Call.upload? o = none → G o) (h : request.multipart = false) :
    (handle a c request).Only (fun _ _ => True) G fun _ => True := by
  have hq : ∀ o, Call.Idle o → G o := fun o ho => hG o ho.upload?_eq_none
  have hwrite {bucket key : Bytes} : WriteGuard a (fun _ _ => True) G c bucket key :=
    ⟨fun _ _ _ => hG _ rfl, fun _ _ _ _ => hG _ rfl, fun _ _ => hG _ rfl⟩
  have hall {bucket key versionID : Bytes} {strict : Prop} :
      DeleteAllGuard a (fun _ _ => True) G c bucket strict key versionID :=
    ⟨fun _ => hG _ rfl, fun _ _ _ _ _ _ _ => hG _ rfl⟩
  cases request with
  | createBucket => exact handleCreateBucket_only fun _ => hG _ rfl
  | putBucketVersioning => exact handlePutBucketVersioning_only fun _ => hG _ rfl
  | deleteBucket => exact handleDeleteBucket_only hq (hG _ rfl)
  | deleteObjects =>
    exact handleDeleteObjects_only hq (fun _ _ _ _ _ => hG _ rfl) fun _ _ _ _ _ _ _ => hall
  | putObject => exact inBucket_only hq (handlePutObject_only hq hwrite)
  | copyObject => exact inBucket_only hq (handleCopyObject_only hq hwrite)
  | getObject | headObject => exact inBucket_only hq (handleGetObject_only hq)
  | deleteObject =>
    exact inBucket_only hq (handleDeleteObject_only hq ⟨fun _ _ => hG _ rfl, fun _ _ _ _ _ => hG _ rfl⟩
      (fun _ _ _ _ => hG _ rfl) fun _ _ _ _ => hall)
  | putRetention | putLegalHold => exact inBucket_only hq (updateLock_only hq fun _ _ => hG _ rfl)
  | createMultipartUpload | uploadPart | completeMultipartUpload | abortMultipartUpload => cases h

/-- …and the end of an upload **takes away at most**. -/
theorem handle_shrinking (c : Ctx) (h : request.stages = false) :
    (handle a c request).Only (fun _ _ => True) Call.Shrinking fun _ => True := by
  have hG : ∀ o, Call.upload? o = none → o.Shrinking := by
    intro o ho
    cases o <;> trivial
  have hq : ∀ o, Call.Idle o → o.Shrinking := fun o ho => hG o ho.upload?_eq_none
  cases request with
  | createMultipartUpload | uploadPart => cases h
  | completeMultipartUpload =>
    exact inBucket_only hq (handleCompleteMultipartUpload_only hq trivial trivial
      (fun _ _ _ => trivial) ⟨fun _ _ _ => trivial, fun _ _ _ _ => trivial, fun _ _ => trivial⟩)
  | abortMultipartUpload => exact inBucket_only hq (handleAbortMultipartUpload_only hq trivial trivial)
  | _ => exact handle_apart c hG rfl

theorem Staging.after_of_not_stages (hw : Staging a g w) (h : s.request.stages = false) :
    Staging a g (after a w s) :=
  (respond_of_ensures (ensures_of_only
    (fun w f _ hw ho => ⟨trivial, hw.of_shrinks (Call.Shrinking.shrinks ho w f)⟩)
    (handle_shrinking s.ctx h) hw)).2

/-! ## Parts of handlers, in a world -/

theorem inBucket_ensuresWhen {fn : Act Reply} (hnone : Q (noSuchBucket bucket) w)
    (h : bucket ∈ w.metadata.buckets → stores.EnsuresWhen B Q fn w) :
    stores.EnsuresWhen B Q (inBucket bucket fn) w := by
  simp only [inBucket, ensuresWhen_bind]
  refine ensuresWhen_ask_of fun f v w₁ hv _ => ?_
  obtain ⟨hread, rfl⟩ := Prod.mk.inj hv
  cases v with
  | error e => exact hnone
  | ok b => exact h (mem_of_getBucket (eq_ok_of_reading hread))

theorem runHeavy_ensuresWhen {fn : Act Reply}
    (hslow : ∀ e, Q (.error e) w) (h : stores.EnsuresWhen B Q fn w) :
    stores.EnsuresWhen B Q (runHeavy a bucket key fn) w := by
  refine ensuresWhen_ite stores (fun _ => h) fun _ => ?_
  simp only [ensuresWhen_bind]
  refine ensuresWhen_ask_of fun f v w₁ hv _ => ?_
  obtain ⟨-, rfl⟩ := Prod.mk.inj hv
  exact ensuresWhen_ite stores (fun _ => hslow _) fun _ => h

theorem findUpload_ensuresWhen : stores.EnsuresWhen B (fun x w' => w' = w ∧ ∀ u parts,
      x = some (u, parts) → w.metadata.getMultipartUpload uploadID = .ok (u, parts) ∧
        u.bucket = bucket ∧ u.key = key)
    (findUpload bucket key uploadID) w := by
  simp only [findUpload, ensuresWhen_bind]
  refine ensuresWhen_ask_of fun f v w₁ hv _ => ?_
  obtain ⟨hread, rfl⟩ := Prod.mk.inj hv
  cases v with
  | error e => exact ⟨rfl, fun _ _ h => by cases h⟩
  | ok x =>
    obtain ⟨u, parts⟩ := x
    refine ⟨rfl, fun u' parts' h => ?_⟩
    split_ifs at h with hother
    cases h
    rw [not_or, not_ne_iff, not_ne_iff] at hother
    exact ⟨eq_ok_of_reading hread, hother⟩

/-- What is ready to be put: errors are not accepted, and a row is one that `T` holds of. -/
def StageOutcome (T : ObjectVersion → World → Prop) (x : Except Reply ObjectVersion) (w : World) :
    Prop :=
  (∀ e, x = .error e → e.accepted = false) ∧ ∀ row, x = .ok row → T row w

variable {T : ObjectVersion → World → Prop}

theorem StageOutcome.error {e : Reply} (he : e.accepted = false) : StageOutcome T (.error e) w :=
  ⟨fun _ h => Except.error.inj h ▸ he, nofun⟩

theorem StageOutcome.ok {row : ObjectVersion} (h : T row w) : StageOutcome T (.ok row) w :=
  ⟨fun _ h => (by cases h), fun _ h' => Except.ok.inj h' ▸ h⟩

/-- **A write is answered with 200 where its row was put.** -/
theorem commit_ensuresWhen {stage : Act (Except Reply ObjectVersion)} {failure : Reply}
    {success : ObjectVersion → Act Reply} (hstage : stores.EnsuresWhen B (StageOutcome T) stage w)
    (hfailure : failure.accepted = false)
    (hsuccess : ∀ row, (success row).Only (fun _ _ => True) Call.Quiet fun _ => True) :
    stores.EnsuresWhen B (fun reply w' => reply.accepted = true → ∃ row w₁, T row w₁ ∧
        ({ w₁ with metadata := w₁.metadata.putObjectVersion row }).Same w')
      (runHeavy a bucket key (stage >>= fun x => match x with
        | .error e => pure e
        | .ok row => insertVersion a row failure (success row))) w := by
  refine runHeavy_ensuresWhen nofun ?_
  refine hstage.bind fun x w₁ hx => ?_
  cases x with
  | error e =>
    intro h
    rw [hx.1 e rfl] at h
    cases h
  | ok row =>
    have hT := hx.2 row rfl
    simp only [insertVersion, ensuresWhen_bind]
    refine ensuresWhen_ask_of fun f v w₂ hv _ => ?_
    cases v with
    | error e =>
      intro _ _ h
      rw [hfailure] at h
      cases h
    | ok u =>
      obtain rfl := eq_of_putting hv
      refine (ensures_of_only
        (fun w' f o hw' ho => ⟨trivial, .trans hw' (Call.Quiet.same ho w' f)⟩) (hsuccess row)
        (.refl _)).when.mono fun reply w' hw' _ => ⟨row, w₁, hT, hw'.2⟩

/-! ## Creating an upload -/

theorem Staging.createUpload {up : MultipartUpload} (hw : Staging a g w)
    (hkey : up.sseAlgorithm = sseAlgorithmAES256 → a.sseKey.length = 32) :
    Staging a g { w with metadata := (w.metadata.createMultipartUpload up).2 } := by
  unfold MemoryState.createMultipartUpload
  split_ifs
  · exact hw
  refine ⟨hw.part, hw.numbered, fun u up' hup halg => ?_⟩
  by_cases hu : u = up.uploadID
  · subst hu
    obtain rfl := some.inj ((lookup_insert _).symm.trans hup)
    exact hkey halg
  · exact hw.keyed u up' ((lookup_insert_ne hu).symm.trans hup) halg

/-- **A new upload**: one that is to be encrypted has passed the check of the key. -/
theorem handleCreateMultipartUpload_ensures (hw : Staging a g w) :
    stores.Ensures (fun _ w' => Staging a g w') (handleCreateMultipartUpload a c r bucket key) w := by
  unfold handleCreateMultipartUpload
  cases hsse : validateSSEHeaders a r bucket key with
  | error e => exact hw
  | ok encrypted =>
    simp only [ensures_bind]
    refine ensures_ask_of fun f v w₁ hv => ?_
    have hw₁ : Staging a g w₁ := by
      rcases (writing_outcome hv).1 with rfl | rfl
      · exact hw
      refine hw.createUpload fun halg => (validateSSEHeaders_ok hsse).2 ?_
      by_contra hplain
      rw [show encrypted = false by simpa using hplain] at halg
      exact (by decide : [] ≠ sseAlgorithmAES256) halg
    cases v with
    | error e => exact hw₁
    | ok _ =>
      simp only [ensures_bind]
      refine (ensures_idle (createMultipartUpload_only fun _ h => h)).mono fun made w₂ hmade => ?_
      have hw₂ := hw₁.of_shrinks hmade.2.shrinks
      refine ensures_ite stores (fun _ f => ?_) fun _ => hw₂
      exact hw₂.of_shrinks (Call.Shrinking.shrinks (o := .deleteMultipartUpload _) trivial w₂ f)

/-! ## Uploading a part -/

theorem step_upsertMultipartPart {p : MultipartPart} {v : Except Error Unit}
    (h : step w f (.upsertMultipartPart p) = (v, w')) :
    w'.disk = w.disk ∧ w'.metadata.multipart = w.metadata.multipart ∧
      (∀ u ≠ p.uploadID, w'.metadata.partsOf u = w.metadata.partsOf u) ∧
      (w'.metadata.partsOf p.uploadID = (w.metadata.partsOf p.uploadID).insert p.partNumber p ∨
        w'.metadata.partsOf p.uploadID = w.metadata.partsOf p.uploadID ∧ v ≠ .ok ()) := by
  obtain ⟨hw', hok⟩ := writing_outcome h
  -- the state after the put of a part whose upload is there
  have hinsert : ∀ u, (partsOf { w.metadata with
      parts := w.metadata.parts.insert p.uploadID
        ((w.metadata.partsOf p.uploadID).insert p.partNumber p) } u) =
      if u = p.uploadID then (w.metadata.partsOf p.uploadID).insert p.partNumber p
      else w.metadata.partsOf u := by
    intro u
    unfold partsOf
    split_ifs with hu
    · rw [hu, lookup_insert, getD_some]
    · rw [lookup_insert_ne hu]
  unfold upsertMultipartPart at hw' hok
  split_ifs at hw' hok
  · rcases hw' with rfl | rfl
    · refine ⟨rfl, rfl, fun _ _ => rfl, ?_⟩
      by_cases hv : v = .ok ()
      · left
        conv_lhs => rw [(hok () hv).2]
        rw [hinsert, if_pos rfl]
      · exact .inr ⟨rfl, hv⟩
    · exact ⟨rfl, rfl, fun u hu => (hinsert u).trans (if_neg hu),
        .inl ((hinsert p.uploadID).trans (if_pos rfl))⟩
  · have hsame : w' = w := by rcases hw' with h | h <;> exact h
    subst hsame
    exact ⟨rfl, rfl, fun _ _ => rfl, .inr ⟨rfl, fun hv => by cases (hok () hv).1⟩⟩

theorem Staging.of_cleared (hw : Staging a g w) (hstaged : ∀ n, w'.disk.staged uploadID n = none)
    (hother : ∀ u ≠ uploadID, w'.disk.staged u = w.disk.staged u ∧
      w'.metadata.partsOf u = w.metadata.partsOf u)
    (hnumbered : ∀ n p, (w'.metadata.partsOf uploadID).lookup n = some p → p.partNumber = n)
    (huploads : w'.metadata.multipart = w.metadata.multipart) : Staging a g w' where
  part u n p d hp hd := by
    by_cases hu : u = uploadID
    · rw [hu, hstaged] at hd
      cases hd
    · rw [(hother u hu).2] at hp
      rw [(hother u hu).1] at hd
      exact hw.part u n p d hp hd
  numbered u n p hp := by
    by_cases hu : u = uploadID
    · exact hnumbered n p (hu ▸ hp)
    · exact hw.numbered u n p ((hother u hu).2 ▸ hp)
  keyed u up hup := hw.keyed u up (huploads ▸ hup)

theorem numbered_insert {parts : AList fun _ : ℤ => MultipartPart} {n : ℤ} {m : MultipartPart}
    (h : ∀ n p, parts.lookup n = some p → p.partNumber = n) (hm : m.partNumber = n) (n' : ℤ)
    (p : MultipartPart) (hp : (parts.insert n m).lookup n' = some p) : p.partNumber = n' := by
  by_cases hn : n' = n
  · subst hn
    obtain rfl := some.inj ((lookup_insert _).symm.trans hp)
    exact hm
  · exact h n' p ((lookup_insert_ne hn).symm.trans hp)

theorem Staging.replaced {n : ℤ} {m : MultipartPart} {data : Bytes} (hw : Staging a g w)
    (hstaged : ∀ n', w'.disk.staged uploadID n' =
      if n' = n then some data else w.disk.staged uploadID n')
    (hother : ∀ u ≠ uploadID, w'.disk.staged u = w.disk.staged u ∧
      w'.metadata.partsOf u = w.metadata.partsOf u)
    (hrows : w'.metadata.partsOf uploadID = (w.metadata.partsOf uploadID).insert n m)
    (huploads : w'.metadata.multipart = w.metadata.multipart) (hnumber : m.partNumber = n)
    (heTag : m.eTag = Hex.encode (a.platform.md5 data)) (hsize : m.size = data.length) :
    Staging a (update g uploadID (update (g uploadID) n (some data))) w' where
  part u n' p d hp hd := by
    by_cases hu : u = uploadID
    · subst hu
      rw [hrows] at hp
      rw [hstaged] at hd
      rw [update_self]
      by_cases hn : n' = n
      · subst hn
        obtain rfl := some.inj ((lookup_insert _).symm.trans hp)
        obtain rfl := some.inj ((if_pos rfl).symm.trans hd)
        exact ⟨update_self .., heTag, hsize⟩
      · rw [update_of_ne hn]
        rw [lookup_insert_ne hn] at hp
        rw [if_neg hn] at hd
        exact hw.part u n' p d hp hd
    · rw [update_of_ne hu]
      rw [(hother u hu).2] at hp
      rw [(hother u hu).1] at hd
      exact hw.part u n' p d hp hd
  numbered u n' p hp := by
    by_cases hu : u = uploadID
    · subst hu
      rw [hrows] at hp
      exact numbered_insert (hw.numbered u) hnumber n' p hp
    · exact hw.numbered u n' p ((hother u hu).2 ▸ hp)
  keyed u up hup := hw.keyed u up (huploads ▸ hup)

theorem validateChecksumHeaders_error {d : Digests} {e : Reply}
    (h : validateChecksumHeaders r d = some e) : ∃ err, e = .error err := by
  unfold validateChecksumHeaders at h
  split_ifs at h
  exact ⟨_, (some.inj h).symm⟩

/-- **An upload of a part** keeps the invariant and the record in step. -/
theorem handleUploadPart_ensuresWhen (hw : Staging a g w)
    (hsync : ∀ w path f v, B w ⟨.syncDir path, f, v⟩ → f = .ok)
    (hremove : ∀ w u f v, B w ⟨.removeUpload u, f, v⟩ → f = .ok) :
    stores.EnsuresWhen B (fun reply w' => Staging a
        (recordUpload g (.uploadPart r bucket key uploadID body) reply) w')
      (handleUploadPart a c r bucket key uploadID body) w := by
  refine runHeavy_ensuresWhen (fun _ => hw) ?_
  cases hn : partNumberOf r with
  | none => exact hw
  | some n =>
    refine findUpload_ensuresWhen.bind fun x w₁ hx => ?_
    obtain ⟨rfl, -⟩ := hx
    rcases x with _ | u
    · exact hw
    refine (writeMultipartPart_ensuresWhen hsync).bind fun x w₂ hx => ?_
    rcases x with _ | m
    · exact hw.of_shrinks (hx.1 rfl).shrinks
    obtain ⟨hstaged, rfl⟩ := hx.2 m rfl
    -- all that can go wrong from here on ends in a removal of the part files
    have hcleared {w₃ w₄ : World} {f : Fault} {v : Bool}
        (hdisk : w₃.disk = w₂.disk) (huploads : w₃.metadata.multipart = w₁.metadata.multipart)
        (hother : ∀ u ≠ uploadID, w₃.metadata.partsOf u = w₁.metadata.partsOf u)
        (hnumbered : ∀ n p, (w₃.metadata.partsOf uploadID).lookup n = some p → p.partNumber = n)
        (hstep : step w₃ f (.removeUpload uploadID) = (v, w₄))
        (hB : B w₃ ⟨.removeUpload uploadID, f, v⟩) : Staging a g w₄ := by
      obtain rfl := hremove _ _ _ _ hB
      obtain ⟨-, rfl⟩ := Prod.mk.inj hstep
      refine hw.of_cleared (fun n' => ?_) (fun u hu => ⟨funext fun n' => ?_, hother u hu⟩)
        hnumbered huploads
      · rw [Disk.staged_dropParts, if_pos ⟨rfl, rfl⟩]
      · rw [Disk.staged_dropParts, if_neg fun h => hu h.1, hdisk, hstaged.staged,
          Disk.staged_setPart, if_neg fun h => hu h.1]
    dsimp only
    split
    next e he =>
      simp only [ensuresWhen_bind]
      refine ensuresWhen_ask_of fun f v w₃ hv hB => ?_
      obtain ⟨err, rfl⟩ := validateChecksumHeaders_error he
      refine hcleared rfl (by rw [hstaged.metadata]) (fun u _ => by rw [hstaged.metadata])
        (fun n p hp => hw.numbered uploadID n p ?_) hv hB
      rwa [hstaged.metadata] at hp
    next =>
      simp only [ensuresWhen_bind]
      refine ensuresWhen_ask_of fun f v w₃ hv _ => ?_
      obtain ⟨hdisk, huploads, hother, hrows⟩ := step_upsertMultipartPart hv
      rw [hstaged.metadata] at huploads hother hrows
      cases v with
      | error e =>
        simp only [ensuresWhen_bind]
        refine ensuresWhen_ask_of fun f' v w₄ hv' hB => ?_
        refine hcleared hdisk huploads hother (fun n' p hp => ?_) hv' hB
        rcases hrows with hrows | ⟨hrows, -⟩
        · exact numbered_insert (hw.numbered uploadID) rfl n' p (hrows ▸ hp)
        · exact hw.numbered uploadID n' p (hrows ▸ hp)
      | ok _ =>
        obtain hrows | ⟨-, herror⟩ := hrows
        · have hrecord : ∀ header document, recordUpload g
              (.uploadPart r bucket key uploadID body) (.answer 200 header document) =
                update g uploadID (update (g uploadID) n (some (requestObjectBody r body).bytes)) := by
            intro header document
            simp [recordUpload, hn]
          rw [ensuresWhen_pure, hrecord]
          refine hw.replaced (fun n' => ?_) (fun u hu => ⟨funext fun n' => ?_, hother u hu⟩)
            hrows huploads rfl rfl rfl
          · rw [hdisk, hstaged.staged, Disk.staged_setPart]
            simp
          · rw [hdisk, hstaged.staged, Disk.staged_setPart, if_neg fun h => hu h.1]
        · exact absurd rfl herror

/-! ## Histories -/

/-- The calls that end an upload of a part: the sync of the directory, and the clean-up. -/
def Call.settles : Call → Bool
  | syncDir _ | removeUpload _ => true
  | _ => false

/-- **When the invariant is kept**: in an upload of a part, the sync of the directory and the clean-up do
not fail. -/
def StagingCondition (a : S3API) (w : World) (s : Step) : Prop :=
  s.request.uploadsPart = true →
    ∀ e ∈ (respond a w s).2.events, e.op.settles = true → e.fault = .ok

theorem stagingCondition_of_faultless (hs : s.faults = []) : StagingCondition a w s :=
  fun _ e he _ => fault_eq_ok hs e he

theorem recordUpload_of_not_uploadsPart {reply : Reply}
    (h : request.uploadsPart = false) : recordUpload g request reply = g := by
  cases request with
  | uploadPart => cases h
  | _ => rfl

/-- **One request** keeps the invariant. -/
theorem Staging.after (hw : Staging a g w) (hs : StagingCondition a w s) :
    Staging a (recordUpload g s.request (respond a w s).1) (after a w s) := by
  by_cases hstages : s.request.stages = true
  · obtain ⟨request, c, faults⟩ := s
    cases request with
    | createMultipartUpload r bucket key =>
      refine respond_of_request rfl (Q := fun _ w' => Staging a g w') ?_
      exact inBucket_ensuresWhen hw fun _ => (handleCreateMultipartUpload_ensures hw).when
    | uploadPart r bucket key uploadID body =>
      refine respond_of_ensuresWhen
        (Q := fun reply w' => Staging a
          (recordUpload g (.uploadPart r bucket key uploadID body) reply) w') ?_
        (allowed_of_mem (hs rfl))
      exact inBucket_ensuresWhen hw fun _ => handleUploadPart_ensuresWhen hw
        (fun _ _ _ _ h => h rfl) fun _ _ _ _ h => h rfl
    | _ => cases hstages
  · have hplain : s.request.stages = false := by simpa using hstages
    rw [recordUpload_of_not_uploadsPart]
    · exact hw.after_of_not_stages hplain
    · cases hr : s.request <;> rw [hr] at hplain <;> first | rfl | cases hplain

theorem Staging.afterAll {history : List Step} (hw : Staging a g w)
    (hC : Throughout a (StagingCondition a) w history) :
    Staging a (lastUploads a w g history) (afterAll a w history) := by
  induction history generalizing w g with
  | nil => exact hw
  | cons s history ih => exact ih (hw.after hC.1) hC.2

theorem staging_empty : Staging a g {} :=
  ⟨fun _ _ _ _ h => (by cases h), fun _ _ _ h => (by cases h), nofun⟩

end S000
