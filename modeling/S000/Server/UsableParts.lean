import S000.Server.Assembly

/-!
# Server/UsableParts — the parts that a failed request leaves

A part that was uploaded is to be usable until its upload is completed or aborted: a completion that
lists it succeeds and delivers its bytes.  A request about the upload that fails in between must not
change that, so it has to leave the rows and the files of all parts alone (`Touched`).

Not all of them do.  An upload of a part removes the files of *all* parts, and leaves their rows, when a
checksum is wrong or its own row cannot be put (`badDigest_loses_parts`); a failed sync leaves the new
file beside the old row; and a completion has removed the part files before it puts the row of the
object.  In a history without these, every part that was uploaded stays usable (`parts_stay_usable`).
-/

namespace S000

open Strings Metadata Blob Machine MemoryState List AList Function

/-! ## One upload -/

/-- The record, the rows and the files of one upload are as before. -/
structure World.SameUpload (w : World) (uploadID : Bytes) (w' : World) : Prop where
  record : w'.metadata.multipart.lookup uploadID = w.metadata.multipart.lookup uploadID
  rows : w'.metadata.partsOf uploadID = w.metadata.partsOf uploadID
  files : w'.disk.staged uploadID = w.disk.staged uploadID

/-- The upload is there, and of the bucket and the key. -/
def World.Records (w : World) (bucket key uploadID : Bytes) : Prop :=
  ∃ up, w.metadata.multipart.lookup uploadID = some up ∧ up.bucket = bucket ∧ up.key = key

variable {a : S3API} {w w' w'' : World} {o : Call} {c : Ctx} {r : Request} {s : Step} {f : Fault}
  {bucket key uploadID u : Bytes} {body : Stream} {parts : XmlBody (List CompletedPart)} {n : ℤ}
  {data : Bytes} {reply : Reply} {B : World → Event calls Fault → Prop}

theorem World.SameUpload.refl (w : World) (u : Bytes) : w.SameUpload u w := ⟨rfl, rfl, rfl⟩

theorem World.SameUpload.trans (h : w.SameUpload u w') (h' : w'.SameUpload u w'') :
    w.SameUpload u w'' :=
  ⟨h'.record.trans h.record, h'.rows.trans h.rows, h'.files.trans h.files⟩

theorem World.SameUploads.at (h : w.SameUploads w') (u : Bytes) : w.SameUpload u w' where
  record := by rw [h.uploads]
  rows := by rw [partsOf, h.rows, ← partsOf]
  files := by rw [h.files]

theorem World.Kept.sameUpload (h : w.Kept w') (u : Bytes) : w.SameUpload u w' := h.sameUploads.at u

/-- **A call that is about another upload** leaves this one alone. -/
theorem sameUpload_step (h : o.upload? ≠ some u) (w : World) (f : Fault) :
    w.SameUpload u (step w f o).2 := by
  by_cases hnone : o.upload? = none
  · exact (sameUploads_step hnone w f).at u
  have hfiles {there : Bool} {d : Disk} (hd : d.staged u = w.disk.staged u) :
      w.SameUpload u (changing w f there d).2 := by
    rcases changing_cases w f there d with h | ⟨h, -⟩ <;> rw [h]
    · exact .refl w u
    · exact ⟨rfl, rfl, hd⟩
  cases o with
  | createMultipartUpload up =>
    have hne : u ≠ up.uploadID := fun heq => h (congrArg some heq.symm)
    rw [step]
    rcases writing_cases w f (w.metadata.createMultipartUpload up) with h | h <;> rw [h]
    · exact .refl w u
    unfold MemoryState.createMultipartUpload
    split_ifs
    · exact .refl w u
    · exact ⟨lookup_insert_ne hne, rfl, rfl⟩
  | upsertMultipartPart p =>
    obtain ⟨v, w', hstep⟩ : ∃ v w', step w f (.upsertMultipartPart p) = (v, w') := ⟨_, _, rfl⟩
    obtain ⟨hdisk, hrecords, hrows, -⟩ := step_upsertMultipartPart hstep
    rw [hstep]
    exact ⟨by rw [hrecords], hrows u fun heq => h (congrArg some heq.symm), by rw [hdisk]⟩
  | deleteMultipartUpload v =>
    have hne : u ≠ v := fun heq => h (congrArg some heq.symm)
    rw [step]
    rcases writing_cases w f (w.metadata.deleteMultipartUpload v) with h | h <;> rw [h]
    · exact .refl w u
    unfold deleteMultipartUpload
    split_ifs
    · refine ⟨lookup_erase_ne hne, ?_, rfl⟩
      simp only [partsOf, lookup_erase_ne hne]
    · exact .refl w u
  | renamePart id content v m =>
    refine hfiles (funext fun m' => (Disk.staged_setPart ..).trans (if_neg fun heq => h ?_))
    exact congrArg some heq.1.symm
  | promote v m path =>
    refine hfiles (funext fun m' => (Disk.staged_setPart ..).trans (if_neg fun heq => h ?_))
    exact congrArg some heq.1.symm
  | removeUpload v =>
    have hdrop (gone : ℤ → Bool) : w.SameUpload u { w with disk := w.disk.dropParts v gone } :=
      ⟨rfl, rfl, funext fun m => (Disk.staged_dropParts ..).trans
        (if_neg fun heq => h (congrArg some heq.1.symm))⟩
    cases f
    · exact hdrop _
    · exact .refl w u
    · exact .refl w u
    · exact hdrop _
  | _ => exact absurd rfl hnone

theorem sameUpload_of_step {v : o.Val} (hstep : step w f o = (v, w')) (h : o.upload? ≠ some u) :
    w.SameUpload u w' := by
  have hsame := sameUpload_step h w f
  rwa [hstep] at hsame

/-! ## What a request leaves of the uploads -/

def Reply.answered : Reply → Bool
  | answer .. => true
  | error _ => false

/-- **What a request about an upload may touch**: that upload only, and only if it is of the bucket and
the key of the request and the reply is not an error. -/
structure Touched (w : World) (bucket key uploadID : Bytes) (reply : Reply) (w' : World) : Prop where
  others : ∀ u ≠ uploadID, w.SameUpload u w'
  own : w.SameUpload uploadID w' ∨ reply.answered = true ∧ w.Records bucket key uploadID

theorem World.SameUploads.touched (h : w.SameUploads w') : Touched w bucket key uploadID reply w' :=
  ⟨fun u _ => h.at u, .inl (h.at uploadID)⟩

theorem World.Kept.touched (h : w.Kept w') : Touched w bucket key uploadID reply w' :=
  h.sameUploads.touched

variable {up : MultipartUpload} {rows : List MultipartPart}

theorem records_of_found
    (h : w.metadata.getMultipartUpload uploadID = .ok (up, rows) ∧ up.bucket = bucket ∧ up.key = key) :
    w.Records bucket key uploadID :=
  ⟨up, multipart_of_getMultipartUpload h.1, h.2⟩

def Call.About (uploadID : Bytes) (o : Call) : Prop := ∀ u ∈ o.upload?, u = uploadID

theorem Call.About.of_none (h : o.upload? = none) : o.About uploadID := fun u hu => by
  rw [h] at hu
  cases hu

theorem Call.About.of_eq (h : o.upload? = some uploadID) : o.About uploadID := fun u hu => by
  rw [h] at hu
  exact (Option.mem_some_iff.1 hu).symm

variable {α : Type}

theorem ensures_others {p : Act α} {Q : α → Prop}
    (h : p.Only (fun _ _ => True) (Call.About uploadID) Q) :
    stores.Ensures (fun x w' => Q x ∧ ∀ u ≠ uploadID, w.SameUpload u w') p w := by
  refine ensures_of_only (fun w' f o hw' ho => ⟨trivial, fun u hu => ?_⟩) h fun u _ => .refl w u
  exact (hw' u hu).trans (sameUpload_step (fun heq => hu (ho u heq)) w' f)

/-- The last calls of a request about an upload: when they are made, part files may have been replaced
or taken away. -/
def Call.finishes : Call → Bool
  | syncDir _ | removeUpload _ | upsertMultipartPart _ | putObjectVersion _ => true
  | _ => false

/-- **An abort.** -/
theorem handleAbortMultipartUpload_touches : stores.EnsuresWhen B (Touched w bucket key uploadID)
    (handleAbortMultipartUpload a r bucket key uploadID) w := by
  have haudit {G : Call → Prop} {Q : Reply → Prop} (hG : ∀ o, o.Idle → G o) (hQ : Q (.answer 204)) :
      (do
        emitAudit a r "multipart.abort" "allow" bucket key ""
        return .answer 204 : Act Reply).Only (fun _ _ => True) G Q := by
    simp only [Prog.only_bind]
    exact Prog.only_ite (fun _ => ⟨hG _ trivial, fun _ _ => hQ⟩) fun _ => hQ
  refine findUpload_ensuresWhen.bind fun x w₁ hx => ?_
  obtain ⟨rfl, hfound⟩ := hx
  rcases x with _ | ⟨up, rows⟩
  · exact ((ensures_idle (haudit (fun _ h => h) (Q := fun _ => True) trivial)).mono
      fun _ _ h => h.2.touched).when
  have hrest : (do
      let _ ← ask (.removeUpload uploadID)
      let _ ← ask (.deleteMultipartUpload uploadID)
      emitAudit a r "multipart.abort" "allow" bucket key ""
      return .answer 204 : Act Reply).Only (fun _ _ => True) (Call.About uploadID)
        (fun reply => reply.answered = true) :=
    ⟨.of_eq rfl, fun _ _ => ⟨.of_eq rfl, fun _ _ =>
      haudit (fun o ho => .of_none ho.upload?_eq_none) rfl⟩⟩
  refine ((ensures_others hrest).mono fun reply w' h => ⟨h.2, .inr ⟨h.1, ?_⟩⟩).when
  exact records_of_found (hfound up rows rfl)

/-- **A request that is about no upload.** -/
theorem ensures_sameUploads {p : Act α} {Q : α → Prop}
    (h : p.Only (fun _ _ => True) (fun o => Call.upload? o = none) Q) :
    stores.Ensures (fun x w' => Q x ∧ w.SameUploads w') p w :=
  ensures_of_only
    (fun w' f _ hw' ho => ⟨trivial, hw'.trans (sameUploads_step ho w' f)⟩) h (.refl w)

/-! ### Uploading a part -/

/-- A part was put, its row and its file; the rest of the upload is as before. -/
structure World.PartPut (w : World) (uploadID : Bytes) (n : ℤ) (data : Bytes) (w' : World) : Prop where
  record : w'.metadata.multipart.lookup uploadID = w.metadata.multipart.lookup uploadID
  row : ∃ p, w'.metadata.partsOf uploadID = (w.metadata.partsOf uploadID).insert n p
  file : ∀ n', w'.disk.staged uploadID n' = if n' = n then some data else w.disk.staged uploadID n'

theorem fst_upsertMultipartPart {st : MemoryState} {p : MultipartPart} (h : p.uploadID ∈ st.multipart) :
    (st.upsertMultipartPart p).1 = .ok () := by
  rw [upsertMultipartPart, if_pos h]

/-- **An upload of a part** whose checksums are right leaves everything as it was, or the part is
there. -/
theorem handleUploadPart_touches (hsum : validateChecksumHeaders r
      (digests a.platform (requestObjectBody r body).bytes) = none)
    (hB : ∀ w e, B w e → Call.finishes e.op = true → e.fault = .ok) :
    stores.EnsuresWhen B (fun reply w' => Touched w bucket key uploadID reply w' ∧
        (reply.answered = true → w.Records bucket key uploadID ∧ ∃ n, partNumberOf r = some n ∧
          w.PartPut uploadID n (requestObjectBody r body).bytes w'))
      (handleUploadPart a c r bucket key uploadID body) w := by
  have hfailed {e : S3Error} {w₁ : World} {put : Prop} (h : w.Kept w₁) :
      Touched w bucket key uploadID (.error e) w₁ ∧ ((Reply.error e).answered = true → put) :=
    ⟨h.touched, nofun⟩
  refine runHeavy_ensuresWhen (fun _ => hfailed (.refl w)) ?_
  cases hn : partNumberOf r with
  | none => exact hfailed (.refl w)
  | some n =>
    refine findUpload_ensuresWhen.bind fun x w₁ hx => ?_
    obtain ⟨rfl, hfound⟩ := hx
    rcases x with _ | ⟨up, rows⟩
    · exact hfailed (.refl w₁)
    have hrecord := records_of_found (hfound up rows rfl)
    refine (writeMultipartPart_ensuresWhen fun _ _ _ _ h => hB _ _ h rfl).bind fun x w₂ hx => ?_
    rcases x with _ | m
    · exact hfailed (hx.1 rfl)
    obtain ⟨hstaged, rfl⟩ := hx.2 m rfl
    dsimp only
    rw [hsum]
    simp only [ensuresWhen_bind]
    refine ensuresWhen_ask_of fun f v w₃ hv hf => ?_
    obtain rfl : f = .ok := hB _ _ hf rfl
    obtain ⟨hdisk, huploads, hother, hrows⟩ := step_upsertMultipartPart hv
    rw [hstaged.metadata] at huploads hother hrows
    -- the upload is there, so its part can be put
    obtain rfl : v = .ok () := by
      have hthere : uploadID ∈ w₂.metadata.multipart := by
        obtain ⟨up, hup, -⟩ := hrecord
        rw [hstaged.metadata]
        exact lookup_isSome.1 (hup ▸ rfl)
      exact (congrArg Prod.fst hv).symm.trans (fst_upsertMultipartPart hthere)
    replace hrows := hrows.resolve_right fun h => h.2 rfl
    have hfiles (u : Bytes) (n' : ℤ) : w₃.disk.staged u n' = if u = uploadID ∧ n' = n then
        some (requestObjectBody r body).bytes else w₁.disk.staged u n' := by
      rw [hdisk, hstaged.staged, Disk.staged_setPart]
    refine ⟨⟨fun u hu => ⟨by rw [huploads], hother u hu, funext fun n' => ?_⟩, .inr ⟨rfl, hrecord⟩⟩,
      fun _ => ⟨hrecord, n, rfl, by rw [huploads], ⟨_, hrows⟩, fun n' => ?_⟩⟩
    · exact (hfiles u n').trans (if_neg fun h => hu h.1)
    · simpa using hfiles uploadID n'

/-! ### Completing an upload -/

/-- What a program leaves behind that uses up the part files at most at its end, when it succeeds. -/
def UsesUp {α : Type} (w : World) (uploadID : Bytes) (x : Option α) (w' : World) : Prop :=
  (∀ u ≠ uploadID, w.SameUpload u w') ∧ (x = none → w.SameUpload uploadID w')

theorem World.SameUploads.usesUp {x : Option α} (h : w.SameUploads w') : UsesUp w uploadID x w' :=
  ⟨fun u _ => h.at u, fun _ => h.at uploadID⟩

/-- The removal of the part files, after which nothing fails. -/
theorem removeUpload_usesUp {m : ObjectMeta} {w₁ : World}
    (hB : ∀ w e, B w e → Call.finishes e.op = true → e.fault = .ok)
    (h : ∀ u ≠ uploadID, w.SameUpload u w₁) :
    stores.EnsuresWhen B (UsesUp w uploadID) (do
      if !(← ask (.removeUpload uploadID)) then return none else return some m) w₁ := by
  simp only [ensuresWhen_bind]
  refine ensuresWhen_ask_of fun f removed w₂ hremoved hf => ?_
  obtain rfl : f = .ok := hB _ _ hf rfl
  obtain rfl := (Prod.mk.inj hremoved).1
  refine ⟨fun u hu => (h u hu).trans ?_, fun h => by cases h⟩
  exact sameUpload_of_step hremoved fun heq => hu (Option.some.inj heq).symm

variable {stored : ℤ → Option MultipartPart}

/-- **The blob of a completed upload**: the part files are there unless it was written. -/
theorem assemble_usesUp {numbers : List ℤ} {ref : ObjectRef}
    (hB : ∀ w e, B w e → Call.finishes e.op = true → e.fault = .ok) :
    stores.EnsuresWhen B (UsesUp w uploadID) (assemble a c up stored uploadID numbers ref) w := by
  have hkept {x : Option ObjectMeta} {w₁ : World} (h : w.Kept w₁) : UsesUp w uploadID x w₁ :=
    h.sameUploads.usesUp
  have hcopy (encrypted : Bool) : stores.EnsuresWhen B (UsesUp w uploadID)
      (completeMultipartUploadWithWriter uploadID numbers fun src =>
        writeMaybeEncryptedObject a c ref src encrypted) w := by
    refine ensuresWhen_ite stores (fun _ => hkept (.refl w)) fun _ => ?_
    refine (ensures_idle (openParts_only (fun _ h => h) numbers)).when.bind fun x w₁ hx => ?_
    rcases x with _ | src
    · exact hkept hx.2
    simp only [ensuresWhen_bind]
    have hwrite : (writeMaybeEncryptedObject a c ref src encrypted).Only (fun _ _ => True)
        (fun o => Call.upload? o = none) fun _ => True :=
      (writeMaybeEncryptedObject_only (fun o ho => ho.upload?_eq_none) fun _ => rfl).mono
        fun _ _ => trivial
    refine (ensures_sameUploads hwrite).when.mono fun x w₂ hwritten => ?_
    have hsame := hx.2.sameUploads.trans hwritten.2
    rcases x with _ | m
    · exact hsame.usesUp
    · exact removeUpload_usesUp hB fun u _ => hsame.at u
  have hsync {path : Bytes} {w₁ : World} : stores.EnsuresWhen B
      (fun synced w' => synced = true ∧ w' = w₁) (syncParentDir a.blob path) w₁ := by
    refine ensuresWhen_ite stores (fun _ => ⟨rfl, rfl⟩) fun _ => ?_
    refine ensuresWhen_ask_of fun f synced w₂ hsynced hf => ?_
    obtain rfl : f = .ok := hB _ _ hf rfl
    cases hsynced
    exact ⟨rfl, rfl⟩
  unfold assemble
  split_ifs with hsse
  · exact hcopy true
  split
  next n =>
    cases stored n with
    | none => exact hkept (.refl w)
    | some row =>
      simp only [promoteMultipartPart, ensuresWhen_bind]
      refine Ensures.when (ensures_ask_idle trivial fun made w₁ hmade => ?_)
      refine ensuresWhen_ite stores (fun _ => hkept hmade) fun _ => ?_
      simp only [ensuresWhen_bind]
      refine ensuresWhen_ask_of fun f promoted w₂ hpromoted _ => ?_
      cases promoted with
      | false =>
        obtain rfl := changing_eq_false hpromoted
        exact hkept hmade
      | true =>
        have hothers : ∀ u ≠ uploadID, w.SameUpload u w₂ := fun u hu =>
          (hmade.sameUpload u).trans
            (sameUpload_of_step hpromoted fun heq => hu (Option.some.inj heq).symm)
        refine hsync.bind fun synced w₃ hsynced => ?_
        obtain ⟨rfl, rfl⟩ := hsynced
        exact removeUpload_usesUp hB hothers
  next => exact hcopy false

/-- **A completion.** -/
theorem handleCompleteMultipartUpload_touches
    (hB : ∀ w e, B w e → Call.finishes e.op = true → e.fault = .ok) :
    stores.EnsuresWhen B (Touched w bucket key uploadID)
      (handleCompleteMultipartUpload a c r bucket key uploadID parts) w := by
  refine runHeavy_ensuresWhen (fun _ => (World.Kept.refl w).touched) ?_
  simp only [stageComplete, ensuresWhen_bind]
  refine findUpload_ensuresWhen.mono fun x w₁ hx => ?_
  obtain ⟨rfl, hfound⟩ := hx
  rcases x with _ | ⟨up, rows⟩
  · exact (World.Kept.refl w₁).touched
  dsimp only
  cases listedParts bucket key (storedByNumber rows) parts with
  | error e => exact (World.Kept.refl w₁).touched
  | ok listed =>
    simp only [ensuresWhen_bind]
    refine Ensures.when (ensures_ask_idle trivial fun v w₂ hkept₂ => ?_)
    cases v with
    | error e => exact hkept₂.touched
    | ok b =>
      refine (ensures_idle overwriteLocked_idle).when.bind fun locked w₃ hlocked => ?_
      have hkept : w₁.Kept w₃ := hkept₂.trans hlocked.2
      refine ensuresWhen_ite stores (fun _ => hkept.touched) fun _ => ?_
      refine (assemble_usesUp hB).bind fun x w₄ hx => ?_
      have hothers : ∀ u ≠ uploadID, w₁.SameUpload u w₄ := fun u hu =>
        (hkept.sameUpload u).trans (hx.1 u hu)
      rcases x with _ | m
      · exact ⟨hothers, .inl ((hkept.sameUpload uploadID).trans (hx.2 rfl))⟩
      -- the put of the row does not fail, and then nothing else does
      simp only [insertVersion, ensuresWhen_pure, ensuresWhen_bind]
      refine ensuresWhen_ask_of fun f v w₅ hv hf => ?_
      have hput (u : Bytes) : w₄.SameUpload u w₅ := sameUpload_of_step hv (Option.some_ne_none u).symm
      obtain rfl : f = .ok := hB _ _ hf rfl
      obtain rfl := (Prod.mk.inj hv).1
      simp only [ensuresWhen_bind]
      refine ensuresWhen_ask_of fun f v w₆ hgone _ => ?_
      refine ⟨fun u hu => ((hothers u hu).trans (hput u)).trans ?_, .inr ⟨rfl, ?_⟩⟩
      · exact sameUpload_of_step hgone fun heq => hu (Option.some.inj heq).symm
      · exact records_of_found (hfound up rows rfl)

/-! ### The other requests -/

/-- **A new upload** is not one of those there are. -/
theorem handleCreateMultipartUpload_same : stores.Ensures
    (fun _ w' => ∀ u ∈ w.metadata.multipart, w.SameUpload u w')
    (handleCreateMultipartUpload a c r bucket key) w := by
  unfold handleCreateMultipartUpload
  cases validateSSEHeaders a r bucket key with
  | error e => exact fun u _ => .refl w u
  | ok encrypted =>
    simp only [ensures_bind]
    refine ensures_ask_of fun f v w₁ hv => ?_
    obtain ⟨hcases, hok⟩ := writing_outcome hv
    by_cases hthere : newVersionID c 0 ∈ w.metadata.multipart
    · -- the id is in use, so that nothing is created
      unfold MemoryState.createMultipartUpload at hcases hok
      rw [if_pos hthere] at hcases hok
      obtain rfl : w₁ = w := by rcases hcases with h | h <;> exact h
      cases v with
      | error e => exact fun u _ => .refl w₁ u
      | ok _ => cases (hok _ rfl).1
    · have hne : ∀ u ∈ w.metadata.multipart, some (newVersionID c 0) ≠ some u := by
        rintro u hu heq
        exact hthere (Option.some.inj heq ▸ hu)
      have hcreated : ∀ u ∈ w.metadata.multipart, w.SameUpload u w₁ := fun u hu =>
        sameUpload_of_step hv (hne u hu)
      cases v with
      | error e => exact hcreated
      | ok _ =>
        simp only [ensures_bind]
        refine (ensures_idle (createMultipartUpload_only fun _ h => h)).mono fun made w₂ hmade => ?_
        have hmade' : ∀ u ∈ w.metadata.multipart, w.SameUpload u w₂ := fun u hu =>
          (hcreated u hu).trans (hmade.2.sameUpload u)
        refine ensures_ite stores (fun _ => ?_) fun _ => hmade'
        simp only [ensures_bind]
        refine ensures_ask_of fun f' v' w₃ hgone u hu => (hmade' u hu).trans ?_
        exact sameUpload_of_step hgone (hne u hu)

/-- **Every other request** leaves them alone. -/
theorem handle_sameUploads {request : S3Request} (h : request.multipart = false) :
    stores.Ensures (fun _ w' => w.SameUploads w') (handle a c request) w :=
  (ensures_sameUploads (handle_apart c (fun _ ho => ho) h)).mono fun _ _ h => h.2

/-! ## Parts that can be used -/

/-- The parts that were uploaded: by bucket and key, upload and number. -/
abbrev KnownParts := Bytes → Bytes → Uploads

/-- What is known of one upload is replaced. -/
def KnownParts.set (g : KnownParts) (bucket key uploadID : Bytes) (of : ℤ → Option Bytes) :
    KnownParts :=
  fun b k u => if b = bucket ∧ k = key ∧ u = uploadID then of else g b k u

/-- **What is known after one more request**: the parts of an upload, as they were uploaded last, until
the upload is completed or aborted.  Requests that fail change nothing. -/
def recordPart (g : KnownParts) : S3Request → Reply → KnownParts
  | .uploadPart r bucket key uploadID body, .answer .. => match partNumberOf r with
    | some n => g.set bucket key uploadID
        (update (g bucket key uploadID) n (some (requestObjectBody r body).bytes))
    | none => g
  | .completeMultipartUpload _ bucket key uploadID _, .answer ..
  | .abortMultipartUpload _ bucket key uploadID, .answer .. => g.set bucket key uploadID fun _ => none
  | _, _ => g

/-- …and after a history. -/
def knownParts (a : S3API) : World → KnownParts → List Step → KnownParts
  | _, g, [] => g
  | w, g, s :: history =>
    knownParts a (after a w s) (recordPart g s.request (respond a w s).1) history

/-- **A part that can be used**: its upload is there, and so are its row and its file. -/
structure Usable (w : World) (bucket key uploadID : Bytes) (n : ℤ) (d : Bytes) : Prop where
  record : w.Records bucket key uploadID
  row : ∃ p, (w.metadata.partsOf uploadID).lookup n = some p
  file : w.disk.staged uploadID n = some d
  number : 0 < n ∧ n ≤ maxMultipartParts

/-- **The invariant**: all parts that are known can be used. -/
def AllUsable (g : KnownParts) (w : World) : Prop :=
  ∀ b k u n d, g b k u n = some d → Usable w b k u n d

variable {g : KnownParts}

theorem Usable.of_same (h : Usable w bucket key uploadID n data) (hs : w.SameUpload uploadID w') :
    Usable w' bucket key uploadID n data where
  record := by
    obtain ⟨up, hup, hof⟩ := h.record
    exact ⟨up, hs.record.trans hup, hof⟩
  row := by
    rw [hs.rows]
    exact h.row
  file := by
    rw [hs.files]
    exact h.file
  number := h.number

theorem Usable.mem (h : Usable w bucket key uploadID n data) : uploadID ∈ w.metadata.multipart := by
  obtain ⟨up, hup, -⟩ := h.record
  exact lookup_isSome.1 (hup ▸ rfl)

theorem World.Records.unique {b k : Bytes} (h : w.Records bucket key uploadID)
    (h' : w.Records b k uploadID) : b = bucket ∧ k = key := by
  obtain ⟨up, hup, rfl, rfl⟩ := h
  obtain ⟨up', hup', rfl, rfl⟩ := h'
  obtain rfl := Option.some.inj (hup.symm.trans hup')
  exact ⟨rfl, rfl⟩

/-- **What a request does not touch stays usable.** -/
theorem Touched.usable {b k : Bytes} (ht : Touched w bucket key uploadID reply w')
    (h : Usable w b k u n data)
    (hown : reply.answered = true → ¬ (b = bucket ∧ k = key ∧ u = uploadID)) :
    Usable w' b k u n data := by
  by_cases hu : u = uploadID
  · subst hu
    rcases ht.own with hs | ⟨hanswered, hrecord⟩
    · exact h.of_same hs
    · obtain ⟨hb, hk⟩ := hrecord.unique h.record
      exact absurd ⟨hb, hk, rfl⟩ (hown hanswered)
  · exact h.of_same (ht.others u hu)

theorem World.PartPut.usable {n' : ℤ} {d : Bytes} (hput : w.PartPut uploadID n data w')
    (h : n' ≠ n → Usable w bucket key uploadID n' d) (hrecord : w.Records bucket key uploadID)
    (hd : n' = n → data = d ∧ 0 < n ∧ n ≤ maxMultipartParts) : Usable w' bucket key uploadID n' d := by
  have hrecord' : w'.Records bucket key uploadID := by
    obtain ⟨up, hup, hof⟩ := hrecord
    exact ⟨up, hput.record.trans hup, hof⟩
  obtain ⟨p, hp⟩ := hput.row
  by_cases hn : n' = n
  · obtain ⟨rfl, hnumber⟩ := hd hn
    subst hn
    refine ⟨hrecord', ⟨p, by rw [hp, lookup_insert]⟩, ?_, hnumber⟩
    rw [hput.file, if_pos rfl]
  · have hold := h hn
    refine ⟨hrecord', ?_, ?_, hold.number⟩
    · rw [hp, lookup_insert_ne hn]
      exact hold.row
    · rw [hput.file, if_neg hn]
      exact hold.file

theorem number_of_partNumberOf (h : partNumberOf r = some n) : 0 < n ∧ n ≤ maxMultipartParts := by
  simpa using (Option.filter_eq_some_iff.1 h).2

/-- **The invariant after a request about an upload.** -/
theorem AllUsable.of_touched (hg : AllUsable g w) (ht : Touched w bucket key uploadID reply w') :
    AllUsable (if reply.answered then g.set bucket key uploadID fun _ => none else g) w' := by
  intro b k u n d hd
  by_cases hanswered : reply.answered = true
  · rw [if_pos hanswered, KnownParts.set] at hd
    split_ifs at hd with hown
    exact ht.usable (hg b k u n d hd) fun _ => hown
  · rw [if_neg hanswered] at hd
    exact ht.usable (hg b k u n d hd) fun h => absurd h hanswered

theorem AllUsable.of_put (hg : AllUsable g w) (ht : Touched w bucket key uploadID reply w')
    (hput : w.PartPut uploadID n data w') (hrecord : w.Records bucket key uploadID)
    (hn : 0 < n ∧ n ≤ maxMultipartParts) :
    AllUsable (g.set bucket key uploadID (update (g bucket key uploadID) n (some data))) w' := by
  intro b k u n' d hd
  rw [KnownParts.set] at hd
  split_ifs at hd with hown
  · obtain ⟨rfl, rfl, rfl⟩ := hown
    refine hput.usable (fun hne => hg b k u n' d ?_) hrecord fun heq => ?_
    · rwa [update_of_ne hne] at hd
    · rw [heq, update_self] at hd
      exact ⟨Option.some.inj hd, hn⟩
  · exact ht.usable (hg b k u n' d hd) fun _ => hown

/-! ## Histories -/

/-- None of the last calls of a request fails. -/
def Finishes (a : S3API) (w : World) (s : Step) : Prop :=
  ∀ e ∈ (respond a w s).2.events, e.op.finishes = true → e.fault = .ok

/-- **When parts stay usable**: the checksums that come with a part are those of its bytes, and in an
upload of a part and in a completion none of the last calls fails. -/
def PartsCondition (a : S3API) (w : World) (s : Step) : Prop :=
  match s.request with
  | .uploadPart r _ _ _ body => Finishes a w s ∧
    validateChecksumHeaders r (digests a.platform (requestObjectBody r body).bytes) = none
  | .completeMultipartUpload .. => Finishes a w s
  | _ => True

theorem PartsCondition.staging (hs : PartsCondition a w s) : StagingCondition a w s := by
  obtain ⟨request, c, faults⟩ := s
  cases request with
  | uploadPart =>
    intro _ e he hop
    refine hs.1 e he ?_
    cases hcall : e.op <;> rw [hcall] at hop <;> first | rfl | cases hop
  | _ => exact nofun

theorem recordPart_of_not_multipart {request : S3Request} (h : request.multipart = false) :
    recordPart g request reply = g := by
  cases request with
  | createMultipartUpload | uploadPart | completeMultipartUpload | abortMultipartUpload => cases h
  | _ => rfl

/-- **One request** keeps the invariant. -/
theorem AllUsable.after (hg : AllUsable g w) (hs : PartsCondition a w s) :
    AllUsable (recordPart g s.request (respond a w s).1) (after a w s) := by
  have hrefl {bucket key uploadID : Bytes} {e : S3Error} :
      Touched w bucket key uploadID (.error e) w := (World.Kept.refl w).touched
  by_cases hmultipart : s.request.multipart = false
  · have hsame := respond_of_ensures (handle_sameUploads (a := a) (w := w) hmultipart)
    rw [recordPart_of_not_multipart hmultipart]
    exact fun b k u n d hd => (hg b k u n d hd).of_same (hsame.at u)
  obtain ⟨request, c, faults⟩ := s
  cases request with
  | createMultipartUpload r bucket key =>
    have hsame : ∀ u ∈ w.metadata.multipart, w.SameUpload u (after a w
        ⟨.createMultipartUpload r bucket key, c, faults⟩) := by
      refine respond_of_request rfl (Q := fun _ w' => ∀ u ∈ w.metadata.multipart, w.SameUpload u w') ?_
      exact inBucket_ensuresWhen (fun u _ => .refl w u) fun _ => handleCreateMultipartUpload_same.when
    exact fun b k u n d hd => (hg b k u n d hd).of_same (hsame u (hg b k u n d hd).mem)
  | abortMultipartUpload r bucket key uploadID =>
    refine respond_of_request rfl (Q := fun reply w' => AllUsable
      (recordPart g (.abortMultipartUpload r bucket key uploadID) reply) w') ?_
    refine .mono (fun reply w' ht => ?_) (inBucket_ensuresWhen hrefl
      fun _ => handleAbortMultipartUpload_touches)
    have hafter := hg.of_touched ht
    cases reply <;> exact hafter
  | completeMultipartUpload r bucket key uploadID body =>
    refine respond_of_ensuresWhen
      (Q := fun reply w' => AllUsable
        (recordPart g (.completeMultipartUpload r bucket key uploadID body) reply) w') ?_
      (allowed_of_mem hs)
    refine .mono (fun reply w' ht => ?_) (inBucket_ensuresWhen hrefl
      fun _ => handleCompleteMultipartUpload_touches fun _ _ h => h)
    have hafter := hg.of_touched ht
    cases reply <;> exact hafter
  | uploadPart r bucket key uploadID body =>
    refine respond_of_ensuresWhen
      (Q := fun reply w' => AllUsable
        (recordPart g (.uploadPart r bucket key uploadID body) reply) w') ?_
      (allowed_of_mem hs.1)
    refine .mono (fun reply w' h => ?_) (inBucket_ensuresWhen
      ⟨hrefl, nofun⟩ fun _ => handleUploadPart_touches hs.2 fun _ _ h => h)
    obtain ⟨ht, hput⟩ := h
    cases reply with
    | error e => exact fun b k u n d hd => ht.usable (hg b k u n d hd) nofun
    | answer status header document =>
      obtain ⟨hrecord, n, hn, hput⟩ := hput rfl
      have hafter := hg.of_put ht hput hrecord (number_of_partNumberOf hn)
      rw [recordPart, hn]
      exact hafter
  | _ => exact absurd rfl hmultipart

theorem AllUsable.afterAll {history : List Step} (hg : AllUsable g w)
    (hC : Throughout a (PartsCondition a) w history) :
    AllUsable (knownParts a w g history) (afterAll a w history) := by
  induction history generalizing w g with
  | nil => exact hg
  | cons s history ih => exact ih (hg.after hC.1) hC.2

/-! ## A completion that nothing stands in the way of -/

theorem storedByNumber_of_lookup {known : Uploads} {row : MultipartPart} (hw : Staging a known w)
    (hrows : w.metadata.getMultipartUpload uploadID = .ok (up, rows))
    (h : (w.metadata.partsOf uploadID).lookup n = some row) : storedByNumber rows n = some row := by
  have hmem : row ∈ rows := by
    unfold getMultipartUpload at hrows
    split at hrows
    · cases hrows
    obtain ⟨-, rfl⟩ := Prod.mk.inj (Except.ok.inj hrows)
    refine mem_filterMap.2 ⟨n, ?_, h⟩
    exact (mem_insertionSort _).2 (mem_keys.2 (lookup_isSome.1 (h ▸ rfl)))
  have hfound : (storedByNumber rows n).isSome := by
    refine find?_isSome.2 ⟨row, mem_reverse.2 hmem, ?_⟩
    exact decide_eq_true (hw.numbered uploadID n row h)
  obtain ⟨row', hrow'⟩ := Option.isSome_iff_exists.1 hfound
  have hlookup := (storedByNumber_eq_some hw hrows hrow').1
  rw [hrow', Option.some.inj (hlookup.symm.trans h)]

variable {listed : List CompletedPart} {datas : List Bytes}

theorem PartsOf.partsListed {known : Uploads} (h : PartsOf a known uploadID listed datas)
    (hfind : ∀ n d, known uploadID n = some d → ∃ row, stored n = some row ∧
      row.eTag = Hex.encode (a.platform.md5 d) ∧ row.size = d.length) :
    PartsListed stored listed := by
  obtain ⟨hordered, hlast, hlarge⟩ := h
  induction hlast with
  | nil => exact partsListed_nil
  | @cons p d rest datas hp hrest ih =>
    rw [map_cons, pairwise_cons] at hordered
    obtain ⟨row, hrow, htag, hsize⟩ := hfind _ _ hp.1
    refine partsListed_cons_iff.2 ⟨fun p' hp' => hordered.1 _ (mem_map_of_mem hp'),
      ⟨row, hrow, hp.2.trans htag.symm, fun hne => ?_⟩, ih hordered.2 fun d' hd' => ?_⟩
    · have hdatas : datas ≠ [] := by
        rintro rfl
        cases hrest
        exact hne rfl
      rw [hsize]
      exact hlarge d (by simp [dropLast_cons_of_ne_nil hdatas])
    · have hdatas : datas ≠ [] := by
        rintro rfl
        cases hd'
      exact hlarge d' (by simp [dropLast_cons_of_ne_nil hdatas, hd'])

theorem PartsOf.known {known : Uploads} (h : PartsOf a known uploadID listed datas) :
    ∀ p ∈ listed, ∃ d, known uploadID p.partNumber = some d := by
  have hlast := h.last
  clear h
  induction hlast with
  | nil => exact nofun
  | cons hd _ ih =>
    rintro p (_ | ⟨_, hp⟩)
    · exact ⟨_, hd.1⟩
    · exact ih p hp

/-- There are no more ascending numbers between two bounds than their difference. -/
theorem length_le_of_ascending {l : List ℤ} {low high : ℤ} (h : l.Pairwise (· < ·))
    (hl : ∀ m ∈ l, low < m ∧ m ≤ high) : l.length ≤ (high - low).toNat := by
  induction l generalizing low with
  | nil => exact Nat.zero_le _
  | cons m rest ih =>
    obtain ⟨hlow, hhigh⟩ := hl m mem_cons_self
    rw [pairwise_cons] at h
    have hrest := ih h.2 fun m' hm' => ⟨h.1 m' hm', (hl m' (mem_cons_of_mem m hm')).2⟩
    rw [length_cons]
    omega

theorem PartsOf.length_le {known : Uploads} (h : PartsOf a known uploadID listed datas)
    (hnumber : ∀ n d, known uploadID n = some d → 0 < n ∧ n ≤ maxMultipartParts) :
    listed.length ≤ maxMultipartParts := by
  have hbounds : ∀ m ∈ listed.map CompletedPart.partNumber, 0 < m ∧ m ≤ maxMultipartParts := by
    intro m hm
    obtain ⟨p, hp, rfl⟩ := mem_map.1 hm
    obtain ⟨d, hd⟩ := h.known p hp
    exact hnumber _ d hd
  simpa using length_le_of_ascending h.ordered hbounds

theorem listedParts_of_listed (h : PartsListed stored listed) (hne : listed ≠ [])
    (hlength : listed.length ≤ maxMultipartParts) :
    listedParts bucket key stored (.document listed) = .ok listed := by
  have hcheck : checkParts bucket key stored none listed = none :=
    checkParts_eq_none_iff.2 ⟨fun n hn => (by cases hn), h⟩
  simp only [listedParts, if_neg hne, if_neg (not_lt.2 hlength), hcheck]

/-- **The blob is written**, where the part files are there. -/
theorem assemble_succeeds {numbers : List ℤ} {ref : ObjectRef}
    (hsse : up.sseAlgorithm = sseAlgorithmAES256 → a.sseKey.length = 32) (hbucket : ref.bucket ≠ [])
    (hkey : ref.key ≠ []) (hne : numbers ≠ [])
    (hstored : ∀ n ∈ numbers, ∃ row, stored n = some row ∧ row.partNumber = n)
    (hdatas : Forall₂ (fun n d => w.disk.staged uploadID n = some d) numbers datas) :
    (stores.eval (assemble a c up stored uploadID numbers ref) w).1.isSome := by
  unfold assemble
  split_ifs with halg
  · refine eval_completeMultipartUploadWithWriter hne hdatas ?_
    rw [eval_writeMaybeEncryptedObject hbucket hkey rfl fun _ => hsse halg]
    rfl
  split
  next n =>
    obtain ⟨row, hrow, rfl⟩ := hstored n mem_cons_self
    cases hdatas with
    | cons hd _ =>
      rw [hrow]
      exact eval_promoteMultipartPart hd
  next =>
    refine eval_completeMultipartUploadWithWriter hne hdatas ?_
    rw [eval_writeObject hbucket hkey rfl]
    rfl

/-- **What may stand in the way of a completion**, apart from its parts: the bucket is gone, or the
version that it would replace is locked. -/
structure Unhindered (w : World) (c : Ctx) (bucket key : Bytes) : Prop where
  named : bucket ≠ [] ∧ key ≠ []
  there : ∃ b, w.metadata.getBucket bucket = .ok b ∧ (writtenVersionID c b = nullVersion →
    ∀ v, w.metadata.getObjectVersion bucket key nullVersion = .ok v → objectLocked v c.now = false)

theorem eval_overwriteLocked {b : Bucket} (h : writtenVersionID c b = nullVersion →
      ∀ v, w.metadata.getObjectVersion bucket key nullVersion = .ok v → objectLocked v c.now = false) :
    stores.eval (overwriteLocked c bucket key (writtenVersionID c b)) w = (false, w) := by
  rw [overwriteLocked]
  split_ifs with hnull
  · simp only [versionLocked, eval_bind, eval_ask, step, reading]
    cases hv : w.metadata.getObjectVersion bucket key nullVersion with
    | error e => rfl
    | ok v => simp [h hnull v hv]
  · rfl

theorem eval_runHeavy {fn : Act Reply} :
    stores.eval (runHeavy a bucket key fn) w = stores.eval fn w := by
  rw [runHeavy]
  split_ifs
  · rfl
  · simp [step]

/-- **A completion of parts that can be used** gets to its row. -/
theorem stageComplete_succeeds {known : Uploads} (hw : Staging a known w) (hg : AllUsable g w)
    (hof : PartsOf a (g bucket key) uploadID listed datas) (hne : listed ≠ [])
    (hfree : Unhindered w c bucket key) : ∃ row,
    (stores.eval (stageComplete a c r bucket key uploadID (.document listed)) w).1 = .ok row := by
  obtain ⟨⟨hbucket, hkey⟩, b, hb, hunlocked⟩ := hfree
  have husable : ∀ n d, g bucket key uploadID n = some d → Usable w bucket key uploadID n d :=
    fun n d hd => hg bucket key uploadID n d hd
  -- the upload is there, because one of its parts is
  obtain ⟨up, hup, rfl, rfl⟩ : w.Records bucket key uploadID := by
    obtain ⟨p, hp⟩ := exists_mem_of_ne_nil listed hne
    obtain ⟨d, hd⟩ := hof.known p hp
    exact (husable _ _ hd).record
  obtain ⟨rows, hrows⟩ : ∃ rows, w.metadata.getMultipartUpload uploadID = .ok (up, rows) := by
    unfold getMultipartUpload
    rw [hup]
    exact ⟨_, rfl⟩
  have hfind : ∀ n d, g up.bucket up.key uploadID n = some d → ∃ row,
      storedByNumber rows n = some row ∧ row.eTag = Hex.encode (a.platform.md5 d) ∧
        row.size = d.length := by
    intro n d hd
    obtain ⟨row, hrow⟩ := (husable n d hd).row
    exact ⟨row, storedByNumber_of_lookup hw hrows hrow,
      (hw.part uploadID n row d hrow (husable n d hd).file).2⟩
  have hlisted : listedParts up.bucket up.key (storedByNumber rows) (.document listed) = .ok listed :=
    listedParts_of_listed (hof.partsListed hfind) hne
      (hof.length_le fun n d hd => (husable n d hd).number)
  have hdatas : Forall₂ (fun n d => w.disk.staged uploadID n = some d)
      (listed.map CompletedPart.partNumber) datas := by
    rw [forall₂_map_left_iff]
    exact hof.last.imp fun p d hp => (husable _ _ hp.1).file
  have hblob : (stores.eval (assemble a c up (storedByNumber rows) uploadID
      (listed.map CompletedPart.partNumber) ⟨up.bucket, up.key, writtenVersionID c b⟩) w).1.isSome := by
    refine assemble_succeeds (hw.keyed uploadID up hup) hbucket hkey (by simpa using hne)
      (fun n hn => ?_) hdatas
    obtain ⟨p, hp, rfl⟩ := mem_map.1 hn
    obtain ⟨d, hd⟩ := hof.known p hp
    obtain ⟨row, hrow, -⟩ := hfind _ d hd
    exact ⟨row, hrow, (storedByNumber_eq_some hw hrows hrow).2⟩
  obtain ⟨m, hm⟩ := Option.isSome_iff_exists.1 hblob
  simp only [stageComplete, findUpload, eval_bind, eval_ask, step, reading, hrows, ne_eq,
    not_true_eq_false, or_self, if_false, eval_pure, hlisted, hb,
    eval_overwriteLocked hunlocked, Bool.false_eq_true, hm]
  exact ⟨_, rfl⟩

theorem completion_accepted {known : Uploads} (hw : Staging a known w) (hg : AllUsable g w)
    (hof : PartsOf a (g bucket key) uploadID listed datas) (hne : listed ≠ [])
    (hfree : Unhindered w c bucket key) :
    (stores.eval (handle a c (.completeMultipartUpload r bucket key uploadID
      (.document listed))) w).1.accepted = true := by
  obtain ⟨row, hrow⟩ := stageComplete_succeeds (r := r) hw hg hof hne hfree
  obtain ⟨b, hb, -⟩ := hfree.there
  simp only [handle, inBucket, eval_bind, eval_ask, step, reading, hb,
    handleCompleteMultipartUpload, eval_runHeavy, hrow]
  rfl

/-! ## The parts of a history -/

theorem PartsOf.unique {known known' : Uploads} {datas' : List Bytes}
    (h : PartsOf a known uploadID listed datas) (h' : PartsOf a known' uploadID listed datas')
    (hknown : ∀ n d, known uploadID n = some d → known' uploadID n = some d) : datas' = datas := by
  have hsame : Forall₂ (fun p d => known' uploadID p.partNumber = some d) listed datas :=
    h.last.imp fun p d hp => hknown _ _ hp.1
  have hsame' : Forall₂ (fun p d => known' uploadID p.partNumber = some d) listed datas' :=
    h'.last.imp fun p d hp => hp.1
  exact right_unique_forall₂' (fun p d d' hd hd' => Option.some.inj (hd.symm.trans hd')) hsame' hsame

/-- **Parts stay usable.**  After every history in which uploads of parts came with right checksums and
the last calls of uploads of parts and completions did not fail, a completion that lists uploaded parts
with their tags is accepted, unless the bucket is gone or the object is locked, and a `GET` delivers the
bytes that were uploaded. -/
theorem parts_stay_usable {history : List Step} {listed : List CompletedPart} {datas : List Bytes}
    (hhistory : Throughout a (PartsCondition a) {} history)
    (hs : s.request = .completeMultipartUpload r bucket key uploadID (.document listed))
    (hfaults : s.faults = [])
    (hof : PartsOf a (knownParts a {} (fun _ _ _ _ => none) history bucket key) uploadID listed datas)
    (hne : listed ≠ []) (hfree : Unhindered (afterAll a {} history) s.ctx bucket key) :
    (respond a (afterAll a {} history) s).1.accepted = true ∧ ∃ row,
      ((after a (afterAll a {} history) s).metadata.versions bucket key).getLast? = some row ∧
      ∀ r, r.Unconditional → AsksFor (afterAll a {} history) r row →
        getReply a (after a (afterAll a {} history) s) r bucket key =
          .answer 200 (objectHeaders a.platform row) (.object datas.flatten) := by
  have hg : AllUsable (knownParts a {} (fun _ _ _ _ => none) history) (afterAll a {} history) :=
    .afterAll (by rintro _ _ _ _ _ ⟨⟩) hhistory
  have hw := (staging_empty (g := fun _ _ => none)).afterAll
    (hhistory.mono fun _ _ => PartsCondition.staging)
  have haccepted : (respond a (afterAll a {} history) s).1.accepted = true := by
    rw [respond, hfaults, exec_nil, hs]
    exact completion_accepted hw hg hof hne hfree
  obtain ⟨listed', datas', row, hlisted, hof', hrow, -, -, hget⟩ := hw.assembled hs haccepted
  obtain rfl := XmlBody.document.inj hlisted
  -- the last uploads are the parts that are known
  obtain rfl : datas' = datas := hof.unique hof' fun n d hd => by
    have husable := hg bucket key uploadID n d hd
    obtain ⟨p, hp⟩ := husable.row
    exact (hw.part uploadID n p d hp husable.file).1
  exact ⟨haccepted, row, hrow, hget⟩

/-! ## Two uploads that fail -/

def brokenPart : Step :=
  ⟨.uploadPart (objectRequest "partNumber=1") (str "b") (str "k") (str "2-") ⟨str "new", true⟩,
    sampleCtx 4, []⟩

def badPart : Step :=
  ⟨.uploadPart (objectRequest "partNumber=2" [("X-Amz-Checksum-Sha256", "bad-checksum")]) (str "b")
    (str "k") (str "2-") ⟨str "new", false⟩, sampleCtx 4, []⟩

theorem finishes_of_faultless (hs : s.faults = []) : Finishes a w s := fun e he _ => fault_eq_ok hs e he

theorem unhindered_of_empty (hnamed : bucket ≠ [] ∧ key ≠ [])
    (hthere : (w.metadata.buckets.lookup bucket).isSome = true)
    (hempty : (w.metadata.versions bucket key).isEmpty = true) : Unhindered w c bucket key := by
  obtain ⟨b, hb⟩ := Option.isSome_iff_exists.1 hthere
  refine ⟨hnamed, b, by rw [getBucket, hb], fun _ v hv => ?_⟩
  rw [getObjectVersion, isEmpty_iff.1 hempty] at hv
  cases hv

theorem partsOf_oldPart {last : Step} (h : knownParts strictAPI {} (fun _ _ _ _ => none)
      (partHistory ++ [last]) (str "b") (str "k") (str "2-") 1 = some (str "old")) :
    PartsOf strictAPI (knownParts strictAPI {} (fun _ _ _ _ => none) (partHistory ++ [last]) (str "b")
      (str "k")) (str "2-") oldPart [str "old"] :=
  ⟨by decide, .cons ⟨h, by decide +kernel⟩ .nil, nofun⟩

/-- **A part survives an upload that breaks off.** -/
theorem parts_stay_usable_brokenPart :
    (respond strictAPI (afterAll strictAPI {} partHistory) brokenPart).1.answered = false ∧
      (respond strictAPI (afterAll strictAPI {} (partHistory ++ [brokenPart])) oldCompletion).1.accepted
        = true ∧ ∃ row,
      ((after strictAPI (afterAll strictAPI {} (partHistory ++ [brokenPart])) oldCompletion
        ).metadata.versions (str "b") (str "k")).getLast? = some row ∧
      ∀ r, r.Unconditional → AsksFor (afterAll strictAPI {} (partHistory ++ [brokenPart])) r row →
        getReply strictAPI (after strictAPI (afterAll strictAPI {} (partHistory ++ [brokenPart]))
          oldCompletion) r (str "b") (str "k") =
            .answer 200 (objectHeaders strictAPI.platform row) (.object [str "old"].flatten) := by
  refine ⟨by decide +kernel, parts_stay_usable ?_ rfl rfl (partsOf_oldPart (by decide +kernel))
    (by decide) (unhindered_of_empty (by decide) (by decide +kernel) (by decide +kernel))⟩
  exact ⟨trivial, trivial, ⟨finishes_of_faultless rfl, by decide +kernel⟩,
    ⟨finishes_of_faultless rfl, by decide +kernel⟩, trivial⟩

/-- **A part does not survive a wrong checksum**, not even that of another part: the completion fails,
although its list is right and nothing else stands in its way. -/
theorem badDigest_loses_parts :
    (respond strictAPI (afterAll strictAPI {} partHistory) badPart).1.answered = false ∧
      PartsOf strictAPI (knownParts strictAPI {} (fun _ _ _ _ => none) (partHistory ++ [badPart])
        (str "b") (str "k")) (str "2-") oldPart [str "old"] ∧
      Unhindered (afterAll strictAPI {} (partHistory ++ [badPart])) oldCompletion.ctx (str "b")
        (str "k") ∧
      (respond strictAPI (afterAll strictAPI {} partHistory) oldCompletion).1.accepted = true ∧
      (respond strictAPI (afterAll strictAPI {} (partHistory ++ [badPart])) oldCompletion).1.accepted
        = false := by
  exact ⟨by decide +kernel, partsOf_oldPart (by decide +kernel),
    unhindered_of_empty (by decide) (by decide +kernel) (by decide +kernel), by decide +kernel,
    by decide +kernel⟩

end S000
