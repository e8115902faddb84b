import S000.Blob.Store
import S000.Foundations.Digest

/-!
# Blob/Outcomes — what the blob store leaves behind

The two sides of the blob store, whatever goes wrong on the way.  Where writing an object returns a
record, the source was read to its end, the record is about its bytes, and the file at the path of the
object consists of them (`World.Stored`); no other object file has changed, and no row.  The readers of
an upload's parts, if none of them breaks off, deliver the part files in the order of the list.

Writing a part is different: the part file is replaced before its directory is synced, so that a failed
sync leaves new bytes behind.  What is said about it is said for runs in which that does not happen.
-/

namespace S000

open Machine Option

/-- One object file was put in place; the others and the rows are as before. -/
structure World.Stored (w w' : World) (path content : Bytes) : Prop where
  metadata : w'.metadata = w.metadata
  files : w'.disk.files = Function.update w.disk.files path (some content)

/-- One part file was put in place, and the rest is as before. -/
structure World.Staged (w w' : World) (uploadID : Bytes) (n : ℤ) (content : Bytes) : Prop where
  metadata : w'.metadata = w.metadata
  staged : w'.disk.staged = (w.disk.setPart uploadID n (some content)).staged

variable {w w' : World} {path content : Bytes} {w₁ w₂ : World}

theorem World.Kept.stored (h : w.Kept w₁) (hs : w₁.Stored w₂ path content) (h' : w₂.Kept w') :
    w.Stored w' path content where
  metadata := by rw [h'.metadata, hs.metadata, h.metadata]
  files := by rw [h'.files, hs.files, h.files]

variable {uploadID : Bytes} {n : ℤ}

theorem World.Kept.staged_of (h : w.Kept w₁) (hs : w₁.Staged w₂ uploadID n content)
    (h' : w₂.Kept w') : w.Staged w' uploadID n content where
  metadata := by rw [h'.metadata, hs.metadata, h.metadata]
  staged := by rw [h'.staged, hs.staged, Disk.setPart, Disk.setPart, h.staged]

variable {f : Fault}

theorem World.Stored.removeUpload (h : w.Stored w₁ path content) :
    w.Stored (step w₁ f (.removeUpload uploadID)).2 path content := by
  cases f <;> exact ⟨h.metadata, h.files⟩

theorem stored_of_rename {id : ℕ} (h : step w f (.rename id content path) = (true, w')) :
    w.Stored w' path content := by
  obtain ⟨-, rfl⟩ := changing_eq_true h
  exact ⟨rfl, rfl⟩

theorem stored_of_promote (h : step w f (.promote uploadID n path) = (true, w')) :
    ∃ d, w.disk.staged uploadID n = some d ∧ w.Stored w' path d := by
  obtain ⟨hthere, rfl⟩ := changing_eq_true h
  obtain ⟨d, hd⟩ := isSome_iff_exists.1 hthere
  exact ⟨d, hd, rfl, by rw [hd]; rfl⟩

theorem staged_of_renamePart {id : ℕ} (h : step w f (.renamePart id content uploadID n) = (true, w')) :
    w.Staged w' uploadID n content := by
  obtain ⟨-, rfl⟩ := changing_eq_true h
  exact ⟨rfl, rfl⟩

namespace Blob

variable {P : Platform} {s : Store} {now : Time} {ref : ObjectRef} {src : Stream} {uploadID : Bytes}

/-! ## Writing -/

theorem cleanupTemp_ensures {α : Type} {id : ℕ} {Q : α → World → Prop} :
    stores.Ensures (fun x w' => ∀ m, x = some m → Q m w') (cleanupTemp id) w :=
  (ensures_idle (cleanupTemp_only (fun _ h => h) id)).mono fun x w' h m hm => by
    rw [h.1] at hm
    cases hm

/-- **Writing an object.** -/
theorem writeObject_ensures : stores.Ensures (fun x w' => ∀ m, x = some m →
      m = { digests P src.bytes with ref, path := objectPath P s ref, createdAt := now } ∧
        src.fails = false ∧ w.Stored w' (objectPath P s ref) src.bytes)
    (writeObject P s now ref src) w := by
  refine ensures_ite stores (fun _ _ h => by cases h) fun _ => ?_
  refine (ensures_idle (fillTemp_only fun _ h => h)).bind fun t w₁ ht => ?_
  rcases t with _ | id
  · intro m hm
    cases hm
  simp only [ensures_bind]
  refine ensures_ask_idle trivial fun made w₂ hmade => ?_
  refine ensures_ite stores (fun _ => cleanupTemp_ensures) fun _ => ?_
  simp only [ensures_bind]
  refine ensures_ask_of fun f (renamed : Bool) w₃ hrenamed => ?_
  refine ensures_ite stores (fun _ => cleanupTemp_ensures) fun htrue => ?_
  obtain rfl : renamed = true := by simpa using htrue
  refine (ensures_idle (syncParentDir_only (fun _ h => h) _)).bind fun synced w₄ hsynced => ?_
  refine ensures_ite stores (fun _ _ h => by cases h) fun _ m hm => ?_
  exact ⟨(some.inj hm).symm, ht.1 id rfl,
    (ht.2.trans hmade).stored (stored_of_rename hrenamed) hsynced.2⟩

/-! ## The parts of an upload -/

theorem bytes_stream_of_opening {x : Option Bytes} {file : File} (h : opening f x = some file)
    (hfails : file.stream.fails = false) :
    x = some file.stream.bytes := by
  cases x with
  | none => cases f <;> cases h
  | some b => cases f with
    | ok =>
      cases h
      simp [File.stream, File.section]
    | broken n =>
      cases h
      have hlong : b.length ≤ n := by simpa [File.stream, File.section] using hfails
      simp [File.stream, File.section, List.take_of_length_le hlong]
    | refused | unsaved => cases h

/-- **The readers of the parts**, if none of them breaks off, deliver the part files in order. -/
theorem openParts_ensures : ∀ (ns : List ℤ) (w : World), stores.Ensures (fun x w' => w' = w ∧
      ∀ src, x = some src → src.fails = false → ∃ datas,
        List.Forall₂ (fun n d => w.disk.staged uploadID n = some d) ns datas ∧
          src.bytes = datas.flatten) (openParts uploadID ns) w
  | [], w => ⟨rfl, fun src hsrc _ => ⟨[], .nil, by rw [← some.inj hsrc]; rfl⟩⟩
  | n :: ns, w => by
    simp only [openParts, ensures_bind]
    refine ensures_ask_of fun f opened w₁ hopened => ?_
    obtain ⟨hfile, rfl⟩ := Prod.mk.inj hopened
    cases opened with
    | none => exact ⟨rfl, fun _ h => by cases h⟩
    | some file =>
      refine (openParts_ensures ns w).bind fun x w' hx => ?_
      obtain ⟨rfl, hx⟩ := hx
      rcases x with _ | rest
      · exact ⟨rfl, fun _ h => by cases h⟩
      refine ⟨rfl, fun src hsrc hfails => ?_⟩
      cases hsrc
      unfold Stream.append at hfails ⊢
      split_ifs at hfails ⊢ with hhead
      · cases hhead.symm.trans hfails
      obtain ⟨datas, hdatas, hbytes⟩ := hx rest rfl hfails
      refine ⟨file.stream.bytes :: datas, .cons ?_ hdatas, by rw [hbytes]; rfl⟩
      exact bytes_stream_of_opening hfile (by simpa using hhead)

variable {write : Stream → Act (Option ObjectMeta)} {ns : List ℤ}

/-- **Completing an upload**: what the writer stores of its source, it stores of the parts in order. -/
theorem completeMultipartUploadWithWriter_ensures {R : Bytes → ObjectMeta → Prop} {stored : Bytes → Bytes}
    (hwrite : ∀ src, stores.Ensures (fun x w' => ∀ m, x = some m →
      R src.bytes m ∧ src.fails = false ∧ w.Stored w' path (stored src.bytes)) (write src) w) :
    stores.Ensures (fun x w' => ∀ m, x = some m → ∃ datas,
        List.Forall₂ (fun n d => w.disk.staged uploadID n = some d) ns datas ∧
          R datas.flatten m ∧ w.Stored w' path (stored datas.flatten))
      (completeMultipartUploadWithWriter uploadID ns write) w := by
  refine ensures_ite stores nofun fun _ => ?_
  refine (openParts_ensures ns w).bind fun x w₁ hx => ?_
  obtain ⟨rfl, hx⟩ := hx
  rcases x with _ | src
  · intro m hm
    cases hm
  refine (hwrite src).bind fun x w₂ hwritten => ?_
  rcases x with _ | m
  · intro m hm
    cases hm
  obtain ⟨hR, hfails, hstored⟩ := hwritten m rfl
  obtain ⟨datas, hdatas, hbytes⟩ := hx src rfl hfails
  refine fun f => ensures_ite stores nofun fun _ m' hm' => ?_
  cases hm'
  exact ⟨datas, hdatas, hbytes ▸ hR, hbytes ▸ hstored.removeUpload⟩

/-- **Promoting a part.** -/
theorem promoteMultipartPart_ensures {part : Digests} {createdAt : Time} :
    stores.Ensures (fun x w' => ∀ m, x = some m → ∃ d, w.disk.staged uploadID n = some d ∧
        m = { part with ref, path := objectPath P s ref, createdAt } ∧
          w.Stored w' (objectPath P s ref) d)
      (promoteMultipartPart P s uploadID n ref part createdAt) w := by
  simp only [promoteMultipartPart, ensures_bind]
  refine ensures_ask_idle trivial fun made w₁ hmade => ?_
  refine ensures_ite stores nofun fun _ => ?_
  simp only [ensures_bind]
  refine ensures_ask_of fun f (promoted : Bool) w₂ hpromoted => ?_
  refine ensures_ite stores nofun fun htrue => ?_
  obtain rfl : promoted = true := by simpa using htrue
  obtain ⟨d, hd, hstored⟩ := stored_of_promote hpromoted
  refine (ensures_idle (syncParentDir_only (fun _ h => h) _)).bind fun synced w₃ hsynced => ?_
  refine ensures_ite stores nofun fun _ => ?_
  refine fun f' => ensures_ite stores nofun fun _ m hm => ?_
  exact ⟨d, by rw [← hmade.staged, hd], (some.inj hm).symm,
    (hmade.stored hstored hsynced.2).removeUpload⟩

/-- **Writing a part**, where no sync of a directory fails: nothing happened, or the part is there. -/
theorem writeMultipartPart_ensuresWhen {B : World → Event calls Fault → Prop}
    (hB : ∀ w path f v, B w ⟨.syncDir path, f, v⟩ → f = .ok) :
    stores.EnsuresWhen B (fun x w' => (x = none → w.Kept w') ∧ ∀ m, x = some m →
        w.Staged w' uploadID n src.bytes ∧ m = { digests P src.bytes with
          uploadID, partNumber := n, path := multipartPartPath s uploadID n, createdAt := now })
      (writeMultipartPart P s now uploadID n src) w := by
  have hnone {w₁ : World} (h : w.Kept w₁) : ((none : Option MultipartPartMeta) = none → w.Kept w₁) ∧
      ∀ m, (none : Option MultipartPartMeta) = some m → w.Staged w₁ uploadID n src.bytes ∧
        m = { digests P src.bytes with
          uploadID, partNumber := n, path := multipartPartPath s uploadID n, createdAt := now } :=
    ⟨fun _ => h, nofun⟩
  refine ensuresWhen_ite stores (fun _ => hnone (.refl w)) fun _ => ?_
  simp only [ensuresWhen_bind]
  refine (ensures_idle (createMultipartUpload_only fun _ h => h)).when.mono fun made w₁ hmade => ?_
  refine ensuresWhen_ite stores (fun _ => hnone hmade.2) fun _ => ?_
  refine (ensures_idle (fillTemp_only fun _ h => h)).when.bind fun t w₂ ht => ?_
  rcases t with _ | id
  · exact hnone (hmade.2.trans ht.2)
  simp only [ensuresWhen_bind]
  refine ensuresWhen_ask_of fun f renamed w₃ hrenamed _ => ?_
  cases renamed with
  | false =>
    obtain rfl := changing_eq_false hrenamed
    refine (ensures_idle (cleanupTemp_only (fun _ h => h) id)).when.mono fun x w₄ hx => ?_
    obtain ⟨rfl, hkept⟩ := hx
    exact hnone ((hmade.2.trans ht.2).trans hkept)
  | true =>
    -- from here on the part is there, and only the sync of its directory is left
    have hstaged := staged_of_renamePart hrenamed
    have hsync : stores.EnsuresWhen B (fun synced w' => synced = true ∧ w₃.Kept w')
        (syncParentDir s (multipartPartPath s uploadID n)) w₃ := by
      refine ensuresWhen_ite stores (fun _ => ⟨rfl, .refl w₃⟩) fun _ => ?_
      refine ensuresWhen_ask_of fun f' synced w₄ hsynced hf' => ?_
      obtain rfl := hB _ _ _ _ hf'
      cases hsynced
      exact ⟨rfl, .refl w₃⟩
    refine hsync.bind fun synced w₄ hsynced => ?_
    obtain ⟨rfl, hkept⟩ := hsynced
    refine ⟨fun h => (by cases h), fun m hm => ⟨?_, (some.inj hm).symm⟩⟩
    exact (hmade.2.trans ht.2).staged_of hstaged hkept

/-! ## Without faults

Where no call fails the programs return a record, as long as the sources and the part files are
there. -/

section Faultless

theorem eval_syncFile (id : ℕ) : stores.eval (syncFile s id) w = (true, w) := by
  refine (eval_ite stores _ _ w).trans ?_
  split_ifs <;> rfl

theorem eval_syncParentDir (path : Bytes) : stores.eval (syncParentDir s path) w = (true, w) := by
  refine (eval_ite stores _ _ w).trans ?_
  split_ifs <;> rfl

/-- A temporary file is filled, -/
theorem eval_fillTemp (h : src.fails = false) : stores.eval (fillTemp s src) w =
    (some w.disk.nextTemp, { w with disk := { w.disk with
      temps := w.disk.nextTemp :: w.disk.temps, nextTemp := w.disk.nextTemp + 1 } }) := by
  simp [fillTemp, step, h, eval_syncFile]

/-- …and becomes the file of an object. -/
theorem eval_writeObject (hbucket : ref.bucket ≠ []) (hkey : ref.key ≠ [])
    (h : src.fails = false) : (stores.eval (writeObject P s now ref src) w).1 =
      some { digests P src.bytes with ref, path := objectPath P s ref, createdAt := now } := by
  simp [writeObject, hbucket, hkey, eval_fillTemp h, step, changing, eval_syncParentDir]

/-- The part files are read in order, -/
theorem eval_openParts {datas : List Bytes}
    (h : List.Forall₂ (fun n d => w.disk.staged uploadID n = some d) ns datas) :
    stores.eval (openParts uploadID ns) w = (some ⟨datas.flatten, false⟩, w) := by
  induction h with
  | nil => rfl
  | cons hd _ ih => simp [openParts, step, opening, hd, ih, Stream.append, File.stream, File.section]

/-- …and written as the writer does, -/
theorem eval_completeMultipartUploadWithWriter {datas : List Bytes} (hne : ns ≠ [])
    (hdatas : List.Forall₂ (fun n d => w.disk.staged uploadID n = some d) ns datas)
    (hwrite : (stores.eval (write ⟨datas.flatten, false⟩) w).1.isSome) :
    (stores.eval (completeMultipartUploadWithWriter uploadID ns write) w).1.isSome := by
  obtain ⟨m, hm⟩ := isSome_iff_exists.1 hwrite
  simp [completeMultipartUploadWithWriter, hne, eval_openParts hdatas, hm, step]

/-- …or a single one is promoted. -/
theorem eval_promoteMultipartPart {d : Bytes} {part : Digests} {createdAt : Time}
    (hd : w.disk.staged uploadID n = some d) :
    (stores.eval (promoteMultipartPart P s uploadID n ref part createdAt) w).1.isSome := by
  simp [promoteMultipartPart, step, changing, hd, eval_syncParentDir]

end Faultless

/-! ## Failed writes -/

section Undoing

/-- The call was to remove a temporary file, and has failed. -/
def leavesTemp : Event calls Fault → Bool
  | ⟨.removeTemp _, f, _⟩ => decide (f ≠ .ok)
  | _ => false

/-- The call was to sync a directory, and has failed. -/
def failsSync : Event calls Fault → Bool
  | ⟨.syncDir _, f, _⟩ => decide (f ≠ .ok)
  | _ => false

/-- The file at the path and the temporary files are what they were. -/
def Undone (w : World) (path : Bytes) (w' : World) : Prop :=
  w'.disk.files path = w.disk.files path ∧ w'.disk.temps = w.disk.temps

/-- No removal of a temporary file fails, and the sync of a directory only where the file had the new
content before. -/
def Undoable (w : World) (path content : Bytes) (es : List (Event calls Fault)) : Prop :=
  es.any leavesTemp = false ∧ (es.any failsSync = true → w.disk.files path = some content)

/-- A failed run has undone what it did exactly if it could. -/
def Undoes (w : World) (path content : Bytes) (x : Run calls Fault World) : Prop :=
  Undone w path x.world ↔ Undoable w path content x.events

/-- A run without such failures, up to a world that differs by temporary files. -/
structure Underway (w : World) (path : Bytes) (ids : List ℕ) (x : Run calls Fault World) : Prop where
  files : x.world.disk.files path = w.disk.files path
  temps : x.world.disk.temps = ids ++ w.disk.temps
  removes : x.events.any leavesTemp = false
  syncs : x.events.any failsSync = false

variable {path content : Bytes} {id : ℕ} {x : Run calls Fault World} {ids ids' : List ℕ} {f : Fault}
  {o : Call} {w' : World}

theorem Underway.advance (h : Underway w path ids x)
    (hfiles : (step x.world f o).2.disk.files path = w'.disk.files path)
    (htemps : (step x.world f o).2.disk.temps = ids' ++ w'.disk.temps)
    (hremoves : leavesTemp ⟨o, f, (stores.step x.world f o).1⟩ = false)
    (hsyncs : failsSync ⟨o, f, (stores.step x.world f o).1⟩ = false) :
    Underway w' path ids' (stores.advance x f o) :=
  ⟨hfiles, htemps, by simp [Machine.advance, h.removes, hremoves],
    by simp [Machine.advance, h.syncs, hsyncs]⟩

theorem Underway.undoable (h : Underway w' path ids x) : Undoable w path content x.events :=
  ⟨h.removes, fun hfails => by cases h.syncs.symm.trans hfails⟩

theorem Underway.undoable_concat (h : Underway w' path ids x) {e : Event calls Fault} :
    Undoable w path content (x.events ++ [e]) ↔
      leavesTemp e = false ∧ (failsSync e = true → w.disk.files path = some content) := by
  simp [Undoable, h.removes, h.syncs]

theorem cleanupTemp_undone {α : Type} {Q : Option α → Run calls Fault World → Prop}
    (hQ : ∀ x', Undoes w path content x' → Q none x') (h : Underway w path [id] x) :
    stores.recording.Ensures Q (cleanupTemp id) x := by
  intro f f'
  have hclosed : Underway w path [id] (stores.advance x f (.closeTemp id)) :=
    h.advance h.files h.temps rfl rfl
  refine hQ _ (trans ?_ hclosed.undoable_concat.symm)
  change Undone w path (changing x.world f' true (x.world.disk.dropTemp id)).2 ↔ _
  unfold changing
  by_cases hf : f' = .ok
  · rw [if_pos ⟨hf, rfl⟩]
    exact iff_of_true ⟨h.files, by simp [Disk.dropTemp, h.temps]⟩
      ⟨decide_eq_false (not_not.2 hf), nofun⟩
  · rw [if_neg fun h => hf h.1]
    exact iff_of_false (fun hu => by simpa [h.temps] using hu.2) fun hu => of_decide_eq_false hu.1 hf

/-- Until its temporary file is complete, -/
theorem fillTemp_undone (h : Underway w path [] x) :
    stores.recording.Ensures (fun t x' => t.elim (Undoes w path src.bytes x') (Underway w path [·] x'))
      (fillTemp s src) x := by
  intro f
  by_cases hf : f = .ok
  · subst hf
    have h₁ : Underway w path [x.world.disk.nextTemp] (stores.advance x .ok .createTemp) :=
      h.advance h.files (congrArg (x.world.disk.nextTemp :: ·) h.temps) rfl rfl
    refine (ensures_bind stores.recording).2 fun f => ?_
    have h₂ := h₁.advance (o := .writeTemp x.world.disk.nextTemp src.bytes) (f := f) h₁.files h₁.temps
      rfl rfl
    refine ensures_ite stores.recording (fun _ => cleanupTemp_undone (fun _ h => h) h₂) fun _ => ?_
    have hsync : stores.recording.Ensures (fun _ => Underway w path [x.world.disk.nextTemp])
        (syncFile s x.world.disk.nextTemp) _ :=
      ensures_ite stores.recording (fun _ => h₂) fun _ f => h₂.advance h₂.files h₂.temps rfl rfl
    refine hsync.bind fun synced x₃ h₃ => ?_
    refine ensures_ite stores.recording (fun _ => cleanupTemp_undone (fun _ h => h) h₃) fun _ f => ?_
    have h₄ := h₃.advance (o := .closeTemp x.world.disk.nextTemp) (f := f) h₃.files h₃.temps rfl rfl
    exact ensures_ite stores.recording (fun _ => cleanupTemp_undone (fun _ h => h) h₄) fun _ => h₄
  · have hstep : step x.world f .createTemp = (none, x.world) := if_neg hf
    have h₁ : Underway w path [] (stores.advance x f .createTemp) :=
      h.advance (by rw [hstep, h.files]) (by rw [hstep, h.temps]) rfl rfl
    have hnone : (stores.recording.step x f .createTemp).1 = none := congrArg Prod.fst hstep
    rw [hnone]
    exact iff_of_true ⟨h₁.files, h₁.temps⟩ h₁.undoable

/-- …and from there to its end, a write undoes what it did exactly if it can. -/
theorem Underway.commits {m : ObjectMeta} (h : Underway w path [id] x) :
    stores.recording.Ensures (fun y x' =>
        (y = none → Undone w path x'.world) ↔ Undoable w path src.bytes x'.events) (do
      if !(← ask (.rename id src.bytes path)) then cleanupTemp id
      else if !(← syncParentDir s path) then return none
      else return some m) x := by
  rw [ensures_bind]
  refine records_ask_of fun f renamed hrenamed => ?_
  cases renamed with
  | false =>
    have hworld : (step x.world f (.rename id src.bytes path)).2 = x.world :=
      changing_eq_false (Prod.ext hrenamed rfl)
    have h₁ : Underway w path [id] (stores.advance x f (.rename id src.bytes path)) :=
      h.advance (by rw [hworld, h.files]) (by rw [hworld, h.temps]) rfl rfl
    exact cleanupTemp_undone (fun _ hx => (imp_iff_right rfl).trans hx) h₁
  | true =>
    -- from here on the file has the new content, and only the sync of its directory is left
    have hworld : (step x.world f (.rename id src.bytes path)).2 =
        { x.world with disk := (x.world.disk.dropTemp id).setFile path (some src.bytes) } :=
      (changing_eq_true (Prod.ext hrenamed rfl)).2
    have h₁ : Underway (step x.world f (.rename id src.bytes path)).2 path []
      (stores.advance x f (.rename id src.bytes path)) := h.advance rfl rfl rfl rfl
    have hdone : Undone w path (step x.world f (.rename id src.bytes path)).2 ↔
        w.disk.files path = some src.bytes := by
      rw [hworld]
      simp [Undone, Disk.setFile, Disk.dropTemp, h.temps, eq_comm]
    refine (ensures_bind stores.recording).2 (ensures_ite stores.recording (fun _ => ?_) fun _ f' => ?_)
    · exact iff_of_true nofun h₁.undoable
    by_cases hf : f' = .ok
    · subst hf
      exact iff_of_true nofun (h₁.undoable_concat.2 ⟨rfl, nofun⟩)
    have hfails : (!decide (f' = .ok)) = true := by simp [hf]
    refine ensures_ite stores.recording (fun _ => ?_) fun h => absurd hfails h
    refine (imp_iff_right rfl).trans (hdone.trans (trans ?_ h₁.undoable_concat.symm))
    exact ⟨fun h => ⟨rfl, fun _ => h⟩, fun h => h.2 (decide_eq_true hf)⟩

/-- **A write that returns an error has undone what it did** exactly if no removal of a temporary file
fails and the sync of the directory only where the file had the same bytes before. -/
theorem writeObject_undone_iff (P : Platform) (s : Store) (now : Time) (ref : ObjectRef) (src : Stream)
    (w : World) (fs : List Fault) :
    ((stores.exec (writeObject P s now ref src) fs ⟨w, []⟩).1 = none →
      Undone w (objectPath P s ref) (stores.exec (writeObject P s now ref src) fs ⟨w, []⟩).2.world) ↔
    Undoable w (objectPath P s ref) src.bytes
      (stores.exec (writeObject P s now ref src) fs ⟨w, []⟩).2.events := by
  have h : Underway w (objectPath P s ref) [] ⟨w, []⟩ := ⟨rfl, rfl, rfl, rfl⟩
  suffices hends : stores.recording.Ensures (fun y x' => (y = none → Undone w (objectPath P s ref)
      x'.world) ↔ Undoable w (objectPath P s ref) src.bytes x'.events) (writeObject P s now ref src)
      ⟨w, []⟩ from exec_of_recording hends.when fun _ _ => trivial
  refine ensures_ite stores.recording (fun _ => ?_) fun _ => ?_
  · exact (imp_iff_right rfl).trans (iff_of_true ⟨h.files, h.temps⟩ h.undoable)
  refine (fillTemp_undone h).bind fun t x₁ h₁ => ?_
  rcases t with _ | id
  · exact (imp_iff_right rfl).trans h₁
  rw [ensures_bind]
  refine records_ask_of fun f dir _ => ?_
  have h₂ : Underway w (objectPath P s ref) [id]
    (stores.advance x₁ f (.mkdirAll (objectPath P s ref))) := h₁.advance h₁.files h₁.temps rfl rfl
  refine ensures_ite stores.recording (fun _ => ?_) fun _ => h₂.commits
  exact cleanupTemp_undone (fun _ hx => (imp_iff_right rfl).trans hx) h₂

/-- In strict mode, where the sync of the directory fails, a write returns an error and has replaced the
file. -/
theorem failed_write_replaces : let s : Store := ⟨str "o", str "m", .strict⟩
    let ref : ObjectRef := ⟨str "b", str "k", []⟩
    let w : World := { disk := { files := fun _ => some (str "old") } }
    let y := stores.exec (writeObject digestPlatform s default ref ⟨str "new", false⟩)
      (.replicate 6 .ok ++ [.refused]) ⟨w, []⟩
    y.1 = none ∧ y.2.world.disk.files (objectPath digestPlatform s ref) = some (str "new") := by
  decide +kernel

end Undoing

end Blob

end S000
