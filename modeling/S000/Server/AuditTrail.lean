import S000.Server.Declared
import S000.Store.Effects

/-!
# Server/AuditTrail — which deletions leave a trace

`handleDeleteObject` emits an event `object.delete` on each of its branches.  Where the rows of the key
have changed, the event says `allow`, unless the store removed rows and then could not save
(`deletion_traced_iff`).  `handleDeleteObjects` has the same effect on the store for each of its entries
and emits nothing.
-/

namespace S000

open Strings Metadata Blob Machine List Prog

/-! ## Effects and events -/

def Visible (w : World) (b k : Bytes) : Prop :=
  ∃ v, (w.metadata.versions b k).getLast? = some v ∧ v.deleteMarker = false

/-- **A key is affected**: one of its versions is gone, or it is visible no more. -/
def Affected (w w' : World) (b k : Bytes) : Prop :=
  (∃ v ∈ w.metadata.versions b k, v ∉ w'.metadata.versions b k) ∨ Visible w b k ∧ ¬ Visible w' b k

def recordsDeletion (b k : Bytes) (e : CallEvent) : Bool :=
  match e.op with
  | .audit event => event.action = "object.delete" ∧ event.outcome = "allow" ∧ event.bucket = b ∧
      event.key = k
  | _ => false

/-- **A deletion has left its trace.** -/
def Traced (b k : Bytes) (es : List CallEvent) : Prop := ∃ e ∈ es, recordsDeletion b k e = true

/-- Rows were deleted, but the store could not save that. -/
def unsavedDeletion (e : CallEvent) : Bool :=
  match e.op with
  | .deleteObjectVersion .. | .deleteAllObjectVersions .. => e.fault = .unsaved
  | _ => false

def AllSaved (es : List CallEvent) : Prop := ∀ e ∈ es, unsavedDeletion e = false

instance (b k : Bytes) (es : List CallEvent) : Decidable (Traced b k es) := by
  unfold Traced
  infer_instance

instance (es : List CallEvent) : Decidable (AllSaved es) := by
  unfold AllSaved
  infer_instance

variable {a : S3API} {w : World} {c : Ctx} {r : Request} {bucket key b k : Bytes}
  {x : Run calls Fault World} {o : Call} {f : Fault} {P : Prop}

theorem Affected.ne {w' : World} (h : Affected w w' b k) :
    w'.metadata.versions b k ≠ w.metadata.versions b k := by
  intro heq
  rcases h with ⟨v, hv, hv'⟩ | ⟨hvisible, hgone⟩
  · rw [heq] at hv'
    exact hv' hv
  · unfold Visible at hvisible hgone
    rw [heq] at hgone
    exact hgone hvisible

theorem traced_concat {es : List CallEvent} {e : CallEvent} :
    Traced b k (es ++ [e]) ↔ Traced b k es ∨ recordsDeletion b k e = true := by
  simp [Traced]

theorem allSaved_concat {es : List CallEvent} {e : CallEvent} :
    AllSaved (es ++ [e]) ↔ AllSaved es ∧ unsavedDeletion e = false := by
  simp [AllSaved, or_imp, forall_and]

/-! ## One deletion -/

/-- Before the event of a deletion: only the rows of the key have changed, and where they have, `P` says
whether that is saved. -/
structure Pending (w : World) (bucket key : Bytes) (P : Prop) (x : Run calls Fault World) : Prop where
  others : ∀ b k, x.world.metadata.versions b k ≠ w.metadata.versions b k → b = bucket ∧ k = key
  untraced : ¬ Traced bucket key x.events
  saved : x.world.metadata.versions bucket key ≠ w.metadata.versions bucket key →
    (AllSaved x.events ↔ P)

def Settled (w : World) (bucket key : Bytes) (x : Run calls Fault World) : Prop :=
  ∀ b k, x.world.metadata.versions b k ≠ w.metadata.versions b k →
    (b = bucket ∧ k = key) ∧ (Traced bucket key x.events ↔ AllSaved x.events)

/-- Nothing has happened that would have to be traced. -/
structure Resting (w : World) (bucket key : Bytes) (x : Run calls Fault World) : Prop where
  rows : ∀ b k, x.world.metadata.versions b k = w.metadata.versions b k
  untraced : ¬ Traced bucket key x.events
  saved : AllSaved x.events

theorem Pending.congr {P' : Prop} (h : Pending w bucket key P x) (hP : P ↔ P') :
    Pending w bucket key P' x :=
  ⟨h.others, h.untraced, fun hne => (h.saved hne).trans hP⟩

theorem Resting.pending (h : Resting w bucket key x) : Pending w bucket key P x :=
  ⟨fun b k hne => absurd (h.rows b k) hne, h.untraced, fun hne => absurd (h.rows bucket key) hne⟩

theorem Resting.settled (h : Resting w bucket key x) : Settled w bucket key x :=
  fun b k hne => absurd (h.rows b k) hne

/-- The calls that change no row and are no events. -/
def Call.Discreet : Call → Prop
  | getBucket _ | getObjectVersion .. | remove _ => True
  | _ => False

theorem Call.Discreet.versions (ho : o.Discreet) (w : World) (f : Fault) (b k : Bytes) :
    (step w f o).2.metadata.versions b k = w.metadata.versions b k := by
  cases o with
  | getBucket | getObjectVersion => rfl
  | remove path => exact congrArg (fun st => st.versions b k) (metadata_changing w f true _)
  | _ => exact ho.elim

theorem Call.Discreet.untraced (ho : o.Discreet) {v : o.Val} :
    recordsDeletion b k ⟨o, f, v⟩ = false := by
  cases o with
  | getBucket | getObjectVersion | remove => rfl
  | _ => exact ho.elim

theorem Call.Discreet.saved (ho : o.Discreet) {v : o.Val} : unsavedDeletion ⟨o, f, v⟩ = false := by
  cases o with
  | getBucket | getObjectVersion | remove => rfl
  | _ => exact ho.elim

theorem Resting.advance (h : Resting w bucket key x) (ho : o.Discreet) :
    Resting w bucket key (stores.advance x f o) := by
  refine ⟨fun b k => (ho.versions x.world f b k).trans (h.rows b k), ?_, ?_⟩
  · rw [Machine.advance, traced_concat, ho.untraced]
    simpa using h.untraced
  · exact allSaved_concat.2 ⟨h.saved, ho.saved⟩

theorem Pending.advance (h : Pending w bucket key P x) (ho : o.Discreet) :
    Pending w bucket key P (stores.advance x f o) := by
  refine ⟨fun b k hne => h.others b k ?_, ?_, fun hne => ?_⟩
  · rwa [← ho.versions x.world f b k]
  · rw [Machine.advance, traced_concat, ho.untraced]
    simpa using h.untraced
  · rw [Machine.advance, allSaved_concat, and_iff_left ho.saved]
    exact h.saved (by rwa [← ho.versions x.world f bucket key])

variable {α : Type}

theorem Pending.discreet {p : Act α} {Q : α → Prop}
    (hp : p.Only (fun _ _ => True) Call.Discreet Q) (h : Pending w bucket key P x) :
    stores.recording.Ensures (fun y x' => Q y ∧ Pending w bucket key P x') p x :=
  ensures_of_only (fun _ _ _ hx ho => ⟨trivial, hx.advance ho⟩) hp h

theorem Resting.discreet {p : Act α} {Q : α → Prop}
    (hp : p.Only (fun _ _ => True) Call.Discreet Q) (h : Resting w bucket key x) :
    stores.recording.Ensures (fun y x' => Q y ∧ Resting w bucket key x') p x :=
  ensures_of_only (fun _ _ _ hx ho => ⟨trivial, hx.advance ho⟩) hp h

theorem versionLocked_reads {G : Call → Prop} {versionID : Bytes}
    (hG : G (.getObjectVersion bucket key versionID)) :
    (versionLocked c bucket key versionID).Only (fun _ _ => True) G fun _ => True := by
  refine ⟨hG, fun v _ => ?_⟩
  rcases v with e | existing <;> trivial

/-- **The event**: it says `allow` where what has changed is saved. -/
theorem Pending.audit (haudit : a.auditEnabled = true) {outcome reason : String} {reply : Reply}
    (h : Pending w bucket key (outcome = "allow") x) :
    stores.recording.Ensures (fun _ x' => Settled w bucket key x')
      (emitAudit a r "object.delete" outcome bucket key reason >>= fun _ => pure reply) x := by
  rw [ensures_bind]
  refine ensures_ite stores.recording (fun _ => ?_) fun hn => absurd haudit hn
  intro f b k hne
  obtain ⟨rfl, rfl⟩ := h.others b k hne
  refine ⟨⟨rfl, rfl⟩, ?_⟩
  change Traced b k (x.events ++ [_]) ↔ AllSaved (x.events ++ [_])
  rw [traced_concat, allSaved_concat, or_iff_right h.untraced, h.saved hne]
  simp [recordsDeletion, unsavedDeletion]

theorem deleteObjectVersion_of_error {st : MemoryState} {versionID : Bytes} {e : Error}
    (h : (st.deleteObjectVersion bucket key versionID).1 = .error e) :
    (st.deleteObjectVersion bucket key versionID).2 = st := by
  unfold MemoryState.deleteObjectVersion at h ⊢
  dsimp only at h ⊢
  split at h
  next hnone => rfl
  next => split_ifs at h

theorem versions_of_ne_key (hkey : ¬ (b = bucket ∧ k = key))
    (ho : (∃ versionID, o = .deleteObjectVersion bucket key versionID) ∨
      o = .deleteAllObjectVersions bucket key ∨ ∃ v, o = .putObjectVersion v ∧ v.bucket = bucket ∧
        v.key = key) :
    (step x.world f o).2.metadata.versions b k = x.world.metadata.versions b k := by
  have hchange := rowChange_step x.world f o b k
  generalize (step x.world f o).2.metadata.versions b k = l' at hchange
  rcases ho with ⟨versionID, rfl⟩ | rfl | ⟨v, rfl, rfl, rfl⟩
  · cases hchange with
    | same => rfl
    | remove => exact absurd ⟨rfl, rfl⟩ hkey
  · cases hchange with
    | same => rfl
    | clear => exact absurd ⟨rfl, rfl⟩ hkey
  · cases hchange with
    | same => rfl
    | drop hb hk => exact absurd ⟨hb.symm, hk.symm⟩ hkey
    | put hb hk => exact absurd ⟨hb.symm, hk.symm⟩ hkey

/-- **The call that changes the rows.** -/
theorem Resting.change (h : Resting w bucket key x)
    (hkey : ∀ b k, ¬ (b = bucket ∧ k = key) →
      (step x.world f o).2.metadata.versions b k = x.world.metadata.versions b k)
    (hevent : recordsDeletion bucket key ⟨o, f, (step x.world f o).1⟩ = false)
    (hsaved : (step x.world f o).2.metadata.versions bucket key ≠ x.world.metadata.versions bucket key →
      (unsavedDeletion ⟨o, f, (step x.world f o).1⟩ = false ↔ P)) :
    Pending w bucket key P (stores.advance x f o) := by
  refine ⟨fun b k hne => ?_, ?_, fun hne => ?_⟩
  · by_contra hn
    exact hne ((hkey b k hn).trans (h.rows b k))
  · rw [Machine.advance, traced_concat]
    rintro (htraced | hevent')
    · exact h.untraced htraced
    · exact Bool.false_ne_true (hevent.symm.trans hevent')
  · rw [Machine.advance, allSaved_concat, and_iff_right h.saved]
    exact hsaved (by rwa [h.rows bucket key])

theorem fault_of_writing {y : Except Error α × MemoryState} {v : α}
    (h : (writing w f y).1 = .ok v) : f = .ok := by
  cases f with
  | ok => rfl
  | refused | broken => cases h
  | unsaved =>
    rw [writing] at h
    cases hy : y.1 <;> rw [hy] at h <;> cases h

/-- **A deletion of one version**, by what it reports. -/
theorem Resting.deleteObjectVersion (h : Resting w bucket key x) (versionID : Bytes) :
    (∀ e, (step x.world f (.deleteObjectVersion bucket key versionID)).1 = .error e → Pending w bucket
        key (e = .notFound) (stores.advance x f (.deleteObjectVersion bucket key versionID))) ∧
      ∀ v, (step x.world f (.deleteObjectVersion bucket key versionID)).1 = .ok v → Pending w bucket
        key True (stores.advance x f (.deleteObjectVersion bucket key versionID)) := by
  have hkey {b k : Bytes} (hn : ¬ (b = bucket ∧ k = key)) := versions_of_ne_key (x := x) (f := f) hn
    (.inl ⟨versionID, rfl⟩)
  refine ⟨fun e he => h.change (fun _ _ => hkey) rfl fun hne => ?_, fun v hv =>
    h.change (fun _ _ => hkey) rfl fun _ => ?_⟩
  · cases hd : (x.world.metadata.deleteObjectVersion bucket key versionID).1 with
    | error e' =>
      -- there was no such row
      refine absurd ?_ hne
      rcases writing_cases x.world f (x.world.metadata.deleteObjectVersion bucket key versionID) with
        hw | hw
      · exact congrArg (fun w : World => w.metadata.versions bucket key) hw
      · refine (congrArg (fun w : World => w.metadata.versions bucket key) hw).trans ?_
        rw [deleteObjectVersion_of_error hd]
    | ok v =>
      change (writing x.world f (x.world.metadata.deleteObjectVersion bucket key versionID)).1 =
        .error e at he
      cases f with
      | ok =>
        rw [writing, hd] at he
        cases he
      | unsaved =>
        rw [writing, hd] at he
        cases he
        simp [unsavedDeletion]
      | refused | broken => exact absurd rfl hne
  · obtain rfl := fault_of_writing hv
    simp [unsavedDeletion]

theorem unsaved_of_deletingAll (h : (deletingAll w bucket key f).2.metadata.versions bucket key ≠
      w.metadata.versions bucket key) :
    f ≠ .unsaved ↔ ¬ ((deletingAll w bucket key f).1.2 ≠ none ∧
      (deletingAll w bucket key f).1.2 ≠ some .notFound) := by
  unfold deletingAll at h ⊢
  dsimp only at h ⊢
  cases hd : (w.metadata.deleteAllObjectVersions bucket key).1 with
  | error e =>
    rw [hd] at h
    cases f <;> exact absurd rfl h
  | ok removed =>
    rw [hd] at h
    cases f with
    | ok | unsaved => simp
    | refused | broken => exact absurd rfl h

/-- **A deletion of all versions**, by what it reports. -/
theorem Resting.deleteAllObjectVersions (h : Resting w bucket key x) : Pending w bucket key
    (¬ ((deletingAll x.world bucket key f).1.2 ≠ none ∧
      (deletingAll x.world bucket key f).1.2 ≠ some .notFound))
    (stores.advance x f (.deleteAllObjectVersions bucket key)) := by
  refine h.change (fun _ _ hn => versions_of_ne_key hn (.inr (.inl rfl))) rfl fun hne => ?_
  rw [← unsaved_of_deletingAll hne]
  simp [unsavedDeletion]

/-- **Every branch of a deletion settles.** -/
theorem handleDeleteObject_settles (haudit : a.auditEnabled = true) (h : Resting w bucket key x) :
    stores.recording.Ensures (fun _ x' => Settled w bucket key x')
      (handleDeleteObject a c r bucket key) x := by
  simp only [handleDeleteObject, ensures_bind]
  refine records_ask_of fun f (v : Except Error Bucket) _ => ?_
  have h₁ : Resting w bucket key (stores.advance x f (.getBucket bucket)) := h.advance trivial
  generalize stores.advance x f (.getBucket bucket) = x₁ at h₁ ⊢
  rcases v with _ | b
  · exact h₁.pending.audit haudit
  refine ensures_ite stores.recording (fun _ => ?_) fun _ =>
    ensures_ite stores.recording (fun _ => ?_) fun _ => ?_
  · refine (h₁.discreet (versionLocked_reads trivial)).bind fun locked x₂ h₂ => ?_
    refine ensures_ite stores.recording (fun _ => h₂.2.pending.audit haudit) fun _ => ?_
    simp only [ensures_bind]
    refine records_ask_of fun f v hv => ?_
    obtain ⟨herror, hok⟩ := h₂.2.deleteObjectVersion (r.query.get (str "versionId"))
    rcases v with e | removed
    · have hpending := herror e hv
      cases e with
      | notFound => exact Pending.audit haudit (hpending.congr (by simp))
      | _ => exact Pending.audit haudit (hpending.congr (by simp))
    · have hpending : Pending w bucket key ("allow" = "allow") (stores.advance x₂ f _) :=
        (hok removed hv).congr (by simp)
      refine ensures_ite stores.recording (fun _ => ?_) fun _ => hpending.audit haudit
      exact records_ask_of fun f _ _ => Pending.audit haudit (hpending.advance (o := .remove _) trivial)
  · rw [ensures_bind]
    refine records_ask_of fun f v _ => ?_
    refine Pending.audit haudit (h₁.change (fun _ _ hn => versions_of_ne_key hn
      (.inr (.inr ⟨_, rfl, rfl, rfl⟩))) rfl fun _ => ?_)
    exact iff_of_true rfl rfl
  · refine (h₁.discreet (versionLocked_reads trivial)).bind fun locked x₂ h₂ => ?_
    refine ensures_ite stores.recording (fun _ => h₂.2.pending.audit haudit) fun _ => ?_
    simp only [ensures_bind]
    refine records_ask_of fun f v hv => ?_
    obtain rfl : (deletingAll x₂.world bucket key f).1 = v := hv
    have hpending := h₂.2.deleteAllObjectVersions (f := f)
    refine ensures_ite stores.recording (fun herr => ?_) fun herr => ?_
    · exact Pending.audit haudit (hpending.congr (by simp [herr]))
    simp only [ensures_bind]
    have hallow : Pending w bucket key ("allow" = "allow") (stores.advance x₂ f _) :=
      hpending.congr (iff_of_true herr rfl)
    exact (hallow.discreet (deleteBlobs_only fun _ _ => trivial)).mono fun _ x₃ h₃ =>
      h₃.2.audit haudit

/-! ## Many deletions -/

def Call.Mute : Call → Prop
  | audit _ => False
  | _ => True

theorem deleteEntry_mute {bkt : Bucket} {i : ℕ} {e : DeleteEntry} :
    (deleteEntry a c bucket bkt i e).Only (fun _ _ => True) Call.Mute fun _ => True := by
  refine only_unless fun _ => only_ite (fun _ => ?_) fun _ => ?_
  · refine ⟨trivial, fun v _ => ?_⟩
    rcases v with _ | _ <;> trivial
  refine (versionLocked_reads trivial).bind fun locked _ => ?_
  refine only_unless fun _ => ?_
  refine ⟨trivial, fun v _ => ?_⟩
  obtain ⟨removed, err⟩ := v
  exact (deleteBlobs_only fun _ _ => trivial).bind fun _ _ => trivial

theorem deleteEntries_mute {bkt : Bucket} {quiet : Bool} : ∀ {entries : List DeleteEntry} {i : ℕ},
    (deleteEntries a c bucket bkt quiet i entries).Only (fun _ _ => True) Call.Mute fun _ => True
  | [], _ => trivial
  | e :: entries, i => by
    simp only [deleteEntries, only_bind]
    refine deleteEntry_mute.mono fun err _ => deleteEntries_mute.mono fun rest _ => ?_
    rcases err with _ | err <;> trivial

/-- **A multi-object deletion emits no event at all.** -/
theorem handleDeleteObjects_mute {doc : Option DeleteDocument} :
    (handleDeleteObjects a c bucket doc).Only (fun _ _ => True) Call.Mute fun _ => True := by
  refine ⟨trivial, fun v _ => ?_⟩
  rcases v with _ | bkt
  · trivial
  rcases doc with _ | doc
  · trivial
  exact deleteEntries_mute.bind fun _ _ => trivial

/-! ## Requests -/

/-- The requests that delete objects: one, -/
def S3Request.deletesObject : S3Request → Bool
  | deleteObject .. => true
  | _ => false

/-- …or many. -/
def S3Request.deletesObjects : S3Request → Bool
  | deleteObjects .. => true
  | _ => false

theorem untraced_of_mute {s : Step}
    (h : (handle a s.ctx s.request).Only (fun _ _ => True) Call.Mute fun _ => True) :
    ¬ Traced b k (respond a w s).2.events := by
  have hmute : ∀ e ∈ (respond a w s).2.events, e.op.Mute :=
    (respond_of_only (fun _ _ => True) (fun x => ∀ e ∈ x.events, e.op.Mute)
      (fun x f o hx ho _ => ⟨trivial, fun e he => by
        rcases mem_append.1 he with he | he
        · exact hx e he
        · rw [mem_singleton.1 he]
          exact ho⟩) h nofun (allowed_of_mem fun _ _ => trivial)).2
  rintro ⟨⟨o, f, v⟩, he, hrecords⟩
  have hop := hmute _ he
  cases o with
  | audit event => exact hop
  | _ => cases hrecords

theorem deleteObject_settles (haudit : a.auditEnabled = true) :
    stores.recording.Ensures (fun _ => Settled w bucket key)
      (handle a c (.deleteObject r bucket key)) ⟨w, []⟩ := by
  have hstart : Resting w bucket key ⟨w, []⟩ := ⟨fun _ _ => rfl, fun ⟨_, he, _⟩ => (by cases he), nofun⟩
  simp only [handle, inBucket, ensures_bind]
  refine records_ask_of fun f v _ => ?_
  have hrest : Resting w bucket key (stores.advance ⟨w, []⟩ f (.getBucket bucket)) :=
    hstart.advance trivial
  rcases v with _ | _
  · exact hrest.settled
  · exact handleDeleteObject_settles haudit hrest

/-- **Which deletions leave a trace.**  Auditing enabled, in every world and whatever fails: where a
request that deletes objects has affected a key, there is an event `object.delete` with the outcome
`allow` that names it if and only if the request deletes a single object and the store did not fail to
save the deletion. -/
theorem deletion_traced_iff {s : Step} (haudit : a.auditEnabled = true)
    (hdeletes : s.request.deletesObject = true ∨ s.request.deletesObjects = true)
    (haffected : Affected w (after a w s) b k) :
    Traced b k (respond a w s).2.events ↔
      s.request.deletesObject = true ∧ AllSaved (respond a w s).2.events := by
  obtain ⟨request, c, faults⟩ := s
  cases request with
  | deleteObject r bucket key =>
    have hsettled : Settled w bucket key (respond a w ⟨.deleteObject r bucket key, c, faults⟩).2 :=
      exec_of_recording
        (Ensures.when (deleteObject_settles haudit)) fun _ _ => trivial
    obtain ⟨⟨rfl, rfl⟩, hiff⟩ := hsettled b k haffected.ne
    rw [hiff]
    exact (and_iff_right rfl).symm
  | deleteObjects bucket doc =>
    refine iff_of_false (untraced_of_mute handleDeleteObjects_mute) fun h => ?_
    cases h.1
  | _ => rcases hdeletes with h | h <;> cases h

/-! ### Samples -/

def auditingAPI : S3API := { sampleAPI with auditEnabled := true }

def storedOnce : World :=
  afterAll auditingAPI {} [⟨.createBucket (str "b"), sampleCtx 1, []⟩,
    ⟨.putObject objectRequest (str "b") (str "k") ⟨str "hi", false⟩, sampleCtx 2, []⟩]

/-- The object is deleted alone, -/
def deleteOne : Step := ⟨.deleteObject objectRequest (str "b") (str "k"), sampleCtx 3, []⟩

/-- …or as the only one of many. -/
def deleteMany : Step :=
  ⟨.deleteObjects (str "b") (some { objects := [{ key := str "k" }] }), sampleCtx 3, []⟩

theorem affected_of_cleared {w' : World} (h : (w'.metadata.versions b k).isEmpty = true)
    (hne : (w.metadata.versions b k).isEmpty = false) : Affected w w' b k := by
  rw [List.isEmpty_iff] at h
  cases hrows : w.metadata.versions b k with
  | nil =>
    rw [hrows] at hne
    cases hne
  | cons v rest =>
    refine .inl ⟨v, hrows ▸ mem_cons_self, ?_⟩
    rw [h]
    exact not_mem_nil

/-- The single deletion is traced. -/
theorem deletion_traced_iff_one :
    Affected storedOnce (after auditingAPI storedOnce deleteOne) (str "b") (str "k") ∧
      Traced (str "b") (str "k") (respond auditingAPI storedOnce deleteOne).2.events := by
  have hgone : Affected storedOnce (after auditingAPI storedOnce deleteOne) (str "b") (str "k") :=
    affected_of_cleared (by decide +kernel) (by decide +kernel)
  exact ⟨hgone, (deletion_traced_iff rfl (.inl rfl) hgone).2 (by decide +kernel)⟩

/-- **A multi-object deletion removes an object and leaves no event**, though auditing is enabled and
nothing fails. -/
theorem deleteMany_untraced :
    auditingAPI.auditEnabled = true ∧ (respond auditingAPI storedOnce deleteMany).1.accepted = true ∧
      Affected storedOnce (after auditingAPI storedOnce deleteMany) (str "b") (str "k") ∧
      ¬ Traced (str "b") (str "k") (respond auditingAPI storedOnce deleteMany).2.events :=
  ⟨rfl, by decide +kernel, affected_of_cleared (by decide +kernel) (by decide +kernel),
    by decide +kernel⟩

end S000
