import S000.Server.Calls
import S000.Store.Effects

/-!
# Server/WellFormed — the invariant of the object table

In every world that a history leads to, whatever went wrong on the way, the rows of a key carry its
bucket and key, have distinct and non-empty ids, and the row of an object says where `ObjectPath` puts
it.  What the history has to provide is that the ids drawn for new versions are fresh (`FreshIDs`).
-/

namespace S000

open Metadata Blob List

structure RowOk (a : S3API) (v : ObjectVersion) : Prop where
  named : v.versionID ≠ []
  stored : v.deleteMarker = false → v.storagePath = a.path (blobRef v)

structure RowsOk (a : S3API) (b k : Bytes) (l : List ObjectVersion) : Prop where
  keyed : ∀ v ∈ l, v.bucket = b ∧ v.key = k
  distinct : (l.map ObjectVersion.versionID).Nodup
  rows : ∀ v ∈ l, RowOk a v

/-- The rows of a key, as far as their ids tell them apart. -/
structure Identified (b k : Bytes) (l : List ObjectVersion) : Prop where
  keyed : ∀ v ∈ l, v.bucket = b ∧ v.key = k
  distinct : (l.map ObjectVersion.versionID).Nodup
  named : ∀ v ∈ l, v.versionID ≠ []

/-- **The invariant.** -/
def WellFormed (a : S3API) (w : World) : Prop :=
  ∀ b k, RowsOk a b k (w.metadata.versions b k)

def Call.row? : Call → Option ObjectVersion
  | putObjectVersion v => some v
  | _ => none

variable {v v' r row : ObjectVersion}

theorem Call.eq_of_row? {o : Call} (h : v ∈ o.row?) : o = .putObjectVersion v := by
  cases o with
  | putObjectVersion v' => rw [Option.mem_some.1 h]
  | _ => cases h

/-- A put of a new id finds it unused. -/
def FreshPut (w : World) (e : Event calls Fault) : Prop :=
  ∀ v, e.op = .putObjectVersion v → v.versionID = nullVersion ∨
    v.versionID ∉ (w.metadata.versions v.bucket v.key).map ObjectVersion.versionID

instance (w : World) (e : Event calls Fault) : Decidable (FreshPut w e) :=
  decidable_of_iff (∀ v ∈ e.op.row?, v.versionID = nullVersion ∨
      v.versionID ∉ (w.metadata.versions v.bucket v.key).map ObjectVersion.versionID)
    ⟨fun h v hv => h v (by rw [hv]; rfl), fun h v hv => h v (Call.eq_of_row? hv)⟩

/-- The ids that a step draws are fresh: they are not in use in its bucket, and none is used twice. -/
structure FreshIDs (a : S3API) (w : World) (s : Step) : Prop where
  unused : ∀ k i, newVersionID s.ctx i ∉
    (w.metadata.versions s.request.bucket k).map ObjectVersion.versionID
  once : stores.Allowed FreshPut w (respond a w s).2.events

variable {a : S3API} {b k : Bytes} {l l' : List ObjectVersion} {o : Call}

theorem RowsOk.blobRef_eq (h : RowsOk a b k l) (hv : v ∈ l) : blobRef v = ⟨b, k, v.versionID⟩ := by
  obtain ⟨rfl, rfl⟩ := h.keyed v hv
  rfl

theorem RowOk.versionID_eq (hsha : Function.Injective a.platform.sha256) (h : RowOk a v)
    (h' : RowOk a v') (hmarker : v.deleteMarker = false) (hmarker' : v'.deleteMarker = false)
    (hpath : v.storagePath = v'.storagePath) :
    v.versionID = v'.versionID := by
  rw [h.stored hmarker, h'.stored hmarker'] at hpath
  obtain ⟨-, hversion⟩ := objectPath_inj hsha hpath
  rwa [ObjectRef.version_eq h.named, ObjectRef.version_eq h'.named] at hversion

theorem RowsOk.identified (h : RowsOk a b k l) : Identified b k l :=
  ⟨h.keyed, h.distinct, fun v hv => (h.rows v hv).named⟩

theorem Identified.getObjectVersion {st : MemoryState} (h : Identified b k (st.versions b k))
    (hr : r ∈ st.versions b k) :
    st.getObjectVersion b k r.versionID = .ok r := by
  have hfind : ((st.versions b k).find? fun v => v.versionID = r.versionID) = some r :=
    Versions.find_of_mem h.distinct hr
  rw [MemoryState.getObjectVersion, if_neg (h.named r hr), hfind]

theorem RowsOk.getObjectVersion {st : MemoryState} (h : RowsOk a b k (st.versions b k))
    (hr : r ∈ st.versions b k) :
    st.getObjectVersion b k r.versionID = .ok r :=
  h.identified.getObjectVersion hr

/-! ## One call -/

theorem RowOk.of_strip (h : stripMetadata v = stripMetadata v') (hv : RowOk a v) : RowOk a v' := by
  simp only [stripMetadata, ObjectVersion.mk.injEq] at h
  obtain ⟨hb, hk, hid, -, -, -, -, -, -, hpath, -, hmarker, -⟩ := h
  refine ⟨hid ▸ hv.named, fun hm => ?_⟩
  rw [← hpath, hv.stored (hmarker.trans hm), blobRef, blobRef, hb, hk, hid]

/-- **What a call does to rows that their ids tell apart.** -/
theorem Identified.change (hl : Identified b k l) (h : RowChange b k o l l')
    (hnamed : ∀ v, o = .putObjectVersion v → v.versionID ≠ [])
    (hfresh : ∀ v, o = .putObjectVersion v → v.bucket = b → v.key = k →
      v.versionID = nullVersion ∨ v.versionID ∉ l.map ObjectVersion.versionID) :
    Identified b k l' := by
  refine ⟨fun v hv => ?_, ?_, fun v hv => ?_⟩
  · rcases h.origin hv with ⟨v₀, hv₀, hs⟩ | ⟨-, hb, hk⟩
    · simp only [stripMetadata, ObjectVersion.mk.injEq] at hs
      exact hs.1 ▸ hs.2.1 ▸ hl.keyed v₀ hv₀
    · exact ⟨hb, hk⟩
  · cases h with
    | same => exact hl.distinct
    | drop => exact hl.distinct.sublist (filter_sublist.map _)
    | @put v _ hb hk => exact Versions.nodup_put hl.distinct (hfresh v rfl hb hk)
    | remove => exact hl.distinct.sublist (eraseP_sublist.map _)
    | clear => exact nodup_nil
    | update h =>
      have hids : l'.map ObjectVersion.versionID = l.map ObjectVersion.versionID := by
        simpa [Function.comp_def, stripMetadata] using congrArg (map ObjectVersion.versionID) h
      exact hids ▸ hl.distinct
  · rcases h.origin hv with ⟨v₀, hv₀, hs⟩ | ⟨ho, -⟩
    · simp only [stripMetadata, ObjectVersion.mk.injEq] at hs
      exact hs.2.2.1 ▸ hl.named v₀ hv₀
    · exact hnamed v ho

/-- **What a call does to good rows.** -/
theorem RowsOk.change (hl : RowsOk a b k l) (h : RowChange b k o l l')
    (hput : ∀ v, o = .putObjectVersion v → RowOk a v)
    (hfresh : ∀ v, o = .putObjectVersion v → v.bucket = b → v.key = k →
      v.versionID = nullVersion ∨ v.versionID ∉ l.map ObjectVersion.versionID) :
    RowsOk a b k l' := by
  have hids := hl.identified.change h (fun v hv => (hput v hv).named) hfresh
  refine ⟨hids.keyed, hids.distinct, fun v hv => ?_⟩
  rcases h.origin hv with ⟨v₀, hv₀, hs⟩ | ⟨ho, -⟩
  · exact (hl.rows v₀ hv₀).of_strip hs
  · exact hput v ho

/-- The rows a call puts are good. -/
def PutsOk (a : S3API) (o : Call) : Prop := ∀ v, o = .putObjectVersion v → RowOk a v

theorem RowOk.putsOk (hv : RowOk a v) : PutsOk a (.putObjectVersion v) := by
  rintro _ ⟨⟩
  exact hv

theorem putsOk_of_row? (ho : o.row? = none) : PutsOk a o := by
  rintro v rfl
  cases ho

theorem Call.Quiet.putsOk (ho : o.Quiet) : PutsOk a o := by
  rintro v rfl
  exact ho.elim

variable {w : World}

theorem WellFormed.step {f : Fault} (hw : WellFormed a w) (ho : PutsOk a o)
    (hfresh : FreshPut w ⟨o, f, (step w f o).1⟩) : WellFormed a (step w f o).2 := by
  intro b k
  refine (hw b k).change (rowChange_step w f o b k) ho ?_
  rintro v rfl rfl rfl
  exact hfresh v rfl

/-! ## One request -/

theorem writtenVersionID_ne_nil (c : Ctx) (b : Bucket) : writtenVersionID c b ≠ [] := by
  unfold writtenVersionID
  split_ifs
  · exact newVersionID_ne_nil c 0
  · decide

variable {A : (o : Call) → o.Val → Prop} {bucket key : Bytes} {c : Ctx}

theorem Target.rowOk (h : Target A c bucket key (blobRef row))
    (hpath : row.storagePath = a.path (blobRef row)) :
    RowOk a row := by
  obtain ⟨b, -, hid⟩ := h.versionID_eq
  refine ⟨?_, fun _ => hpath⟩
  rw [show row.versionID = writtenVersionID c b from hid]
  exact writtenVersionID_ne_nil c b

theorem Written.rowOk (h : Written a A c bucket key row) : RowOk a row := h.target.rowOk h.path_eq

theorem deleteMarker_rowOk (bucket key : Bytes) (c : Ctx) (i : ℕ) :
    RowOk a (MemoryState.deleteMarker bucket key (newVersionID c i) c.now) :=
  ⟨newVersionID_ne_nil c i, nofun⟩

theorem writeGuard_putsOk : WriteGuard a A (PutsOk a) c bucket key where
  remove _ _ _ := putsOk_of_row? rfl
  rename _ _ _ _ := putsOk_of_row? rfl
  put _ hrow := hrow.rowOk.putsOk

theorem deleteAllGuard_putsOk {strict : Prop} {versionID : Bytes} :
    DeleteAllGuard a A (PutsOk a) c bucket strict key versionID :=
  ⟨fun _ => putsOk_of_row? rfl, fun _ _ _ _ _ _ _ => putsOk_of_row? rfl⟩

theorem Call.Mild.row?_eq_none {locks : Bool} {o : Call} (h : o.Mild locks) : o.row? = none := by
  cases o with
  | putObjectVersion => exact h.elim
  | _ => rfl

/-- **Every request puts good rows only.** -/
theorem handle_putsOk (c : Ctx) (request : S3Request) :
    (handle a c request).Only (fun _ _ => True) (PutsOk a) fun _ => True := by
  have hq : ∀ o, Call.Idle o → PutsOk a o := fun o ho => ho.quiet.putsOk
  cases request with
  | deleteObjects =>
    exact handleDeleteObjects_only hq (fun _ _ _ key i => (deleteMarker_rowOk _ key c i).putsOk)
      fun _ _ _ _ _ _ _ => deleteAllGuard_putsOk
  | putObject => exact inBucket_only hq (handlePutObject_only hq writeGuard_putsOk)
  | copyObject => exact inBucket_only hq (handleCopyObject_only hq writeGuard_putsOk)
  | deleteObject =>
    exact inBucket_only hq (handleDeleteObject_only hq
      ⟨fun _ _ => putsOk_of_row? rfl, fun _ _ _ _ _ => putsOk_of_row? rfl⟩
      (fun _ _ _ _ => (deleteMarker_rowOk _ _ c 0).putsOk) fun _ _ _ _ => deleteAllGuard_putsOk)
  | completeMultipartUpload =>
    exact inBucket_only hq (handleCompleteMultipartUpload_only hq (putsOk_of_row? rfl)
      (putsOk_of_row? rfl) (fun _ _ _ => putsOk_of_row? rfl) writeGuard_putsOk)
  | _ => exact handle_mild c (fun _ ho => putsOk_of_row? ho.row?_eq_none) rfl

/-- **A step keeps the invariant**, whatever goes wrong. -/
theorem WellFormed.respond {s : Step} (hw : WellFormed a w)
    (honce : stores.Allowed FreshPut w (respond a w s).2.events) : WellFormed a (after a w s) :=
  (respond_of_only FreshPut (fun x => WellFormed a x.world)
    (fun _ _ _ hx ho hB => ⟨trivial, hx.step ho hB⟩) (handle_putsOk s.ctx s.request) hw honce).2

theorem WellFormed.after {s : Step} (hw : WellFormed a w) (hs : FreshIDs a w s) :
    WellFormed a (after a w s) :=
  hw.respond hs.once

theorem rowsOk_nil (b k : Bytes) : RowsOk a b k [] := ⟨nofun, nodup_nil, nofun⟩

theorem wellFormed_empty : WellFormed a {} := rowsOk_nil

instance (b k : Bytes) (l : List ObjectVersion) : Decidable (RowsOk a b k l) :=
  decidable_of_iff ((∀ v ∈ l, v.bucket = b ∧ v.key = k) ∧ (l.map ObjectVersion.versionID).Nodup ∧
      ∀ v ∈ l, v.versionID ≠ [] ∧ (v.deleteMarker = false → v.storagePath = a.path (blobRef v)))
    ⟨fun h => ⟨h.1, h.2.1, fun v hv => ⟨(h.2.2 v hv).1, (h.2.2 v hv).2⟩⟩,
      fun h => ⟨h.keyed, h.distinct, fun v hv => ⟨(h.rows v hv).named, (h.rows v hv).stored⟩⟩⟩

/-- The invariant, checked entry by entry. -/
theorem wellFormed_of_entries (h : ∀ e ∈ w.metadata.objects.entries, RowsOk a e.1.1 e.1.2 e.2) :
    WellFormed a w := by
  intro b k
  unfold MemoryState.versions
  cases hl : w.metadata.objects.lookup (b, k) with
  | none => exact rowsOk_nil b k
  | some l => exact h ⟨(b, k), l⟩ (AList.mem_lookup_iff.1 hl)

end S000
