import S000.Server.Commits
import S000.Server.LockRaces
import S000.Server.Parts

/-!
# Server/SseRaces — encryption marks among writes and lock updates

Whether an object is encrypted is written down in the metadata of its row; the blob does not tell.  A
write replaces the blob of a `null` version before its row, and a change of a lock writes back the whole
metadata that it has read.  Where the row that is put is one of the blob that is there, and the metadata
that is written back is that of the row that is there (`Steady`), every row is marked as its blob was
written once all requests have ended (`marks_of_steady`).
-/

namespace S000

open Strings Metadata Blob Machine List MemoryState Option

/-! ## What is written, and how -/

/-- The requests that write an object of the key or change a lock on it. -/
def S3Request.Marks (bucket key : Bytes) : S3Request → Prop
  | putObject _ b k _ | copyObject _ b k | completeMultipartUpload _ b k _ _
  | putRetention _ b k _ | putLegalHold _ b k _ => b = bucket ∧ k = key
  | _ => False

instance (bucket key : Bytes) (request : S3Request) : Decidable (request.Marks bucket key) := by
  apply @S3Request.casesOn (fun request => Decidable (request.Marks bucket key)) request <;> intros <;>
    dsimp only [S3Request.Marks] <;> infer_instance

/-- How the requests of a pool write. -/
def encryptsAt (w : World) (requests : List (Ctx × S3Request)) (i : ℕ) : Bool :=
  requests[i]?.any fun q => q.2.encrypts w

/-- **How the file at a path was written**: encrypted or not, by the request that put it in place last,
or before; there is no file where it was removed. -/
def writtenAs (start : Bytes → Option Bool) (encrypts : ℕ → Bool) (path : Bytes)
    (events : List (ℕ × CallEvent)) : Option Bool :=
  match lastTouch path events with
  | none => start path
  | some (i, true) => some (encrypts i)
  | some (_, false) => none

/-! ## What the requests call -/

/-- The answers about uploads: none is created. -/
def UploadKept (w : World) : (o : Call) → o.Val → Prop
  | .getMultipartUpload uploadID, v => ∀ u stored, v = .ok (u, stored) →
    w.metadata.multipart.lookup uploadID = some u
  | _, _ => True

def SteadyAnswers (w : World) (o : Call) (v : o.Val) : Prop := Sound o v ∧ UploadKept w o v

def MarkGuard (a : S3API) (w : World) (c : Ctx) (bucket key : Bytes) (request : S3Request)
    (es : List CallEvent) (o : Call) : Prop :=
  if request.setsLock then LockerGuard bucket key (Prog.Seen es) (request.lockEntry a) o
  else CommitGuard (fun x => ∃ data, x = storedBytes a c.iv (request.encrypts w) data)
    (request.encrypts w = false)
    (Committed a (SteadyAnswers w) c bucket key (request.encrypts w)) es o

variable {a : S3API} {w w₀ : World} {c : Ctx} {bucket key : Bytes} {es : List CallEvent} {o : Call}
  {f : Fault} {request : S3Request}

theorem markGuard_of_setsLock (h : request.setsLock = true) : MarkGuard a w c bucket key request es o ↔
    LockerGuard bucket key (Prog.Seen es) (request.lockEntry a) o := by
  rw [MarkGuard, if_pos h]

theorem markGuard_of_not_setsLock (h : request.setsLock = false) :
    MarkGuard a w c bucket key request es o ↔
      CommitGuard (fun x => ∃ data, x = storedBytes a c.iv (request.encrypts w) data)
        (request.encrypts w = false)
        (Committed a (SteadyAnswers w) c bucket key (request.encrypts w)) es o := by
  rw [MarkGuard, h, if_neg Bool.false_ne_true]

theorem MarkGuard.committed {v : ObjectVersion}
    (h : MarkGuard a w c bucket key request es (.putObjectVersion v)) :
    Committed a (SteadyAnswers w) c bucket key (request.encrypts w) v ∧
      debt es = some v.storagePath := by
  unfold MarkGuard at h
  split_ifs at h
  · exact (h).elim
  · exact h

theorem MarkGuard.putsOk (h : MarkGuard a w c bucket key request es o) : PutsOk a o := by
  rintro v rfl
  exact h.committed.1.target.rowOk h.committed.1.path_eq

theorem MarkGuard.shrinking (h : MarkGuard a w c bucket key request es o) : o.Shrinking := by
  cases o with
  | createMultipartUpload | upsertMultipartPart | renamePart =>
    unfold MarkGuard at h
    split_ifs at h <;> exact h
  | _ => trivial

variable {A : (o : Call) → o.Val → Prop}

theorem LockerGuard.settle {entry : Option LockEntry} (h : LockerGuard bucket key A entry o)
    (d : Option Bytes) (v : o.Val) : o.settle d v = d := by
  cases o with
  | updateObjectMetadata => rfl
  | rename | promote | remove | putObjectVersion => exact (h).elim
  | _ => rfl

theorem committed_putRow {r : Request} {body : Stream} {ref : ObjectRef}
    (h : Target A c bucket key ref) :
    Committed a A c bucket key (sseRequested r) (putRow a c r body ref) :=
  ⟨h, rfl, rfl, objectUsesSSE_of_mark rfl⟩

/-- **What a request calls**, and that it ends without a debt. -/
theorem handle_marks (h : request.Marks bucket key) :
    (handle a c request).Guarded (SteadyAnswers w) (MarkGuard a w c bucket key request)
      (fun es _ => debt es = none) [] := by
  have hsound : ∀ o v, SteadyAnswers w o v → Sound o v := fun _ _ h => h.1
  have hlocker {request : S3Request} (hsets : request.setsLock = true) (h : request.OnKey bucket key) :
      (handle a c request).Guarded (SteadyAnswers w) (MarkGuard a w c bucket key request)
        (fun es _ => debt es = none) [] := by
    have hguarded : (handle a c request).Guarded (fun _ _ => True)
        (fun es : List CallEvent => RequestGuard a c bucket key (Prog.Seen es) request)
        (fun es : List CallEvent => RequestResult a bucket key (Prog.Seen es) request) [] :=
      Prog.guarded_of_only fun _ _ => handle_guarded h
    refine ((hguarded.keeping (K := fun es => debt es = none) (fun es o f v hes ho _ => ?_)
      rfl).weaken (fun _ _ _ => trivial) fun es o h => ?_).mono fun es _ h => h.1
    · rw [RequestGuard, if_pos hsets] at ho
      rw [debt_concat, LockerGuard.settle ho, hes]
    · have hguard := h.2
      rw [RequestGuard, if_pos hsets] at hguard
      exact (markGuard_of_setsLock hsets).2 hguard
  cases request with
  | putRetention r b k body | putLegalHold r b k body => exact hlocker rfl h
  | putObject r b k body =>
    obtain ⟨rfl, rfl⟩ := h
    refine (inBucket_guarded rfl fun hd => handlePutObject_guarded hsound hd).weaken (fun _ _ h => h)
      fun es o h => ?_
    refine (markGuard_of_not_setsLock rfl).2
      (.mono (fun x hx => ⟨_, hx⟩) False.elim (fun row hrow => ?_) h)
    obtain ⟨ref, htarget, rfl⟩ := hrow
    exact committed_putRow htarget
  | copyObject r b k =>
    obtain ⟨rfl, rfl⟩ := h
    refine (inBucket_guarded rfl fun hd => handleCopyObject_guarded hsound hd).weaken (fun _ _ h => h)
      fun es o h => ?_
    exact (markGuard_of_not_setsLock rfl).2
      (.mono (fun _ hx => hx) False.elim (fun _ hrow => hrow) h)
  | completeMultipartUpload r b k uploadID parts =>
    obtain ⟨rfl, rfl⟩ := h
    have hupload (u : MultipartUpload) (stored : List MultipartPart)
        (hu : SteadyAnswers w (.getMultipartUpload uploadID) (.ok (u, stored))) :
        decide (u.sseAlgorithm = sseAlgorithmAES256) =
          (S3Request.completeMultipartUpload r b k uploadID parts).encrypts w := by
      rw [S3Request.encrypts, hu.2 u stored rfl]
      rfl
    exact (inBucket_guarded rfl fun hd => handleCompleteMultipartUpload_guarded hsound hupload
      hd).weaken (fun _ _ h => h) fun es o h => (markGuard_of_not_setsLock rfl).2 h
  | _ => exact h.elim

/-! ## The invariant -/

/-- The version whose metadata a call replaces. -/
def Call.updated? : Call → Option Bytes
  | updateObjectMetadata _ _ versionID _ => some versionID
  | _ => none

/-- **A call that nothing comes in the way of.** -/
@[mk_iff]
structure Steady (bucket key : Bytes) (x : Pool calls Fault World Reply) (i : ℕ) (e : CallEvent) :
    Prop where
  /-- A new id is not in use. -/
  fresh : FreshPut x.world e
  /-- Once a file is in place, the write goes on to its end. -/
  closes : e.op.closes = true → e.fault = .ok
  /-- A row is put while the file is still the one that the request has put in place. -/
  own : ∀ v ∈ e.op.row?, (lastTouch v.storagePath x.events).map Prod.fst = some i
  /-- Metadata is written back to the row that it was read from. -/
  current : ∀ versionID ∈ e.op.updated?, ∀ t ∈ sinceRead bucket key i x.events,
    ∀ v ∈ t.2.op.row?, v.versionID ≠ versionID

instance (bucket key : Bytes) (x : Pool calls Fault World Reply) (i : ℕ) (e : CallEvent) :
    Decidable (Steady bucket key x i e) := decidable_of_iff' _ (steady_iff ..)

/-- **What holds among the requests**: files and rows are as they were written, up to what a request
that is under way owes, and what has been read of a row is marked as the row is. -/
structure MarksKept (a : S3API) (bucket key : Bytes) (start : Bytes → Option Bool)
    (encrypts : ℕ → Bool) (w₀ w : World) (events : List (ℕ × CallEvent)) : Prop where
  wellFormed : WellFormed a w
  uploads : ∀ u up, w.metadata.multipart.lookup u = some up →
    w₀.metadata.multipart.lookup u = some up
  files : ∀ path content, w.disk.files path = some content → ∃ encrypted,
    writtenAs start encrypts path events = some encrypted ∧
      ∃ iv data, content = storedBytes a iv encrypted data
  marks : ∀ r ∈ w.metadata.versions bucket key, r.deleteMarker = false → ∀ encrypted,
    writtenAs start encrypts r.storagePath events = some encrypted →
      objectUsesSSE r = encrypted ∨ ∃ i, lastTouch r.storagePath events = some (i, true) ∧
        debtOf events i = some r.storagePath
  reads : ∀ i before e since, events = before ++ (i, e) :: since →
    ∀ q ∈ e.op.read? bucket key e.val, ∀ obj, q.2 = .ok obj →
      (q.1 = [] ∨ q.1 = obj.versionID) ∧
      ((∀ t ∈ since, ∀ v ∈ t.2.op.row?, v.versionID ≠ obj.versionID) →
        ∀ r ∈ w.metadata.versions bucket key, r.versionID = obj.versionID →
          objectUsesSSE r = objectUsesSSE obj)

variable {start : Bytes → Option Bool} {encrypts : ℕ → Bool} {events : List (ℕ × CallEvent)} {i : ℕ}
  {x : Pool calls Fault World Reply} {path : Bytes}

theorem writtenAs_of_touch_eq_none {e : CallEvent} (h : e.op.touch path e.val = none) :
    writtenAs start encrypts path (events ++ [(i, e)]) = writtenAs start encrypts path events := by
  rw [writtenAs, lastTouch_concat, h]
  rfl

theorem writtenAs_of_touch {e : CallEvent} {b : Bool} (h : e.op.touch path e.val = some b) :
    writtenAs start encrypts path (events ++ [(i, e)]) = if b then some (encrypts i) else none := by
  rw [writtenAs, lastTouch_concat, h]
  cases b <;> rfl

theorem LockEntry.at_sse (entry : LockEntry) (m : StrMap) :
    (entry.set m).at sseMetadataKey = m.at sseMetadataKey := by
  cases entry with
  | retention mode until_ =>
    rw [set, StrMap.at_insert_of_ne (by decide), StrMap.at_insert_of_ne (by decide)]
  | legalHold status => rw [set, StrMap.at_insert_of_ne (by decide)]

section Kept

variable (hx : MarksKept a bucket key start encrypts w₀ x.world x.events)
include hx

/-- A change of a lock goes back to the row that it has read, and leaves its mark. -/
theorem MarksKept.update {b k versionID : Bytes} {metadata : StrMap} {r : ObjectVersion}
    (ho : MarkGuard a w₀ c bucket key request (eventsOf x i)
      (.updateObjectMetadata b k versionID metadata))
    (hB : ∀ t ∈ sinceRead bucket key i x.events, ∀ v ∈ t.2.op.row?, v.versionID ≠ versionID)
    (hr : r ∈ x.world.metadata.versions bucket key) (hid : r.versionID = versionID) :
    objectUsesSSE { r with metadata } = objectUsesSSE r := by
  unfold MarkGuard at ho
  split_ifs at ho
  · obtain ⟨-, -, e, -, checked, obj, ⟨f₀, hmem⟩, hversion, rfl⟩ := ho
    obtain ⟨before, since, hsplit⟩ := append_of_mem (mem_eventsOf.1 hmem)
    have hread : Call.read? bucket key (.getObjectVersion bucket key checked) (.ok obj) =
      some (checked, .ok obj) := if_pos ⟨rfl, rfl⟩
    obtain ⟨hchecked, hsame⟩ := hx.reads i before _ since hsplit _ hread obj rfl
    have hobj : versionID = obj.versionID := by
      rw [hversion]
      split_ifs with hnil
      · rfl
      · exact hchecked.resolve_left hnil
    have hmark := hsame (fun t ht v hv => hobj ▸ hB t (mem_sinceRead hsplit
      (isSome_iff_exists.2 ⟨_, hread⟩) t ht) v hv) r hr (hid.trans hobj)
    rw [hmark]
    unfold objectUsesSSE
    rw [LockEntry.at_sse]
  · exact (ho).elim

/-- **Where a row comes from**: it has just been put, or it was there, with the same mark, and no row
with its id has been put. -/
theorem MarksKept.origin {r : ObjectVersion} (ho : MarkGuard a w₀ c bucket key request (eventsOf x i) o)
    (hB : Steady bucket key x i ⟨o, f, (step x.world f o).1⟩)
    (hr : r ∈ (step x.world f o).2.metadata.versions bucket key) :
    o = .putObjectVersion r ∨ ∃ r₀ ∈ x.world.metadata.versions bucket key,
      r₀.versionID = r.versionID ∧ r₀.storagePath = r.storagePath ∧
      r₀.deleteMarker = r.deleteMarker ∧ objectUsesSSE r₀ = objectUsesSSE r ∧
      ∀ v ∈ o.row?, v.versionID ≠ r.versionID := by
  cases o with
  | putObjectVersion v =>
    have hok : f = .ok := hB.closes rfl
    subst hok
    have hput : (step x.world .ok (.putObjectVersion v)).2.metadata.versions bucket key =
        (x.world.metadata.putObjectVersion v).versions bucket key := rfl
    rw [hput, versions_putObjectVersion] at hr
    split_ifs at hr with hkey
    · rcases Versions.mem_put.1 hr with rfl | ⟨hr, hnull⟩
      · exact .inl rfl
      refine .inr ⟨r, hr, rfl, rfl, rfl, rfl, fun v' hv' hid => ?_⟩
      cases hv'
      rcases hB.fresh v rfl with hv | hv
      · exact hnull hv (hid.symm.trans hv)
      · rw [← hkey.1, ← hkey.2, hid] at hv
        exact hv (mem_map_of_mem hr)
    · exact absurd ⟨ho.committed.1.target.bucket_eq.symm, ho.committed.1.target.key_eq.symm⟩ hkey
  | updateObjectMetadata b k versionID metadata =>
    refine .inr ?_
    by_cases hf : f.Lands
    · rw [step, writing_of_lands hf,
        versions_updateObjectMetadata_of_nodup (hx.wellFormed b k).distinct] at hr
      split_ifs at hr with hkey
      · obtain ⟨r₀, hr₀, rfl⟩ := mem_map.1 hr
        refine ⟨r₀, hr₀, ?_⟩
        split_ifs with hid
        · exact ⟨rfl, rfl, rfl, (hx.update ho (hB.current versionID rfl) hr₀ hid).symm,
            fun _ hv => by cases hv⟩
        · exact ⟨rfl, rfl, rfl, rfl, fun _ hv => by cases hv⟩
      · exact ⟨r, hr, rfl, rfl, rfl, rfl, fun _ hv => by cases hv⟩
    · rw [step, writing_of_not_lands hf] at hr
      exact ⟨r, hr, rfl, rfl, rfl, rfl, fun _ hv => by cases hv⟩
  | deleteObjectVersion | deleteAllObjectVersions =>
    unfold MarkGuard at ho
    split_ifs at ho <;> exact (ho).elim
  | _ =>
    rw [versions_of_not_altersRows rfl] at hr
    exact .inr ⟨r, hr, rfl, rfl, rfl, rfl, fun _ hv => by cases hv⟩

theorem MarksKept.answers (hB : Steady bucket key x i ⟨o, f, (step x.world f o).1⟩) :
    SteadyAnswers w₀ o (step x.world f o).1 := by
  refine ⟨sound_step hB.closes, ?_⟩
  cases o with
  | getMultipartUpload uploadID =>
    intro u stored hv
    have hget := eq_ok_of_reading hv
    rw [getMultipartUpload] at hget
    split at hget
    · cases hget
    next u' hu =>
      obtain rfl := (Prod.mk.inj (Except.ok.inj hget)).1
      exact hx.uploads uploadID u' hu
  | _ => trivial

end Kept

/-- What a request owes, it still owes after a call that does not touch the file, unless it puts the
row. -/
theorem MarkGuard.debtOf_concat (h : MarkGuard a w₀ c bucket key request (eventsOf x i) o)
    (hd : debtOf x.events i = some path) (v : o.Val) (htouch : o.touch path v = none) :
    debtOf (x.events ++ [(i, ⟨o, f, v⟩)]) i = some path ∨
      ∃ row, o = .putObjectVersion row ∧ row.storagePath = path := by
  rw [debtOf_concat_self]
  unfold MarkGuard at h
  split_ifs at h
  · exact .inl ((LockerGuard.settle h _ _).trans hd)
  · exact h.settle hd v htouch

/-- A file that a request puts in place is written as the request says. -/
theorem MarkGuard.stored {content : Bytes} (h : MarkGuard a w₀ c bucket key request es o)
    (hfile : (step w f o).2.disk.files path = some content)
    (htouch : o.touch path (step w f o).1 = some true) :
    ∃ iv data, content = storedBytes a iv (request.encrypts w₀) data := by
  obtain ⟨hfalse, -⟩ | ⟨-, content', hfile', hrename⟩ := files_of_touch htouch
  · cases hfalse
  obtain rfl := some.inj (hfile.symm.trans hfile')
  unfold MarkGuard at h
  obtain ⟨id, data, rfl⟩ | ⟨u, n, rfl⟩ := Call.eq_of_touch _ htouch <;> split_ifs at h
  · exact (h).elim
  · obtain ⟨⟨data', hdata⟩, -⟩ := h
    exact ⟨c.iv, data', (hrename id data path rfl).symm.trans hdata⟩
  · exact (h).elim
  · refine ⟨[], content, ?_⟩
    rw [h.1]
    rfl

theorem MarksKept.turn_wellFormed (hx : MarksKept a bucket key start encrypts w₀ x.world x.events)
    (ho : MarkGuard a w₀ c bucket key request (eventsOf x i) o)
    (hB : Steady bucket key x i ⟨o, f, (step x.world f o).1⟩) : WellFormed a (step x.world f o).2 :=
  hx.wellFormed.step ho.putsOk hB.fresh

/-- **A call keeps the invariant.** -/
theorem MarksKept.turn (hsha : Function.Injective a.platform.sha256)
    (hx : MarksKept a bucket key start encrypts w₀ x.world x.events)
    (ho : MarkGuard a w₀ c bucket key request (eventsOf x i) o)
    (hencrypts : encrypts i = request.encrypts w₀)
    (hB : Steady bucket key x i ⟨o, f, (step x.world f o).1⟩) :
    MarksKept a bucket key start encrypts w₀ (step x.world f o).2
      (x.events ++ [(i, ⟨o, f, (step x.world f o).1⟩)]) where
  wellFormed := hx.turn_wellFormed ho hB
  uploads u up hup := hx.uploads u up ((ho.shrinking.shrinks x.world f).uploads u up hup)
  files path content hfile := by
    cases htouch : o.touch path (step x.world f o).1 with
    | none =>
      rw [files_of_touch_eq_none htouch] at hfile
      rw [writtenAs_of_touch_eq_none htouch]
      exact hx.files path content hfile
    | some b =>
      rw [writtenAs_of_touch htouch]
      obtain ⟨rfl, hnone⟩ | ⟨rfl, -⟩ := files_of_touch htouch
      · cases hnone.symm.trans hfile
      · exact ⟨encrypts i, if_pos rfl, hencrypts ▸ ho.stored hfile htouch⟩
  marks r hr hmarker encrypted hwritten := by
    rcases hx.origin ho hB hr with rfl | ⟨r₀, hr₀, -, hpath, hmarker₀, hmark, hother⟩
    · -- the row has been put while the file was still that of its request
      obtain ⟨hcommitted, hdebt⟩ := ho.committed
      obtain ⟨⟨j, b⟩, hlast, hj⟩ := map_eq_some_iff.1 (hB.own r rfl)
      obtain rfl : j = i := hj
      obtain rfl := lastTouch_of_debt hdebt hlast
      rw [writtenAs_of_touch_eq_none rfl, writtenAs, hlast] at hwritten
      exact .inl (hcommitted.marked.trans (hencrypts.symm.trans (some.inj hwritten)))
    cases htouch : o.touch r.storagePath (step x.world f o).1 with
    | none =>
      rw [writtenAs_of_touch_eq_none htouch, ← hpath] at hwritten
      rcases hx.marks r₀ hr₀ (hmarker₀.trans hmarker) encrypted hwritten with hm | ⟨j, hlast, hdebt⟩
      · exact .inl (hmark.symm.trans hm)
      rw [hpath] at hlast hdebt
      refine .inr ⟨j, by rw [lastTouch_concat, htouch]; exact hlast, ?_⟩
      by_cases hj : j = i
      · subst hj
        rcases ho.debtOf_concat hdebt _ htouch with hstill | ⟨row, rfl, hrow⟩
        · exact hstill
        -- a row with the same path would have the same id
        obtain ⟨hcommitted, -⟩ := ho.committed
        exact absurd (RowOk.versionID_eq hsha (ho.putsOk row rfl)
          ((hx.turn_wellFormed ho hB bucket key).rows r hr) hcommitted.marker_eq hmarker hrow)
          (hother row rfl)
      · rw [debtOf_concat_of_ne hj]
        exact hdebt
    | some b =>
      rw [writtenAs_of_touch htouch] at hwritten
      cases b with
      | false => cases hwritten
      | true =>
        refine .inr ⟨i, by rw [lastTouch_concat, htouch]; rfl, ?_⟩
        rw [debtOf_concat_self]
        exact Call.settle_of_touch _ htouch
  reads i₀ before e₀ since hsplit q hq obj hobj := by
    rcases split_concat hsplit with ⟨rfl, he⟩ | ⟨since', rfl, hevents⟩
    · -- the read has just been made
      cases he
      cases o with
      | getObjectVersion b k checked =>
        change (if b = bucket ∧ k = key then _ else none) = some q at hq
        split_ifs at hq with hkey
        obtain ⟨rfl, rfl⟩ := hkey
        cases hq
        obtain ⟨hmem, hid⟩ := mem_of_getObjectVersion (eq_ok_of_reading hobj)
        refine ⟨or_iff_not_imp_left.2 fun h => (hid h).symm, fun _ r hr heq => ?_⟩
        rw [inj_on_of_nodup_map (hx.wellFormed b k).distinct hr hmem heq]
      | _ => cases hq
    · obtain ⟨hchecked, hsame⟩ := hx.reads i₀ before e₀ since' hevents q hq obj hobj
      refine ⟨hchecked, fun hnone r hr hid => ?_⟩
      rcases hx.origin ho hB hr with rfl | ⟨r₀, hr₀, hid₀, -, -, hmark, -⟩
      · exact absurd hid (hnone _ (mem_append_right _ (mem_singleton_self _)) r rfl)
      · rw [← hmark]
        exact hsame (fun t ht => hnone t (mem_append_left _ ht)) r₀ hr₀ (hid₀.trans hid)

/-! ## Whole runs -/

/-- `start` says how the files there are were written, and the rows of the key are marked so. -/
structure StartsAs (a : S3API) (bucket key : Bytes) (start : Bytes → Option Bool) (w : World) :
    Prop where
  files : ∀ path content, w.disk.files path = some content → ∃ encrypted,
    start path = some encrypted ∧ ∃ iv data, content = storedBytes a iv encrypted data
  marks : ∀ r ∈ w.metadata.versions bucket key, r.deleteMarker = false → ∀ encrypted,
    start r.storagePath = some encrypted → objectUsesSSE r = encrypted

/-- **Every version is marked as its blob was written.** -/
def Marked (a : S3API) (bucket key : Bytes) (start : Bytes → Option Bool) (encrypts : ℕ → Bool)
    (x : Pool calls Fault World Reply) : Prop :=
  ∀ r ∈ x.world.metadata.versions bucket key, r.deleteMarker = false →
    ∀ content, x.world.disk.files r.storagePath = some content → ∃ encrypted,
      writtenAs start encrypts r.storagePath x.events = some encrypted ∧
      (∃ iv data, content = storedBytes a iv encrypted data) ∧ objectUsesSSE r = encrypted

theorem StartsAs.marksKept (h : StartsAs a bucket key start w) (hw : WellFormed a w) :
    MarksKept a bucket key start encrypts w w [] where
  wellFormed := hw
  uploads _ _ hup := hup
  files := h.files
  marks r hr hmarker encrypted hwritten := .inl (h.marks r hr hmarker encrypted hwritten)
  reads _ _ _ _ hsplit := absurd hsplit.symm (append_ne_nil_of_right_ne_nil _ (cons_ne_nil _ _))

/-- **Rows are marked as blobs are written, where nothing comes in between.**  In every run of writes
and lock updates of one key, however their calls take turns, as long as each call is steady: once all
requests have ended, every version whose blob is there is marked as encrypted if and only if the blob
was written as the initialisation vector and the data in counter mode. -/
theorem marks_of_steady {requests : List (Ctx × S3Request)} {schedule : List (ℕ × Fault)}
    (hsha : Function.Injective a.platform.sha256) (hw : WellFormed a w)
    (hstart : StartsAs a bucket key start w) (hrequests : ∀ q ∈ requests, q.2.Marks bucket key)
    (hB : stores.Meets (Steady bucket key) (requestPool a w requests) schedule)
    (hdone : ∀ p ∈ (stores.runPool (requestPool a w requests) schedule).threads,
      p.result?.isSome = true) :
    Marked a bucket key start (encryptsAt w requests)
      (stores.runPool (requestPool a w requests) schedule) := by
  have hrun := runPool_of_guarded
    (G := fun i es o => ∃ q, requests[i]? = some q ∧ MarkGuard a w q.1 bucket key q.2 es o)
    (Q := fun _ es _ => debt es = none)
    (K := MarksKept a bucket key start (encryptsAt w requests) w)
    (fun x i f o hx ⟨q, hq, ho⟩ hB => ⟨hx.answers hB, hx.turn hsha ho (by rw [encryptsAt, hq]; rfl) hB⟩)
    (fun i p hp => ?_) (hstart.marksKept hw) hB
  · obtain ⟨hthreads, hx⟩ := hrun
    intro r hr hmarker content hfile
    obtain ⟨encrypted, hwritten, hcontent⟩ := hx.files _ _ hfile
    refine ⟨encrypted, hwritten, hcontent, ?_⟩
    refine (hx.marks r hr hmarker encrypted hwritten).resolve_right ?_
    rintro ⟨i, -, hdebt⟩
    cases hdebt.symm.trans (debtOf_of_done rfl rfl hthreads hdone i)
  · rw [requestPool, getElem?_map] at hp
    obtain ⟨q, hq, rfl⟩ := map_eq_some_iff.1 hp
    exact (handle_marks (hrequests q (mem_of_getElem? hq))).weaken (fun _ _ h => h)
      fun es o h => ⟨q, hq, h⟩

/-! ## Two writes and a legal hold -/

/-- A server with a key, whose SHA-256 is the real one on what the sample requests hash, and
one-to-one. -/
def sealedAPI : S3API :=
  { sampleAPI with
    sseKey := replicate 32 7
    platform := { digestPlatform with
      sha256 := spread Sha256.hash
        [str "one", [], (sampleCtx 0).iv, str "b" ++ 0 :: str "k", nullVersion] } }

def plainWorld : World := afterAll sealedAPI {} retentionHistory

theorem wellFormed_plainWorld : WellFormed sealedAPI plainWorld :=
  wellFormed_of_entries (by decide +kernel)

/-- A `PUT` of an empty object that is to be encrypted, a legal hold, and a `PUT` that is not to be. -/
def sealedRequests : List (Ctx × S3Request) :=
  [(sampleCtx 3, .putObject (objectRequest "" [("x-amz-server-side-encryption", "AES256")]) (str "b")
      (str "k") ⟨[], false⟩),
    (sampleCtx 4, .putLegalHold objectRequest (str "b") (str "k") (some (str "ON"))),
    (sampleCtx 5, .putObject objectRequest (str "b") (str "k") ⟨str "one", false⟩)]

/-- The pool after a schedule of them in which nothing fails. -/
def sealedPool (schedule : List ℕ) : Pool calls Fault World Reply :=
  stores.runPool (requestPool sealedAPI plainWorld sealedRequests) (schedule.map (·, .ok))

def SealedMarked (x : Pool calls Fault World Reply) : Prop :=
  Marked sealedAPI (str "b") (str "k") (fun _ => some false) (encryptsAt plainWorld sealedRequests) x

theorem startsAs_plainWorld :
    StartsAs sealedAPI (str "b") (str "k") (fun _ => some false) plainWorld where
  files _ content _ := ⟨false, rfl, [], content, rfl⟩
  marks r hr _ encrypted hstart := by
    have hall : ∀ r ∈ plainWorld.metadata.versions (str "b") (str "k"), objectUsesSSE r = false := by
      decide +kernel
    rw [hall r hr, ← some.inj hstart]

/-- They take turns, but for the last two calls of each. -/
def sealedTurns : List ℕ := (replicate 8 [0, 2]).flatten ++ [1, 2, 2, 0, 0, 1, 1]

/-- The object is marked. -/
theorem marks_of_steady_turns :
    SealedMarked (sealedPool sealedTurns) ∧
    ((sealedPool sealedTurns).world.metadata.versions (str "b") (str "k")).map objectUsesSSE =
      [true] := by
  have hsha : Function.Injective sealedAPI.platform.sha256 :=
    spread_sha256_injective (by decide +kernel)
  have hB : stores.Meets (Steady (str "b") (str "k")) (requestPool sealedAPI plainWorld sealedRequests)
      (sealedTurns.map (·, .ok)) := by decide +kernel
  refine ⟨marks_of_steady hsha wellFormed_plainWorld startsAs_plainWorld (by decide) hB ?_, ?_⟩
  · decide +kernel
  · decide +kernel

/-- A version of the object is not marked, although its blob was written encrypted. -/
theorem not_sealedMarked
    (h : (x.world.metadata.versions (str "b") (str "k")).any (fun r => !r.deleteMarker &&
      !objectUsesSSE r && (x.world.disk.files r.storagePath).isSome && writtenAs (fun _ => some false)
        (encryptsAt plainWorld sealedRequests) r.storagePath x.events = some true) = true) :
    ¬ SealedMarked x := by
  intro hmarked
  obtain ⟨r, hr, hany⟩ := any_eq_true.1 h
  simp only [Bool.and_eq_true, Bool.not_eq_true', decide_eq_true_eq] at hany
  obtain ⟨⟨⟨hmarker, hplain⟩, hfile⟩, hwritten⟩ := hany
  obtain ⟨content, hcontent⟩ := isSome_iff_exists.1 hfile
  obtain ⟨encrypted, hwritten', -, hmark⟩ := hmarked r hr hmarker content hcontent
  rw [hplain] at hmark
  rw [hwritten, ← hmark] at hwritten'
  cases hwritten'

/-- What a `GET` of the object delivers. -/
def sealedGet (w : World) : Option Bytes :=
  match (respond sealedAPI w ⟨.getObject objectRequest (str "b") (str "k"), sampleCtx 6, []⟩).1 with
  | .answer 200 _ (.object content) => some content
  | _ => none

/-- **Marks that are lost**: where the legal hold has read the row before the encrypted `PUT` and writes
it back after that, and where the other `PUT` has put its file in place before the encrypted `PUT` and
puts its row after that.  All requests have ended, and a `GET` of the empty object delivers the
initialisation vector. -/
theorem marks_lost :
    (∀ p ∈ (sealedPool ([1, 1] ++ List.replicate 10 0 ++ [1, 2, 2, 2])).threads,
      p.result?.isSome = true) ∧
    ¬ SealedMarked (sealedPool ([1, 1] ++ List.replicate 10 0 ++ [1, 2, 2, 2])) ∧
    sealedGet (sealedPool ([1, 1] ++ List.replicate 10 0 ++ [1, 2, 2, 2])).world =
      some (sampleCtx 3).iv ∧
    (∀ p ∈ (sealedPool (List.replicate 9 2 ++ List.replicate 10 0 ++ [2, 1, 1, 1])).threads,
      p.result?.isSome = true) ∧
    ¬ SealedMarked (sealedPool (replicate 9 2 ++ replicate 10 0 ++ [2, 1, 1, 1])) := by
  refine ⟨?_, not_sealedMarked ?_, ?_, ?_, not_sealedMarked ?_⟩ <;> decide +kernel

end S000
