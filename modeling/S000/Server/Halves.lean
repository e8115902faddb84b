import S000.Server.Commits

/-!
# Server/Halves — the row and the blob of a key among writes and deletions

The row of a `null` version is put and deleted in one step, and its blob in another.  What a row says of
its blob, it says of the blob of its own request.  Where a row is put while the blob is still that of
its request, and a blob is removed only after its row (`Paired`), the row that is left once all requests
have ended has its blob, with the length and the digest it says (`halves_match`).
-/

namespace S000

open Strings Metadata Blob List Machine

/-- The requests that write or delete an object of the key. -/
def S3Request.Overwrites (bucket key : Bytes) : S3Request → Prop
  | putObject _ b k _ | deleteObject _ b k => b = bucket ∧ k = key
  | _ => False

instance (bucket key : Bytes) (request : S3Request) : Decidable (request.Overwrites bucket key) := by
  cases request <;> dsimp only [S3Request.Overwrites] <;> infer_instance

def S3Request.stored (a : S3API) (c : Ctx) : S3Request → Option Bytes
  | putObject r _ _ body => some (putBytes a c r body)
  | _ => none

def storedAt (a : S3API) (requests : List (Ctx × S3Request)) (i : ℕ) : Option Bytes :=
  requests[i]?.bind fun q => q.2.stored a q.1

/-- **A row matches a file**: its size and entity tag are those of the data, which is the file itself
unless the object is encrypted. -/
def Matches (a : S3API) (r : ObjectVersion) (file : Bytes) : Prop :=
  r.size = (content a r file).length ∧ r.eTag = Hex.encode (a.platform.md5 (content a r file))

variable {a : S3API} {w : World} {c : Ctx} {bucket key : Bytes} {es : List CallEvent} {o : Call}
  {f : Fault} {request : S3Request}

theorem matches_putRow {r : Request} {body : Stream} {ref : ObjectRef} :
    Matches a (putRow a c r body ref) (putBytes a c r body) := by
  have hmark : objectUsesSSE (putRow a c r body ref) = sseRequested r := objectUsesSSE_of_mark rfl
  have hcontent : content a (putRow a c r body ref) (putBytes a c r body) =
      (requestObjectBody r body).bytes := by
    rw [putBytes, ← hmark]
    exact content_storedBytes c.iv_length rfl
  rw [Matches, hcontent]
  exact ⟨rfl, rfl⟩

/-! ## What the requests call -/

/-- The answers that the requests get: a bucket that is not versioned, and no failure after a file was
put in place. -/
def PairedAnswers (bucket : Bytes) (o : Call) (v : o.Val) : Prop :=
  Sound o v ∧ match o, v with
    | .getBucket name, v => name = bucket → ∀ b, v = .ok b → b.versioningStatus ≠ str "Enabled"
    | _, _ => True

def DeleterGuard (bucket key : Bytes) : Call → Prop
  | .deleteObjectVersion b k _ | .deleteAllObjectVersions b k => b = bucket ∧ k = key
  | .remove _ => True
  | o => o.Plain

/-- The rows of a `PUT`. -/
def S3Request.row (a : S3API) (c : Ctx) (bucket key : Bytes) : S3Request → ObjectVersion → Prop
  | putObject r _ _ body, row => row = putRow a c r body ⟨bucket, key, nullVersion⟩
  | _, _ => False

def PairGuard (a : S3API) (c : Ctx) (bucket key : Bytes) (request : S3Request) (es : List CallEvent)
    (o : Call) : Prop :=
  match request with
  | .putObject .. => CommitGuard (fun x => request.stored a c = some x) False
      (request.row a c bucket key) es o
  | _ => DeleterGuard bucket key o ∧ debt es = none

theorem Call.Idle.deleterGuard (h : o.Idle) : DeleterGuard bucket key o := by
  cases o <;> first | exact h.elim | trivial

theorem DeleterGuard.settle (h : DeleterGuard bucket key o) (v : o.Val) : o.settle none v = none := by
  cases o with
  | rename | promote | putObjectVersion => exact h.elim
  | remove p =>
    revert v
    refine fun v => ?_
    cases v <;> rfl
  | _ => rfl

/-- **What a request calls**, and that it ends without a debt. -/
theorem handle_pairs (h : request.Overwrites bucket key) :
    (handle a c request).Guarded (PairedAnswers bucket) (PairGuard a c bucket key request)
      (fun es _ => debt es = none) [] := by
  cases request with
  | putObject r b k body =>
    obtain ⟨rfl, rfl⟩ := h
    refine (inBucket_guarded rfl fun hd => handlePutObject_guarded (fun _ _ h => h.1) hd).weaken
      (fun _ _ h => h) fun es o h => ?_
    refine .mono (fun x hx => congrArg some hx.symm) id (fun row hrow => ?_) h
    obtain ⟨⟨refBucket, refKey, versionID⟩, htarget, rfl⟩ := hrow
    obtain rfl : refBucket = b := htarget.bucket_eq
    obtain rfl : refKey = k := htarget.key_eq
    obtain ⟨b', hb, hid⟩ := htarget.versionID_eq
    obtain rfl : versionID = nullVersion := by
      rw [show versionID = writtenVersionID c b' from hid]
      exact if_neg (hb.2 rfl b' rfl)
    rfl
  | deleteObject r b k =>
    obtain ⟨rfl, rfl⟩ := h
    have honly : (handle a c (.deleteObject r b k)).Only (PairedAnswers b) (DeleterGuard b k)
        fun _ => True := by
      refine inBucket_only (fun _ h => h.deleterGuard) (handleDeleteObject_only
        (fun _ h => h.deleterGuard) ⟨fun _ _ => ⟨rfl, rfl⟩, fun _ _ _ _ _ => trivial⟩
        (fun b' hb henabled => ?_) fun _ _ _ _ => ⟨fun _ => ⟨rfl, rfl⟩, fun _ _ _ _ _ _ _ => trivial⟩)
      exact absurd henabled (hb.2 rfl b' rfl)
    refine ((honly.guarded.keeping (K := fun es : List CallEvent => debt es = none)
      (fun es o f v hes ho _ => ?_) rfl).weaken (fun _ _ h => h) fun es o h => ⟨h.2, h.1⟩).mono
      fun es _ h => h.1
    rw [debt_concat, hes]
    exact DeleterGuard.settle ho v
  | _ => exact h.elim

/-! ## The invariant -/

def Call.removed? : Call → Option Bytes
  | remove p => some p
  | _ => none

/-- **A call that keeps the halves together.** -/
@[mk_iff]
structure Paired (bucket key : Bytes) (x : Pool calls Fault World Reply) (i : ℕ) (e : CallEvent) :
    Prop where
  /-- Once a file is in place, the write goes on to its end. -/
  closes : e.op.closes = true → e.fault = .ok
  /-- A row is put while the file is still the one that the request has put in place. -/
  own : ∀ v ∈ e.op.row?, (lastTouch v.storagePath x.events).map Prod.fst = some i
  /-- A file is removed where no row is left of it. -/
  unused : ∀ p ∈ e.op.removed?, ∀ r ∈ x.world.metadata.versions bucket key,
    r.deleteMarker = false → r.storagePath ≠ p

instance (bucket key : Bytes) (x : Pool calls Fault World Reply) (i : ℕ) (e : CallEvent) :
    Decidable (Paired bucket key x i e) := decidable_of_iff' _ (paired_iff ..)

def Whole (a : S3API) (w : World) (r : ObjectVersion) : Prop :=
  ∃ file, w.disk.files r.storagePath = some file ∧ Matches a r file

/-- **What holds among the requests**: a file is what the request that put it in place stores, and a row
has its blob, up to what a request that is under way owes. -/
structure HalvesKept (a : S3API) (bucket key : Bytes) (requests : List (Ctx × S3Request)) (w : World)
    (events : List (ℕ × CallEvent)) : Prop where
  status : ∀ b, w.metadata.getBucket bucket = .ok b → b.versioningStatus ≠ str "Enabled"
  files : ∀ p i, lastTouch p events = some (i, true) → w.disk.files p = storedAt a requests i
  rows : ∀ r ∈ w.metadata.versions bucket key, r.versionID = nullVersion → r.deleteMarker = false →
    Whole a w r ∨ ∃ i, lastTouch r.storagePath events = some (i, true) ∧
      debtOf events i = some r.storagePath

variable {requests : List (Ctx × S3Request)} {x : Pool calls Fault World Reply} {i : ℕ}

theorem PairGuard.row {v : ObjectVersion}
    (h : PairGuard a c bucket key request es (.putObjectVersion v)) :
    request.row a c bucket key v ∧ debt es = some v.storagePath := by
  cases request with
  | putObject => exact h
  | _ => exact h.1.elim

theorem PairGuard.keepsBuckets (h : PairGuard a c bucket key request es o) : o.KeepsBuckets := by
  cases o with
  | createBucket | updateBucketVersioning | deleteBucket =>
    cases request with
    | putObject => exact h.elim
    | _ => exact h.1.elim
  | _ => trivial

theorem RowChange.mem_of_other {b k : Bytes} {l l' : List ObjectVersion} {r : ObjectVersion}
    (h : RowChange b k o l l') (hput : o.row? = none)
    (hupdate : ∀ b k versionID metadata, o ≠ .updateObjectMetadata b k versionID metadata)
    (hr : r ∈ l') : r ∈ l := by
  cases h with
  | same => exact hr
  | drop | put => cases hput
  | remove => exact Versions.mem_of_mem_remove hr
  | clear => cases hr
  | update => exact absurd rfl (hupdate _ _ _ _)

/-- **Where a row comes from**: it has just been put, or it was there; a put replaces the `null`
row. -/
theorem PairGuard.origin {r : ObjectVersion} (ho : PairGuard a c bucket key request es o)
    (hf : o.closes = true → f = .ok) (hr : r ∈ (step w f o).2.metadata.versions bucket key) :
    o = .putObjectVersion r ∨ r ∈ w.metadata.versions bucket key ∧
      ∀ v ∈ o.row?, r.versionID ≠ nullVersion := by
  cases o with
  | putObjectVersion v =>
    obtain rfl := hf rfl
    obtain ⟨hrow, -⟩ := ho.row
    cases request with
    | putObject r' b' k' body =>
      obtain rfl : v = putRow a c r' body ⟨bucket, key, nullVersion⟩ := hrow
      have hput : (step w .ok (.putObjectVersion (putRow a c r' body ⟨bucket, key, nullVersion⟩))).2 =
        { w with metadata := w.metadata.putObjectVersion _ } := rfl
      rw [hput, MemoryState.versions_putObjectVersion, if_pos ⟨rfl, rfl⟩] at hr
      rcases Versions.mem_put.1 hr with rfl | ⟨hr, hnull⟩
      · exact .inl rfl
      · exact .inr ⟨hr, fun _ _ => hnull rfl⟩
    | _ => exact hrow.elim
  | updateObjectMetadata =>
    cases request with
    | putObject => exact ho.elim
    | _ => exact ho.1.elim
  | _ =>
    exact .inr ⟨(rowChange_step w f _ bucket key).mem_of_other rfl (fun _ _ _ _ h => by cases h) hr,
      nofun⟩

theorem HalvesKept.answers (hx : HalvesKept a bucket key requests x.world x.events)
    (hB : Paired bucket key x i ⟨o, f, (step x.world f o).1⟩) :
    PairedAnswers bucket o (step x.world f o).1 := by
  refine ⟨sound_step hB.closes, ?_⟩
  cases o with
  | getBucket name =>
    rintro rfl b hb
    exact hx.status b (eq_ok_of_reading hb)
  | _ => trivial

theorem PairGuard.files {path : Bytes} (h : PairGuard a c bucket key request es o)
    (htouch : o.touch path (step w f o).1 = some true) :
    (step w f o).2.disk.files path = request.stored a c := by
  obtain ⟨hfalse, -⟩ | ⟨-, content, hfile, hrename⟩ := files_of_touch htouch
  · cases hfalse
  rw [hfile]
  obtain ⟨id, data, rfl⟩ | ⟨u, n, rfl⟩ := Call.eq_of_touch _ htouch
  · cases request with
    | putObject r b k body =>
      rw [← hrename id data path rfl]
      exact h.1.symm
    | _ => exact h.1.elim
  · cases request with
    | putObject => exact h.1.elim
    | _ => exact h.1.elim

/-- What a request owes, it still owes after a call that does not touch the file, unless it puts the
row. -/
theorem PairGuard.debtOf_concat {path : Bytes} (h : PairGuard a c bucket key request (eventsOf x i) o)
    (hd : debtOf x.events i = some path) (v : o.Val) (htouch : o.touch path v = none) :
    debtOf (x.events ++ [(i, ⟨o, f, v⟩)]) i = some path ∨
      ∃ row, o = .putObjectVersion row ∧ row.storagePath = path := by
  rw [debtOf_concat_self]
  cases request with
  | putObject => exact CommitGuard.settle h hd v htouch
  | _ => cases hd.symm.trans h.2

/-- **A call keeps the invariant.** -/
theorem HalvesKept.turn (hx : HalvesKept a bucket key requests x.world x.events)
    (ho : PairGuard a c bucket key request (eventsOf x i) o)
    (hstored : storedAt a requests i = request.stored a c)
    (hB : Paired bucket key x i ⟨o, f, (step x.world f o).1⟩) :
    HalvesKept a bucket key requests (step x.world f o).2
      (x.events ++ [(i, ⟨o, f, (step x.world f o).1⟩)]) where
  status b hb := by
    rw [MemoryState.getBucket, buckets_step ho.keepsBuckets] at hb
    exact hx.status b hb
  files p j hlast := by
    rw [lastTouch_concat] at hlast
    cases htouch : o.touch p (step x.world f o).1 with
    | none =>
      rw [htouch] at hlast
      rw [files_of_touch_eq_none htouch]
      exact hx.files p j hlast
    | some b =>
      rw [htouch] at hlast
      cases hlast
      rw [ho.files htouch, hstored]
  rows r hr hnull hmarker := by
    rcases ho.origin hB.closes hr with rfl | ⟨hr₀, hother⟩
    · -- the row has been put while the file was still that of its request
      obtain ⟨hrow, hdebt⟩ := ho.row
      obtain ⟨⟨j, b⟩, hlast, hj⟩ := Option.map_eq_some_iff.1 (hB.own r rfl)
      obtain rfl : j = i := hj
      obtain rfl := lastTouch_of_debt hdebt hlast
      have hfile := hx.files _ _ hlast
      rw [hstored] at hfile
      cases request with
      | putObject r' b' k' body =>
        obtain rfl : r = putRow a c r' body ⟨bucket, key, nullVersion⟩ := hrow
        exact .inl ⟨_, (files_of_touch_eq_none rfl).trans hfile, matches_putRow⟩
      | _ => exact hrow.elim
    cases htouch : o.touch r.storagePath (step x.world f o).1 with
    | none =>
      rcases hx.rows r hr₀ hnull hmarker with ⟨file, hfile, hmatches⟩ | ⟨j, hlast, hdebt⟩
      · exact .inl ⟨file, (files_of_touch_eq_none htouch).trans hfile, hmatches⟩
      refine .inr ⟨j, by rw [lastTouch_concat, htouch]; exact hlast, ?_⟩
      by_cases hj : j = i
      · subst hj
        rcases ho.debtOf_concat hdebt _ htouch with hstill | ⟨row, rfl, -⟩
        · exact hstill
        · exact absurd hnull (hother row rfl)
      · rw [debtOf_concat_of_ne hj]
        exact hdebt
    | some b =>
      cases b with
      | false =>
        obtain rfl := Call.eq_remove_of_touch _ htouch
        exact absurd rfl (hB.unused _ rfl r hr₀ hmarker)
      | true =>
        refine .inr ⟨i, by rw [lastTouch_concat, htouch]; rfl, ?_⟩
        rw [debtOf_concat_self]
        exact Call.settle_of_touch _ htouch

/-! ## Whole runs -/

/-- **The halves match where they are kept together.**  In every run of `PUT`s and deletions of one key
of a bucket that is not versioned, however their calls take turns, as long as each call keeps the halves
together: once all requests have ended, a `null` version that is not a marker has its blob, and the size
and the entity tag of the version are those of the data in it. -/
theorem halves_match {schedule : List (ℕ × Fault)}
    (hstatus : ∀ b, w.metadata.getBucket bucket = .ok b → b.versioningStatus ≠ str "Enabled")
    (hstart : ∀ r ∈ w.metadata.versions bucket key, r.versionID = nullVersion →
      r.deleteMarker = false → Whole a w r)
    (hrequests : ∀ q ∈ requests, q.2.Overwrites bucket key)
    (hB : stores.Meets (Paired bucket key) (requestPool a w requests) schedule)
    (hdone : ∀ p ∈ (stores.runPool (requestPool a w requests) schedule).threads,
      p.result?.isSome = true) :
    ∀ r ∈ (stores.runPool (requestPool a w requests) schedule).world.metadata.versions bucket key,
      r.versionID = nullVersion → r.deleteMarker = false →
        Whole a (stores.runPool (requestPool a w requests) schedule).world r := by
  have hempty : HalvesKept a bucket key requests w [] :=
    ⟨hstatus, fun _ _ h => (by cases h), fun r hr hnull hmarker => .inl (hstart r hr hnull hmarker)⟩
  have hrun := runPool_of_guarded
    (G := fun i es o => ∃ q, requests[i]? = some q ∧ PairGuard a q.1 bucket key q.2 es o)
    (Q := fun _ es _ => debt es = none)
    (fun x i f o hx ⟨q, hq, ho⟩ hB => ⟨hx.answers hB, hx.turn ho (by rw [storedAt, hq]; rfl) hB⟩)
    (fun i p hp => ?_) hempty hB
  · obtain ⟨hthreads, hx⟩ := hrun
    intro r hr hnull hmarker
    refine (hx.rows r hr hnull hmarker).resolve_right ?_
    rintro ⟨i, -, hdebt⟩
    cases hdebt.symm.trans (debtOf_of_done rfl rfl hthreads hdone i)
  · rw [requestPool, getElem?_map] at hp
    obtain ⟨q, hq, rfl⟩ := Option.map_eq_some_iff.1 hp
    exact (handle_pairs (hrequests q (mem_of_getElem? hq))).weaken (fun _ _ h => h)
      fun es o h => ⟨q, hq, h⟩

/-! ## Two writes and a deletion -/

def keyedAPI : S3API := { sampleAPI with sseKey := replicate 32 7 }

def halvesWorld : World :=
  afterAll keyedAPI {} [⟨.createBucket (str "b"), sampleCtx 1, []⟩,
    ⟨.putObject objectRequest (str "b") (str "k") ⟨str "one", false⟩, sampleCtx 2, []⟩]

/-- Two `PUT`s, a deletion, and a `PUT` of an empty object that is to be encrypted. -/
def halvesRequests : List (Ctx × S3Request) :=
  [(sampleCtx 3, .putObject objectRequest (str "b") (str "k") ⟨str "two", false⟩),
    (sampleCtx 4, .putObject objectRequest (str "b") (str "k") ⟨str "three", false⟩),
    (sampleCtx 5, .deleteObject objectRequest (str "b") (str "k")),
    (sampleCtx 6, .putObject (objectRequest "" [("x-amz-server-side-encryption", "AES256")])
      (str "b") (str "k") ⟨[], false⟩)]

def someHalves (chosen : List ℕ) : List (Ctx × S3Request) :=
  chosen.filterMap fun n => halvesRequests[n]?

/-- The pool of these after a schedule in which nothing fails. -/
def halvesPool (chosen schedule : List ℕ) : Pool calls Fault World Reply :=
  stores.runPool (requestPool keyedAPI halvesWorld (someHalves chosen)) (schedule.map (·, .ok))

/-- What is left of the object: ids and sizes, and the lengths of the files. -/
def halvesLeft (x : Pool calls Fault World Reply) : List (Bytes × ℕ × Option ℕ) :=
  (x.world.metadata.versions (str "b") (str "k")).map fun r =>
    (r.versionID, r.size, (x.world.disk.files r.storagePath).map length)

/-- A `PUT`, the deletion and the other `PUT` take turns, but for the two calls that each ends with. -/
def halvesTurns : List ℕ :=
  (replicate 3 [0, 1, 2] ++ replicate 5 [0, 2]).flatten ++ [0, 0, 1, 1, 2, 2]

theorem halves_match_turns :
    (∀ r ∈ (halvesPool [0, 2, 1] halvesTurns).world.metadata.versions (str "b") (str "k"),
      r.versionID = nullVersion → r.deleteMarker = false →
        Whole keyedAPI (halvesPool [0, 2, 1] halvesTurns).world r) ∧
    halvesLeft (halvesPool [0, 2, 1] halvesTurns) = [(nullVersion, 5, some 5)] := by
  have hstatus (b : Bucket) (hb : halvesWorld.metadata.getBucket (str "b") = .ok b) :
      b.versioningStatus ≠ str "Enabled" := by
    have hplain : (halvesWorld.metadata.getBucket (str "b")).toOption.all
        (·.versioningStatus ≠ str "Enabled") = true := by decide +kernel
    rw [hb] at hplain
    exact of_decide_eq_true hplain
  have hstart : ∀ r ∈ halvesWorld.metadata.versions (str "b") (str "k"), r.versionID = nullVersion →
      r.deleteMarker = false → Whole keyedAPI halvesWorld r := by
    have hall : (halvesWorld.metadata.versions (str "b") (str "k")).all fun r =>
        (halvesWorld.disk.files r.storagePath).any fun file =>
          r.size = (content keyedAPI r file).length &&
            r.eTag = Hex.encode (keyedAPI.platform.md5 (content keyedAPI r file)) := by decide +kernel
    intro r hr _ _
    obtain ⟨file, hfile, hmatches⟩ := (Option.any_eq_true _ _).1 (all_eq_true.1 hall r hr)
    simp only [Bool.and_eq_true, decide_eq_true_eq] at hmatches
    exact ⟨file, hfile, hmatches⟩
  have hB : stores.Meets (Paired (str "b") (str "k"))
      (requestPool keyedAPI halvesWorld (someHalves [0, 2, 1]))
      (halvesTurns.map (·, Fault.ok)) := by
    decide +kernel
  have hrequests : ∀ q ∈ someHalves [0, 2, 1], q.2.Overwrites (str "b") (str "k") := by decide +kernel
  have hdone : ∀ p ∈ (halvesPool [0, 2, 1] halvesTurns).threads, p.result?.isSome = true := by
    decide +kernel
  refine ⟨?_, by decide +kernel⟩
  unfold halvesPool at hdone ⊢
  exact halves_match hstatus hstart hrequests hB hdone

/-- **Halves that do not match**: the blob of an encrypted object is longer than the object; where a
`PUT` puts its row after another one has replaced its blob, the row of the one is left with the blob of
the other; and where a deletion has deleted the old row and then removes the blob of a `PUT` that has
ended, a row is left without a blob. -/
theorem halves_differ :
    ((∀ p ∈ (halvesPool [3] (replicate 10 0)).threads, p.result?.isSome = true) ∧
      halvesLeft (halvesPool [3] (replicate 10 0)) = [(nullVersion, 0, some 16)]) ∧
    ((∀ p ∈ (halvesPool [0, 1] (replicate 9 0 ++ replicate 10 1 ++ [0])).threads,
        p.result?.isSome = true) ∧
      halvesLeft (halvesPool [0, 1] (replicate 9 0 ++ replicate 10 1 ++ [0])) =
        [(nullVersion, 3, some 5)]) ∧
    (∀ p ∈ (halvesPool [2, 0] (replicate 4 0 ++ replicate 10 1 ++ [0])).threads,
        p.result?.isSome = true) ∧
      halvesLeft (halvesPool [2, 0] (replicate 4 0 ++ replicate 10 1 ++ [0])) =
        [(nullVersion, 3, none)] := by
  refine ⟨⟨?_, ?_⟩, ⟨?_, ?_⟩, ?_, ?_⟩ <;> decide +kernel

end S000
