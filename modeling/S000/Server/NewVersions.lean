import S000.Server.Assembly
import S000.Server.Declared

/-!
# Server/NewVersions — what a write that is answered with 200 leaves behind

A `PUT`, a copy and a completion end alike: a row is put, and the reply says 200 only where that
succeeded (`commit_ensuresWhen`), so that the row is the latest version of its key.  What its metadata
map says is decided before.  User metadata, the lock of a version and the mark of its encryption share
that map.  The mark is set or taken out whatever the map came with (`markSSEMetadata`), but the entries
of the lock are not: a header `x-amz-meta-__s000_legal_hold` of a `PUT`, and the lock of the source of a
copy, lock the new version.  A read treats the names with that beginning as the server's own and shows
none of them as user metadata.
-/

namespace S000

open Strings Metadata Blob Machine

variable {a : S3API} {w : World} {c : Ctx} {r : Request} {bucket key uploadID : Bytes} {body : Stream}
  {parts : XmlBody (List CompletedPart)} {B : World → Event calls Fault → Prop}

/-! ## The rows -/

/-- What a program returns, whatever it is answered, it returns in a world. -/
theorem ensures_of_returns {α : Type} {p : Act α} {Q : α → Prop} (h : Returns p Q) :
    stores.Ensures (fun x _ => Q x) p w :=
  (ensures_of_only (K := fun _ => True) (fun _ _ _ _ _ => ⟨trivial, trivial⟩) h
    trivial).mono fun _ _ h => h.1

/-- **A `PUT` up to its row.** -/
theorem stagePut_ensuresWhen : stores.EnsuresWhen B (StageOutcome fun row w' =>
      (∃ b, row = putRow a c r body ⟨bucket, key, writtenVersionID c b⟩) ∧
        (requestObjectBody r body).fails = false ∧ (sseRequested r = true → a.sseKey.length = 32) ∧
        w.Stored w' row.storagePath (putBytes a c r body))
    (stagePut a c r bucket key body) w := by
  simp only [stagePut, ensuresWhen_bind]
  refine Ensures.when (ensures_ask_idle trivial fun v w₁ hkept₁ => ?_)
  cases v with
  | error e => exact .error rfl
  | ok b =>
    refine (ensures_idle overwriteLocked_idle).when.bind fun locked w₂ hlocked => ?_
    refine ensuresWhen_ite stores (fun _ => .error rfl) fun _ => ?_
    have hkept : w.Kept w₂ := hkept₁.trans hlocked.2
    cases hsse : validateSSEHeaders a r bucket key with
    | error e => exact .error (validateSSEHeaders_error hsse)
    | ok encrypted =>
      obtain ⟨rfl, hkey⟩ := validateSSEHeaders_ok hsse
      refine (writeMaybeEncryptedObject_ensures (sseRequested r)).when.bind fun x w₃ hx => ?_
      rcases x with _ | m
      · exact .error rfl
      obtain ⟨rfl, hfails, hstored⟩ := hx m rfl
      dsimp only
      split
      next e he => exact fun _ _ => .error (checkDigests_error he)
      next =>
        refine .ok ⟨⟨b, rfl⟩, hfails, hkey, hstored.metadata.trans hkept.metadata, ?_⟩
        rw [hstored.files, hkept.files]
        rfl

def copySource (r : Request) : Option (Bytes × Bytes) :=
  cut 0x2F (trimPrefix (r.header.get (str "X-Amz-Copy-Source")) (str "/"))

theorem objectConditionsPass_refuses {P : Platform} {obj : ObjectVersion} {pre : Bytes} {e : Reply}
    (h : objectConditionsPass P r obj pre = some e) : e.accepted = false := by
  unfold objectConditionsPass at h
  dsimp only at h
  split_ifs at h <;> cases h <;> rfl

/-- **A copy up to its row.** -/
theorem stageCopy_ensuresWhen : stores.EnsuresWhen B (StageOutcome fun row _ =>
      (row.bucket = bucket ∧ row.key = key) ∧ ∃ src srcBucket srcKey,
        copySource r = some (srcBucket, srcKey) ∧
        w.metadata.getLatestObjectVersion srcBucket srcKey = .ok src ∧
        row.metadata = markSSEMetadata src.metadata (sseRequested r))
    (stageCopy a c r bucket key) w := by
  unfold stageCopy
  split
  next => exact .error rfl
  next srcBucket srcKey hsource =>
    simp only [ensuresWhen_bind]
    refine ensuresWhen_ask_of fun f v w₁ hv _ => ?_
    obtain ⟨hread, rfl⟩ := Prod.mk.inj hv
    cases v with
    | error e => exact .error rfl
    | ok src =>
      refine ensuresWhen_ite stores (fun _ => .error rfl) fun _ => ?_
      split
      next e he => exact .error (objectConditionsPass_refuses he)
      next =>
        cases hsse : validateSSEHeaders a r bucket key with
        | error e => exact .error (validateSSEHeaders_error hsse)
        | ok encrypted =>
          obtain ⟨rfl, -⟩ := validateSSEHeaders_ok hsse
          refine (ensures_idle (readMaybeEncryptedObject_only (fun _ h => h) src none)).when.bind
            fun source w₂ _ => ?_
          simp only [ensuresWhen_bind]
          refine ensuresWhen_ask_of fun f v w₃ _ _ => ?_
          cases v with
          | error e => exact .error rfl
          | ok b =>
            refine (ensures_idle overwriteLocked_idle).when.bind fun locked w₄ _ => ?_
            refine ensuresWhen_ite stores (fun _ => .error rfl) fun _ => ?_
            refine (writeMaybeEncryptedObject_ensures (sseRequested r)).when.bind fun x w₅ hx => ?_
            rcases x with _ | m
            · exact .error rfl
            obtain ⟨rfl, -⟩ := hx m rfl
            refine ensuresWhen_ite stores (fun _ => ?_) fun _ => ?_
            · exact fun _ _ => .error rfl
            · exact .ok ⟨⟨rfl, rfl⟩, src, srcBucket, srcKey, hsource, eq_ok_of_reading hread, rfl⟩

/-- **A completion up to its row.** -/
theorem stageComplete_marks : stores.EnsuresWhen B (StageOutcome fun row _ =>
      (row.bucket = bucket ∧ row.key = key) ∧ ∃ u, w.metadata.multipart.lookup uploadID = some u ∧
        row.metadata = markSSEMetadata ∅ (u.sseAlgorithm = sseAlgorithmAES256))
    (stageComplete a c r bucket key uploadID parts) w := by
  refine findUpload_ensuresWhen.bind fun x w₁ hx => ?_
  obtain ⟨rfl, hfound⟩ := hx
  rcases x with _ | ⟨u, rows⟩
  · exact .error rfl
  have hupload := multipart_of_getMultipartUpload (hfound u rows rfl).1
  dsimp only
  cases hlisted : listedParts bucket key (storedByNumber rows) parts with
  | error e =>
    obtain ⟨err, rfl⟩ := listedParts_eq_error hlisted
    exact .error rfl
  | ok listed =>
    simp only [ensuresWhen_bind]
    refine Ensures.when (ensures_ask_idle trivial fun v w₂ _ => ?_)
    cases v with
    | error e => exact .error rfl
    | ok b =>
      refine (ensures_idle overwriteLocked_idle).when.bind fun locked w₃ _ => ?_
      refine ensuresWhen_ite stores (fun _ => .error rfl) fun _ => ?_
      refine (ensures_of_returns (assemble_only (fun _ _ => trivial) trivial (fun _ _ => trivial)
        fun _ => trivial)).when.bind fun x w₄ hx => ?_
      rcases x with _ | m
      · exact .error rfl
      obtain ⟨href, -⟩ := hx m rfl
      exact .ok ⟨⟨congrArg ObjectRef.bucket href, congrArg ObjectRef.key href⟩, u, hupload, rfl⟩

/-! ## Locks and encryption -/

/-- A metadata map that locks its version at some time: there is a legal hold, or a date up to which
the version is retained. -/
def LockMarks (m : StrMap) : Prop :=
  equalFold (m.at lockLegalHoldKey) (str "ON") = true ∨
    (Date.parseRFC3339 (trimSpace (m.at lockRetentionRetainUntilKey))).isSome = true

instance (m : StrMap) : Decidable (LockMarks m) := by
  unfold LockMarks
  infer_instance

theorem never_locked_iff {row : ObjectVersion} :
    (∀ t, objectLocked row t = false) ↔ ¬ LockMarks row.metadata := by
  unfold objectLocked LockMarks
  by_cases hhold : equalFold (row.metadata.at lockLegalHoldKey) (str "ON") = true
  · simp [hhold]
  cases huntil : Date.parseRFC3339 (trimSpace (row.metadata.at lockRetentionRetainUntilKey)) with
  | none => simp
  | some until_ =>
    -- the second before the date is locked
    refine iff_of_false (fun h => ?_) (fun h => h (.inr rfl))
    have hbefore := h (until_ - 1)
    simp at hbefore

theorem lockMarks_markSSEMetadata {m : StrMap} {encrypted : Bool} :
    LockMarks (markSSEMetadata m encrypted) ↔ LockMarks m := by
  have hkeys : lockLegalHoldKey ≠ sseMetadataKey ∧ lockRetentionRetainUntilKey ≠ sseMetadataKey := by
    decide
  cases encrypted with
  | false => simp [LockMarks, markSSEMetadata, StrMap.at_erase_of_ne hkeys.1,
      StrMap.at_erase_of_ne hkeys.2]
  | true => simp [LockMarks, markSSEMetadata, StrMap.at_insert_of_ne hkeys.1,
      StrMap.at_insert_of_ne hkeys.2]

def S3Request.written? : S3Request → Option (Bytes × Bytes)
  | putObject _ bucket key _ | copyObject _ bucket key
  | completeMultipartUpload _ bucket key .. => some (bucket, key)
  | _ => none

/-- Where the metadata of a new version comes from: the headers of a `PUT`, or the source of a copy. -/
def sourceMetadata (P : Platform) (w : World) : S3Request → StrMap
  | .putObject r .. => collectUserMetadata P r.header
  | .copyObject r .. => match copySource r with
    | none => ∅
    | some (srcBucket, srcKey) => match w.metadata.getLatestObjectVersion srcBucket srcKey with
      | .error _ => ∅
      | .ok src => src.metadata
  | _ => ∅

/-- A row as a write puts it. -/
def MadeFrom (bucket key : Bytes) (m : StrMap) (encrypted : Bool) (row : ObjectVersion) : Prop :=
  (row.bucket = bucket ∧ row.key = key) ∧ row.metadata = markSSEMetadata m encrypted

/-- **A write.** -/
theorem write_madeFrom {request : S3Request} (hwrite : request.written? = some (bucket, key)) :
    stores.EnsuresWhen B (fun reply w' => reply.accepted = true → ∃ row, ∃ w₁ : World,
        MadeFrom bucket key (sourceMetadata a.platform w request) (request.encrypts w) row ∧
        ({ w₁ with metadata := w₁.metadata.putObjectVersion row }).Same w')
      (handle a c request) w := by
  cases request with
  | putObject r b k body =>
    cases hwrite
    refine inBucket_ensuresWhen nofun fun _ => ?_
    refine commit_ensuresWhen (stagePut_ensuresWhen.mono fun x w₁ hx => ⟨hx.1, fun row hrow => ?_⟩) rfl
      fun _ => trivial
    obtain ⟨⟨b', rfl⟩, -⟩ := hx.2 row hrow
    exact ⟨⟨rfl, rfl⟩, rfl⟩
  | copyObject r b k =>
    cases hwrite
    refine inBucket_ensuresWhen nofun fun _ => ?_
    refine commit_ensuresWhen (stageCopy_ensuresWhen.mono fun x w₁ hx => ⟨hx.1, fun row hrow => ?_⟩) rfl
      fun _ => trivial
    obtain ⟨hkey, src, srcBucket, srcKey, hsource, hsrc, hmetadata⟩ := hx.2 row hrow
    refine ⟨hkey, ?_⟩
    rw [hmetadata, sourceMetadata, hsource]
    dsimp only
    rw [hsrc]
    rfl
  | completeMultipartUpload r b k uploadID parts =>
    cases hwrite
    refine inBucket_ensuresWhen nofun fun _ => ?_
    refine commit_ensuresWhen (stageComplete_marks.mono fun x w₁ hx => ⟨hx.1, fun row hrow => ?_⟩) rfl
      fun _ => ⟨trivial, fun _ _ => trivial⟩
    obtain ⟨hkey, u, hupload, hmetadata⟩ := hx.2 row hrow
    refine ⟨hkey, ?_⟩
    rw [hmetadata, S3Request.encrypts, hupload]
    rfl
  | _ => cases hwrite

/-- **The lock and the encryption of a new version.**  In every world, and whatever goes wrong: the
version that a `PUT`, a copy or a completion has written is never locked and encrypted as was asked for
if and only if the headers of the `PUT`, or the source of the copy, hold no lock. -/
theorem newVersion_state_iff {s : Step} (hwrite : s.request.written? = some (bucket, key))
    (haccepted : (respond a w s).1.accepted = true) :
    ∃ row, (after a w s).metadata.getLatestObjectVersion bucket key = .ok row ∧
      ((∀ t, objectLocked row t = false) ∧ objectUsesSSE row = s.request.encrypts w ↔
        ¬ LockMarks (sourceMetadata a.platform w s.request)) := by
  obtain ⟨row, w₁, ⟨⟨rfl, rfl⟩, hmetadata⟩, hsame⟩ := respond_of_request rfl
    (write_madeFrom hwrite) haccepted
  refine ⟨row, ?_, ?_⟩
  · rw [MemoryState.getLatestObjectVersion, getLast?_of_put hsame]
  · rw [never_locked_iff, hmetadata, lockMarks_markSSEMetadata,
      and_iff_left (objectUsesSSE_of_mark hmetadata)]

/-- The world with an object that was written with a header. -/
def writtenWith (header : List (String × String)) : World :=
  afterAll sampleAPI {} [⟨.createBucket (str "b"), sampleCtx 1, []⟩,
    ⟨.putObject (objectRequest "" header) (str "b") (str "k") ⟨str "hi", false⟩, sampleCtx 2, []⟩]

def copyStep : Step where
  request := .copyObject (objectRequest "" [("X-Amz-Copy-Source", "/b/k")]) (str "b") (str "copy")
  ctx := sampleCtx 4
  faults := []

/-- A copy of an object with plain user metadata is not locked. -/
theorem newVersion_state_iff_plain :
    (respond sampleAPI (writtenWith [("x-amz-meta-owner", "me")]) copyStep).1.accepted = true ∧
    ∃ row, MemoryState.getLatestObjectVersion (after sampleAPI
        (writtenWith [("x-amz-meta-owner", "me")]) copyStep).metadata (str "b") (str "copy") = .ok row ∧
      ∀ t, objectLocked row t = false := by
  have haccepted : (respond sampleAPI (writtenWith [("x-amz-meta-owner", "me")]) copyStep).1.accepted =
      true := by decide +kernel
  obtain ⟨row, hrow, hiff⟩ := newVersion_state_iff rfl haccepted
  exact ⟨haccepted, row, hrow, (hiff.2 (by decide +kernel)).1⟩

/-- Whether a reply is 200 and the latest version of a key is locked at a time. -/
def locks (w : World) (s : Step) (key : Bytes) (t : Time) : Bool :=
  (respond sampleAPI w s).1.accepted &&
    match (after sampleAPI w s).metadata.getLatestObjectVersion (str "b") key with
    | .error _ => false
    | .ok row => objectLocked row t

/-- **A header of a `PUT` locks the new version, and the hold on the source of a copy is copied.** -/
theorem newVersion_locked :
    locks (writtenWith []) ⟨.putObject (objectRequest "" [("x-amz-meta-__s000_legal_hold", "ON")])
        (str "b") (str "k") ⟨str "two", false⟩, sampleCtx 3, []⟩ (str "k") 9 = true ∧
      locks (after sampleAPI (writtenWith []) ⟨.putLegalHold objectRequest (str "b") (str "k")
        (some (str "ON")), sampleCtx 3, []⟩) copyStep (str "copy") 9 = true := by
  decide +kernel

end S000
