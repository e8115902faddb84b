import S000.Auth.Binding
import S000.Server.UsableParts
import S000.Server.NewVersions
import S000.Server.Ranges

/-!
# Server/Copies — what a copy reads and what it stores

A copy reads its source to the end and stores what it has read.  Reading is what `ReadObject` does
without a range, and that is a range too, from the first byte to the last: an object without bytes has
none, and a copy of it is answered with an error (`copy_stores_iff`).

The source is named by a header.  Clients percent-encode the key there and put the version behind it;
the handler takes the header as it stands, so that only a name that the encoding leaves alone, without
a version, is read back (`copySource_read_iff`).

The header is also looked at before the upload id: a `PUT` that is to copy an object into a part of an
upload copies it over the key (`part_put_frame_iff`).
-/

namespace S000

open Strings Metadata Blob MemoryState List Machine Option Url

variable {a : S3API} {w : World} {c : Ctx} {r : Request} {bucket key iv x : Bytes}
  {src : ObjectVersion}

/-! ## A copy of an object -/

/-- **An object that a request for a copy names** and that can be read: its file holds its bytes, plain
or encrypted, and the conditions of the request hold of it. -/
structure CopySource (a : S3API) (w : World) (r : Request) (src : ObjectVersion) (iv x : Bytes) :
    Prop where
  named : ∃ srcBucket srcKey, copySource r = some (srcBucket, srcKey) ∧
    w.metadata.getLatestObjectVersion srcBucket srcKey = .ok src
  object : src.deleteMarker = false
  conditions : objectConditionsPass a.platform r src (str "x-amz-copy-source-") = none
  keyed : objectUsesSSE src = true → a.sseKey.length = 32
  vector : iv.length = sseIVSize
  size : src.size = x.length
  file : w.disk.files src.storagePath = some (storedBytes a iv (objectUsesSSE src) x)

/-- An object without bytes is not read, -/
theorem CopySource.eval_read_nil (h : CopySource a w r src iv []) :
    stores.eval (readMaybeEncryptedObject a src none) w = (⟨[], true⟩, w) := by
  have hsize := h.size
  have hfile := h.file
  cases hsse : objectUsesSSE src with
  | false => simp [readMaybeEncryptedObject, hsse, readObject, step, hfile, storedBytes, opening]
  | true =>
    simp [readMaybeEncryptedObject, hsse, h.keyed hsse, step, hfile, opening, hsize]

/-- …and any other to its end. -/
theorem CopySource.eval_read (h : CopySource a w r src iv x) (hx : x ≠ []) :
    stores.eval (readMaybeEncryptedObject a src none) w = (⟨x, false⟩, w) := by
  rw [eval_read_none h.size h.file, eval_readMaybeEncryptedObject h.keyed h.vector h.size h.file
    (ByteRange.within_whole hx), ByteRange.slice_whole]

def copyRow (a : S3API) (c : Ctx) (src : ObjectVersion) (ref : ObjectRef) (x : Bytes)
    (encrypted : Bool) : ObjectVersion :=
  objectRow { digests a.platform x with ref, path := a.path ref, createdAt := c.now }
    (Hex.encode (a.platform.md5 x)) (markSSEMetadata src.metadata encrypted)

section Copy

variable {b : Bucket} {encrypted : Bool} (h : CopySource a w r src iv x)
  (hnamed : bucket ≠ [] ∧ key ≠ []) (hsse : validateSSEHeaders a r bucket key = .ok encrypted)
  (hb : w.metadata.getBucket bucket = .ok b) (hfree : writtenVersionID c b = nullVersion →
    ∀ v, w.metadata.getObjectVersion bucket key nullVersion = .ok v → objectLocked v c.now = false)
include h hnamed hsse hb hfree

/-- **A copy up to its row**, when nothing goes wrong: the bytes of the source are written, and whether
the source could be read is looked at afterwards. -/
theorem CopySource.eval_stageCopy {fails : Bool}
    (hread : stores.eval (readMaybeEncryptedObject a src none) w = (⟨x, fails⟩, w)) :
    ∃ w₁, w.Stored w₁ (a.path ⟨bucket, key, writtenVersionID c b⟩) (storedBytes a c.iv encrypted x) ∧
      (fails = false → stores.eval (stageCopy a c r bucket key) w =
        (.ok (copyRow a c src ⟨bucket, key, writtenVersionID c b⟩ x encrypted), w₁)) ∧
      (fails = true → ∃ e, (stores.eval (stageCopy a c r bucket key) w).1 = .error e ∧
        e.accepted = false) := by
  obtain ⟨srcBucket, srcKey, hsource, hlatest⟩ := h.named
  have hwrite : (stores.eval (writeMaybeEncryptedObject a c ⟨bucket, key, writtenVersionID c b⟩
      ⟨x, false⟩ encrypted) w).1 = _ :=
    eval_writeMaybeEncryptedObject hnamed.1 hnamed.2 rfl (validateSSEHeaders_ok hsse).2
  have hstored := eval_of_ensures stores (writeMaybeEncryptedObject_ensures encrypted) _ hwrite
  unfold copySource at hsource
  refine ⟨_, hstored.2.2, ?_, ?_⟩
  all_goals
    rintro rfl
    simp [stageCopy, hsource, step, reading, hlatest, h.object, h.conditions, hsse, hread, hb,
      eval_overwriteLocked hfree, hwrite]
    rfl

/-- **A copy of an object that has a byte**, when nothing goes wrong: the bytes are written, and the row
is put. -/
theorem CopySource.eval_copy (hx : x ≠ []) :
    ∃ w₁ reply, w.Stored w₁ (a.path ⟨bucket, key, writtenVersionID c b⟩)
        (storedBytes a c.iv encrypted x) ∧ reply.accepted = true ∧
      stores.eval (handle a c (.copyObject r bucket key)) w = (reply, ⟨w₁.metadata.putObjectVersion
        (copyRow a c src ⟨bucket, key, writtenVersionID c b⟩ x encrypted), w₁.disk⟩) := by
  obtain ⟨w₁, hstored, hstage, -⟩ := h.eval_stageCopy hnamed hsse hb hfree (h.eval_read hx)
  let row := copyRow a c src ⟨bucket, key, writtenVersionID c b⟩ x encrypted
  refine ⟨w₁, .answer 200 [] (.copyResult (quotedETag row.eTag) (Date.formatRFC3339 row.createdAt)),
    hstored, rfl, ?_⟩
  simp only [handle, inBucket, step, reading, hb, handleCopyObject, eval_runHeavy, hstage rfl,
    eval_bind, eval_ask]
  rfl

end Copy

/-- **A copy of an object is stored if and only if the object has a byte.**  The object can be read, the
conditions of the request hold, its encryption can be served, and the destination is there and not
locked; nothing goes wrong. -/
theorem copy_stores_iff (h : CopySource a w r src iv x) (hfree : Unhindered w c bucket key)
    (hsse : ∃ encrypted, validateSSEHeaders a r bucket key = .ok encrypted) :
    ((respond a w ⟨.copyObject r bucket key, c, []⟩).1.accepted = true ∧
      ∀ g : Request, g.Unconditional → g.query.get (str "versionId") = [] →
        (getReply a (after a w ⟨.copyObject r bucket key, c, []⟩) g bucket key).content? = some x) ↔
      x ≠ [] := by
  obtain ⟨hnamed, b, hb, hunlocked⟩ := hfree
  obtain ⟨encrypted, hsse⟩ := hsse
  constructor
  · rintro ⟨haccepted, -⟩ rfl
    obtain ⟨w₁, -, -, hrefused⟩ := h.eval_stageCopy hnamed hsse hb hunlocked h.eval_read_nil
    obtain ⟨e, hstage, he⟩ := hrefused rfl
    rw [respond, exec_nil] at haccepted
    simp [handle, inBucket, step, reading, hb, handleCopyObject, eval_runHeavy, hstage, he] at haccepted
  · intro hx
    obtain ⟨w₁, reply, hstored, hreply, hrun⟩ := h.eval_copy hnamed hsse hb hunlocked hx
    let row := copyRow a c src ⟨bucket, key, writtenVersionID c b⟩ x encrypted
    have hmark : objectUsesSSE row = encrypted := objectUsesSSE_of_mark rfl
    have hplaced : w₁.disk.files row.storagePath = some (storedBytes a c.iv encrypted x) := by
      rw [hstored.files]
      exact Function.update_self ..
    have hfile := exists_content hmark rfl (validateSSEHeaders_ok hsse).2 hplaced
    rw [after, respond, exec_nil, hrun]
    refine ⟨hreply, fun g hg hlatest => ?_⟩
    have hmem : bucket ∈ w.metadata.buckets := mem_of_getBucket hb
    exact congrArg Reply.content? (getReply_of_put (.refl _) hstored.metadata hmem rfl hfile
      hg (.inl hlatest))

def copyRequest : Request := objectRequest "" [("X-Amz-Copy-Source", "/b/k")]

/-- An object of seven bytes, -/
def copiedRow : ObjectVersion :=
  putRow sampleAPI (sampleCtx 2) objectRequest ⟨str "content", false⟩ ⟨str "b", str "k", nullVersion⟩

/-- …in a bucket. -/
def copiedWorld : World where
  metadata := (createBucket {} ⟨str "b", [], [], 1⟩).2.putObjectVersion copiedRow
  disk := { files := Function.update (fun _ => none) copiedRow.storagePath (some (str "content")) }

theorem copySource_copiedWorld : CopySource sampleAPI copiedWorld copyRequest copiedRow
    (replicate 16 0) (str "content") where
  named := ⟨str "b", str "k", by decide, rfl⟩
  object := rfl
  conditions := rfl
  keyed h := by cases h
  vector := rfl
  size := rfl
  file := by
    simp only [copiedWorld, Function.update_self]
    rfl

theorem copy_stores_iff_content : str "content" ≠ [] ∧
    (respond sampleAPI copiedWorld
      ⟨.copyObject copyRequest (str "b") (str "copy"), sampleCtx 3, []⟩).1.accepted = true :=
  ⟨by decide, ((copy_stores_iff copySource_copiedWorld
    (unhindered_of_empty (by decide) (by decide) (by decide)) ⟨false, rfl⟩).2 (by decide)).1⟩

/-- **An object without bytes is not copied**: it is put, a `GET` finds it, and a copy of it is answered
with an error. -/
theorem empty_object_not_copied :
    let w := afterAll sampleAPI {} [⟨.createBucket (str "b"), sampleCtx 1, []⟩,
      ⟨.putObject objectRequest (str "b") (str "k") ⟨[], false⟩, sampleCtx 2, []⟩]
    (getReply sampleAPI w objectRequest (str "b") (str "k")).content? = some [] ∧
      (respond sampleAPI w ⟨.copyObject copyRequest (str "b") (str "copy"), sampleCtx 3, []⟩).1 =
        internalError (str "b") (str "copy") "Copy source read failed." := by
  decide +kernel

/-! ## The header that names the source -/

/-- Percent-encoding that leaves some bytes alone. -/
def percentEncode (keep : UInt8 → Bool) (s : Bytes) : Bytes :=
  s.flatMap fun b => if keep b then [b] else percent b

/-- The bytes of a key that clients leave alone: the unreserved ones and the slash. -/
def keptInKey (b : UInt8) : Bool := isUnreserved b || b = 0x2F

/-- A key as clients send it, with a version behind or without. -/
def encodedKey (key : Bytes) (versionID : Option Bytes) : Bytes :=
  percentEncode keptInKey key ++
    (versionID.map fun v => str "?versionId=" ++ percentEncode isUnreserved v).getD []

/-- **The header as clients send it**: the bucket and the key, percent-encoded, with a slash in front or
without. -/
def copySourceHeader (slash : Bool) (bucket key : Bytes) (versionID : Option Bytes) : Bytes :=
  (if slash then str "/" else []) ++ (percentEncode isUnreserved bucket ++ 0x2F ::
    encodedKey key versionID)

/-- The first version that a run reads: what it was told about it. -/
def sourceRead (events : List (Event calls Fault)) : Option (Except Error ObjectVersion) :=
  events.findSome? fun e => match e with
    | ⟨.getLatestObjectVersion _ _, _, v⟩ => some v
    | ⟨.getObjectVersion _ _ _, _, v⟩ => some v
    | _ => none

/-- **What a copy reads**: the latest version of the key that its header names as it stands. -/
theorem sourceRead_copy : sourceRead (stores.trace (handleCopyObject a c r bucket key) w) =
    (copySource r).map fun s => w.metadata.getLatestObjectVersion s.1 s.2 := by
  have hstage : ∀ (w : World) (k : Except Reply ObjectVersion → Act Reply),
      (∀ e, k (.error e) = pure e) → sourceRead (stores.trace (stageCopy a c r bucket key >>= k) w) =
        (copySource r).map fun s => w.metadata.getLatestObjectVersion s.1 s.2 := by
    intro w k hk
    unfold stageCopy copySource
    split
    next h =>
      rw [h]
      exact congrArg (fun p => sourceRead (stores.trace p w)) (hk _)
    next srcBucket srcKey h =>
      rw [h]
      rfl
  unfold handleCopyObject runHeavy
  split_ifs
  · exact hstage w _ fun _ => rfl
  · exact hstage w _ fun _ => rfl

theorem length_percentEncode (keep : UInt8 → Bool) (s : Bytes) :
    (percentEncode keep s).length = s.length + 2 * s.countP fun b => !keep b := by
  induction s with
  | nil => rfl
  | cons b t ih =>
    rw [percentEncode, flatMap_cons, ← percentEncode]
    cases hb : keep b <;> simp [hb, percent] <;> omega

/-- The encoding leaves a name alone if and only if it leaves each of its bytes alone. -/
theorem percentEncode_eq_self_iff {keep : UInt8 → Bool} {s : Bytes} :
    percentEncode keep s = s ↔ ∀ b ∈ s, keep b = true := by
  constructor
  · intro h b hb
    have hlength := length_percentEncode keep s
    rw [h, left_eq_add, mul_eq_zero, or_iff_right two_ne_zero, countP_eq_zero] at hlength
    simpa using hlength b hb
  · intro h
    calc percentEncode keep s = s.flatMap fun b => [b] := flatMap_congr fun b hb => if_pos (h b hb)
      _ = s := flatMap_singleton' s

theorem slash_not_mem_percentEncode (s : Bytes) :
    0x2F ∉ percentEncode isUnreserved s := by
  have h := SigV4.not_mem_awsEncode (c := 0x2F) (by decide) (by decide) s
  rwa [SigV4.awsEncode_eq] at h

/-- The handler drops a slash in front; where neither a slash nor a bucket is in front, that is the one
between bucket and key. -/
theorem trimPrefix_copySourceHeader (slash : Bool) (bucket key : Bytes) (versionID : Option Bytes) :
    trimPrefix (copySourceHeader slash bucket key versionID) (str "/") =
      if slash = true ∨ bucket ≠ [] then
        percentEncode isUnreserved bucket ++ 0x2F :: encodedKey key versionID
      else encodedKey key versionID := by
  cases slash with
  | true => exact trimPrefix_append (str "/") _
  | false =>
    cases bucket with
    | nil => exact trimPrefix_append (str "/") _
    | cons b t =>
      have hne : percentEncode isUnreserved (b :: t) ≠ [] := by
        rw [← length_pos_iff, length_percentEncode]
        exact lt_of_lt_of_le (Nat.zero_lt_succ _) (Nat.le_add_right _ _)
      obtain ⟨x, y, hxy⟩ := exists_cons_of_ne_nil hne
      have hx : 0x2F ≠ x := fun h =>
        slash_not_mem_percentEncode (b :: t) (by rw [hxy, h]; exact mem_cons_self)
      rw [copySourceHeader, hxy]
      refine if_neg fun h => hx ?_
      exact (cons_prefix_cons.1 (hasPrefix_iff.1 h)).1

theorem length_encodedKey (key : Bytes) (versionID : Option Bytes) : ∃ n,
    (encodedKey key versionID).length = key.length + 2 * key.countP (fun b => !keptInKey b) + n ∧
      n ≠ 1 ∧ (n = 0 ↔ versionID = none) := by
  rw [encodedKey, length_append, length_percentEncode]
  refine ⟨_, rfl, ?_⟩
  cases versionID with
  | none => simp
  | some v =>
    simp only [map_some, getD_some, length_append,
      show (str "?versionId=").length = 11 from rfl, reduceCtorEq, iff_false]
    omega

/-- A name that the handler reads back has the length it had. -/
theorem kept_of_copySource {slash : Bool} {versionID : Option Bytes}
    (h : cut 0x2F (trimPrefix (copySourceHeader slash bucket key versionID) (str "/")) =
      some (bucket, key)) :
    versionID = none ∧ (∀ b ∈ bucket, isUnreserved b = true) ∧ (∀ b ∈ key, keptInKey b = true) ∧
      (slash = true ∨ bucket ≠ []) := by
  obtain ⟨hjoined, -⟩ := eq_of_cut h
  have hlength := congrArg length hjoined
  obtain ⟨n, hrest, hone, hnone⟩ := length_encodedKey key versionID
  rw [trimPrefix_copySourceHeader] at hlength
  split_ifs at hlength with hfront
  · simp only [length_append, length_cons, length_percentEncode] at hlength
    have hall : ∀ (keep : UInt8 → Bool) (s : Bytes), (s.countP fun b => !keep b) = 0 →
        ∀ b ∈ s, keep b = true := by
      intro keep s hs b hb
      simpa using countP_eq_zero.1 hs b hb
    exact ⟨hnone.1 (by omega), hall _ _ (by omega), hall _ _ (by omega), hfront⟩
  · push Not at hfront
    simp only [length_append, length_cons, hfront.2, length_nil] at hlength
    omega

def oneVersion (bucket key : Bytes) : World where
  metadata := putObjectVersion {} { bucket, key, versionID := nullVersion, createdAt := 0 }

theorem versions_oneVersion (b k : Bytes) : (oneVersion bucket key).metadata.versions b k =
    if b = bucket ∧ k = key then [{ bucket, key, versionID := nullVersion, createdAt := 0 }] else [] := by
  rw [oneVersion, versions_putObjectVersion]
  rfl

/-- **A copy-source header is read as it was meant** if and only if it has no version, the encoding
leaves the bucket and the key alone, and there is something in front of the slash between them. -/
theorem copySource_read_iff (slash : Bool) (bucket key : Bytes) (versionID : Option Bytes) :
    (∀ (a : S3API) (c : Ctx) (r : Request) (w : World) (dstBucket dstKey : Bytes),
      r.header.get (str "X-Amz-Copy-Source") = copySourceHeader slash bucket key versionID →
      sourceRead (stores.trace (handleCopyObject a c r dstBucket dstKey) w) =
        some (w.metadata.getObjectVersion bucket key (versionID.getD []))) ↔
    versionID = none ∧ (∀ b ∈ bucket, isUnreserved b = true) ∧ (∀ b ∈ key, keptInKey b = true) ∧
      (slash = true ∨ bucket ≠ []) := by
  constructor
  · intro h
    let header := copySourceHeader slash bucket key versionID
    let r : Request := { objectRequest with header := .ofList [(str "X-Amz-Copy-Source", header)] }
    have hvalues : r.header.values (str "X-Amz-Copy-Source") = [header] :=
      congrArg (getD · []) (AList.lookup_insert (∅ : Header))
    have hr : r.header.get (str "X-Amz-Copy-Source") = header := by
      rfl
    have hread := fun w => h sampleAPI (sampleCtx 0) r w [] [] hr
    simp only [sourceRead_copy] at hread
    -- the header names a key, because something is read in every world
    obtain ⟨⟨srcBucket, srcKey⟩, hsource, -⟩ := map_eq_some_iff.1 (hread {})
    have hone := hread (oneVersion srcBucket srcKey)
    rw [hsource] at hone
    -- …and it is the key that was meant, because the only version there is is found under it
    have hsame : bucket = srcBucket ∧ key = srcKey := by
      by_contra hne
      simp [getObjectVersion, getLatestObjectVersion, versions_oneVersion, hne] at hone
    obtain ⟨rfl, rfl⟩ := hsame
    exact kept_of_copySource hsource
  · rintro ⟨rfl, hbucket, hkey, hfront⟩ a c r w dstBucket dstKey hr
    have hrest : encodedKey key none = key := by
      rw [encodedKey, percentEncode_eq_self_iff.2 hkey]
      exact append_nil key
    have hsource : copySource r = some (bucket, key) := by
      rw [copySource, hr, trimPrefix_copySourceHeader, if_pos hfront, hrest,
        percentEncode_eq_self_iff.2 hbucket]
      exact cut_of_not_mem (fun h => by cases hbucket _ h) key
    rw [sourceRead_copy, hsource]
    rfl

/-- **A key with a space is not found**: the header holds it as clients send it, and the handler reads
the key `a%20b`. -/
theorem encoded_key_not_read :
    sourceRead (stores.trace (handleCopyObject sampleAPI (sampleCtx 3)
        (objectRequest "" [("X-Amz-Copy-Source", "/b/a%20b")]) (str "b") (str "copy"))
      (oneVersion (str "b") (str "a b"))) = some (.error .notFound) ∧
    copySourceHeader true (str "b") (str "a b") none = str "/b/a%20b" ∧
    (oneVersion (str "b") (str "a b")).metadata.getObjectVersion (str "b") (str "a b") [] ≠
      .error .notFound :=
  ⟨rfl, by decide, nofun⟩

/-! ## A copy in place of a part -/

/-- The request that a `PUT` with an upload id ends in. -/
def partRequest (r : Request) (bucket key : Bytes) (body : Stream) : Option S3Request :=
  match handleObjectRequest r with
  | some .copyObject => some (.copyObject r bucket key)
  | some .uploadPart => some (.uploadPart r bucket key (r.query.get (str "uploadId")) body)
  | _ => none

/-- **Only parts of one upload have changed**: buckets, versions and object files, the records of the
uploads and the parts of the others are as before. -/
structure World.OnlyParts (w : World) (uploadID : Bytes) (w' : World) : Prop where
  same : w.Same w'
  records : w'.metadata.multipart = w.metadata.multipart
  others : ∀ u ≠ uploadID, w.SameUpload u w'

inductive Call.OfParts (uploadID : Bytes) : Call → Prop
  | idle {o : Call} (h : o.Idle) : OfParts uploadID o
  | stage (id : ℕ) (content : Bytes) (n : ℤ) : OfParts uploadID (.renamePart id content uploadID n)
  | record {p : MultipartPart} (h : p.uploadID = uploadID) : OfParts uploadID (.upsertMultipartPart p)
  | clear : OfParts uploadID (.removeUpload uploadID)

variable {o : Call} {w' w'' : World} {uploadID : Bytes} {body : Stream}

theorem World.Kept.onlyParts (h : w.Kept w') : w.OnlyParts uploadID w' :=
  ⟨⟨by rw [h.metadata], by rw [h.metadata], h.files⟩, by rw [h.metadata], fun u _ => h.sameUpload u⟩

theorem World.OnlyParts.trans (h : w.OnlyParts uploadID w') (h' : w'.OnlyParts uploadID w'') :
    w.OnlyParts uploadID w'' :=
  ⟨h.same.trans h'.same, h'.records.trans h.records, fun u hu => (h.others u hu).trans (h'.others u hu)⟩

theorem Call.OfParts.onlyParts (h : o.OfParts uploadID) (w : World) (f : Fault) :
    w.OnlyParts uploadID (step w f o).2 := by
  have hothers (ho : o.upload? = some uploadID) : ∀ u ≠ uploadID, w.SameUpload u (step w f o).2 :=
    fun u hu => sameUpload_step (fun heq => hu (some.inj (heq.symm.trans ho))) w f
  cases h with
  | idle h => exact (h.kept w f).onlyParts
  | stage id content n =>
    refine ⟨Quiet.same (by trivial) w f, ?_, hothers rfl⟩
    rw [step]
    unfold changing
    split_ifs <;> rfl
  | record h => exact ⟨Quiet.same (by trivial) w f, (step_upsertMultipartPart rfl).2.1,
      hothers (congrArg some h)⟩
  | clear => exact ⟨Quiet.same (by trivial) w f, by cases f <;> rfl, hothers rfl⟩

/-- **An upload of a part** changes parts of its upload only. -/
theorem uploadPart_onlyParts {faults : List Fault} :
    w.OnlyParts uploadID (after a w ⟨.uploadPart r bucket key uploadID body, c, faults⟩) := by
  have honly : (handle a c (.uploadPart r bucket key uploadID body)).Only (fun _ _ => True)
      (Call.OfParts uploadID) fun _ => True :=
    inBucket_only (fun _ => .idle) (handleUploadPart_only (fun _ => .idle) .stage (fun _ => .record)
      .clear)
  exact (respond_of_ensures (ensures_of_only
    (fun w' f _ hw' ho => ⟨trivial, hw'.trans (ho.onlyParts w' f)⟩) honly
    (World.Kept.refl w).onlyParts)).2

/-- **The request passes for a copy**: its header names a source, its encryption can be served, and there
is an object that its conditions hold of. -/
def PassesForCopy (a : S3API) (r : Request) (bucket key : Bytes) : Prop :=
  (copySource r).isSome = true ∧ (∃ encrypted, validateSSEHeaders a r bucket key = .ok encrypted) ∧
    ∃ src, src.deleteMarker = false ∧
      objectConditionsPass a.platform r src (str "x-amz-copy-source-") = none

theorem handleCopyObject_idle (h : ¬ PassesForCopy a r bucket key) :
    (handleCopyObject a c r bucket key).Only (fun _ _ => True) Call.Idle fun _ => True := by
  have hstage : (stageCopy a c r bucket key).Only (fun _ _ => True) Call.Idle
      fun x => ∀ row, x ≠ .ok row := by
    unfold stageCopy
    split
    · exact nofun
    next srcBucket srcKey hsource =>
      refine ⟨trivial, fun v _ => ?_⟩
      rcases v with _ | obj
      · exact nofun
      refine Prog.only_ite (fun _ => nofun) fun hmarker => ?_
      split
      · exact nofun
      next hpass =>
        split
        · exact nofun
        next encrypted hsse =>
          refine absurd ⟨?_, ⟨encrypted, hsse⟩, obj, by simpa using hmarker, hpass⟩ h
          rw [copySource, hsource]
          rfl
  refine runHeavy_only (fun _ h => h) (hstage.bind fun x hx => ?_)
  rcases x with e | row
  · trivial
  · exact absurd rfl (hx row)

/-- A bucket, and one object with one byte. -/
def oneByte (bucket : Bytes) (src : ObjectVersion) : World where
  metadata := { putObjectVersion {} src with buckets := .insert bucket ⟨bucket, [], [], 0⟩ ∅ }
  disk := { files := fun _ => some [0] }

/-- **A copy in place of a part puts a row** of its key, in a world with the object that it names. -/
theorem not_onlyParts_of_passes (h : PassesForCopy a r bucket key) (hnamed : bucket ≠ [] ∧ key ≠ []) :
    ∃ w : World, ¬ w.OnlyParts uploadID (after a w ⟨.copyObject r bucket key, c, []⟩) := by
  obtain ⟨hsome, ⟨encrypted, hsse⟩, src, hmarker, hpass⟩ := h
  obtain ⟨⟨srcBucket, srcKey⟩, hsource⟩ := isSome_iff_exists.1 hsome
  let obj : ObjectVersion :=
    { src with bucket := srcBucket, key := srcKey, versionID := [], size := 1, metadata := ∅ }
  have hversions (b k : Bytes) : (oneByte bucket obj).metadata.versions b k =
      if b = srcBucket ∧ k = srcKey then [obj] else [] := by
    change (putObjectVersion {} obj).versions b k = _
    rw [versions_putObjectVersion]
    rfl
  have hold : ∀ v ∈ (oneByte bucket obj).metadata.versions bucket key, v = obj := fun v hv => by
    rw [hversions] at hv
    split_ifs at hv
    · exact mem_singleton.1 hv
    · cases hv
  have hcopy : CopySource a (oneByte bucket obj) r obj (replicate 16 0) [0] := by
    refine ⟨⟨srcBucket, srcKey, hsource, ?_⟩, hmarker, hpass, fun h => (by cases h), rfl, rfl, rfl⟩
    rw [getLatestObjectVersion, hversions, if_pos ⟨rfl, rfl⟩]
    rfl
  have hb : (oneByte bucket obj).metadata.getBucket bucket = .ok ⟨bucket, [], [], 0⟩ := by
    rw [oneByte, getBucket, AList.lookup_insert]
  obtain ⟨w₁, reply, hstored, -, hrun⟩ := hcopy.eval_copy hnamed hsse hb
    (fun _ v hv => by rw [hold v (mem_of_getObjectVersion hv).1]; rfl) (by decide)
  refine ⟨oneByte bucket obj, fun honly => ?_⟩
  have hrows := honly.same.versions bucket key
  rw [after, respond, exec_nil, hrun, versions_putObjectVersion,
    if_pos ⟨rfl, rfl⟩] at hrows
  have hrow := hold _ (hrows ▸ Versions.mem_put.2 (.inl rfl))
  cases congrArg ObjectVersion.versionID hrow

/-- **A `PUT` with an upload id changes parts of that upload only**, whatever the state and whatever goes
wrong, if and only if it does not pass for a copy.  It has no flag of another sub-resource. -/
theorem part_put_frame_iff (hput : r.method = str "PUT") (hid : r.query.has (str "uploadId") = true)
    (hflags : ∀ flag ∈ ["acl", "tagging", "retention", "legal-hold"], r.query.has (str flag) = false)
    (hnamed : bucket ≠ [] ∧ key ≠ []) :
    (∀ (w : World) (body : Stream) (faults : List Fault), ∀ request ∈ partRequest r bucket key body,
      w.OnlyParts (r.query.get (str "uploadId")) (after a w ⟨request, c, faults⟩)) ↔
      ¬ PassesForCopy a r bucket key := by
  have hop : handleObjectRequest r = if r.header.get (str "X-Amz-Copy-Source") ≠ [] then
      some .copyObject else handleMultipartWithUploadID r := by
    simp [handleObjectRequest, hput, hid, hflags]
  constructor
  · intro h hpasses
    have hheader : r.header.get (str "X-Amz-Copy-Source") ≠ [] := fun hnil => by
      have hsome := hpasses.1
      rw [copySource, hnil] at hsome
      cases hsome
    obtain ⟨w, hw⟩ := not_onlyParts_of_passes hpasses hnamed
    refine hw (h w ⟨[], false⟩ [] _ ?_)
    rw [partRequest, hop, if_pos hheader]
    rfl
  · intro h w body faults request hrequest
    rw [partRequest, hop] at hrequest
    by_cases hheader : r.header.get (str "X-Amz-Copy-Source") = []
    · rw [if_neg (not_not.2 hheader), handleMultipartWithUploadID] at hrequest
      split_ifs at hrequest
      · cases hrequest
      · cases hrequest
        exact uploadPart_onlyParts
      · simp +decide [byMethod, hput] at hrequest
    · rw [if_pos hheader] at hrequest
      cases hrequest
      exact (respond_of_ensures (ensures_idle (inBucket_only (fun _ h => h)
        (handleCopyObject_idle h)))).2.onlyParts

/-- A `PUT` of a part, with a source or without. -/
def partPut (header : List (String × String)) : Request :=
  { objectRequest "partNumber=1&uploadId=3-" header with method := str "PUT" }

def plainPart : S3Request :=
  .uploadPart (partPut []) (str "b") (str "big") (str "3-") ⟨str "x", false⟩

/-- An object `k`, and an upload of `big` with a part. -/
def partWorld : World :=
  afterAll sampleAPI {} [⟨.createBucket (str "b"), sampleCtx 1, []⟩,
    ⟨.putObject objectRequest (str "b") (str "k") ⟨str "content", false⟩, sampleCtx 2, []⟩,
    ⟨.createMultipartUpload objectRequest (str "b") (str "big"), sampleCtx 3, []⟩,
    ⟨.uploadPart (objectRequest "partNumber=2") (str "b") (str "big") (str "3-") ⟨str "y", false⟩,
      sampleCtx 4, []⟩]

/-- Another part is uploaded. -/
theorem part_put_frame_iff_plain :
    partRequest (partPut []) (str "b") (str "big") ⟨str "x", false⟩ = some plainPart ∧
      (respond sampleAPI partWorld ⟨plainPart, sampleCtx 5, []⟩).1.accepted = true ∧
      partWorld.OnlyParts (str "3-") (after sampleAPI partWorld ⟨plainPart, sampleCtx 5, []⟩) := by
  have h : ¬ PassesForCopy sampleAPI (partPut []) (str "b") (str "big") := fun h => by cases h.1
  exact ⟨rfl, by decide +kernel,
    (part_put_frame_iff rfl (by decide) (by decide) (by decide)).2 h partWorld _ [] plainPart rfl⟩

/-- **A part is copied over the key**: a part of the upload of `big` is to be a copy of `k`, and `big` is
an object with the bytes of `k` afterwards. -/
theorem part_copy_overwrites :
    let r := partPut [("X-Amz-Copy-Source", "/b/k")]
    partRequest r (str "b") (str "big") ⟨[], false⟩ = some (.copyObject r (str "b") (str "big")) ∧
      getReply sampleAPI partWorld objectRequest (str "b") (str "big") =
        noSuchKey (str "b") (str "big") ∧
      (getReply sampleAPI (after sampleAPI partWorld ⟨.copyObject r (str "b") (str "big"),
        sampleCtx 5, []⟩) objectRequest (str "b") (str "big")).content? = some (str "content") := by
  exact ⟨rfl, by decide +kernel, by decide +kernel⟩

end S000
